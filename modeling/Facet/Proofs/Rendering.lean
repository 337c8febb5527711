import Facet.Json.Reader
import Facet.Proofs.Except
import Facet.Proofs.Members
import Facet.Renderer

/-!
# Answers to requests

What a renderer answers (`render_eq_ok_iff`). The body without attachments is the projection or the
one given (`Starts`). It is sent as it is unless metadata or diagnostics are asked for; otherwise it
is read once, and `Dressed` says what is sent in its place. Attaching twice comes down to that
because what the first attachment leaves reads as what the body did, but for the member set
(`dressed_iff`).
-/

set_option autoImplicit false

namespace Facet

variable {decode : Json.Decoder} {key : String} {value : Json} {body : Option Body}
  {ms : Members Json}

/-! ## Members to set -/

/-- If there is a value, it is put under the key; if there is none, nothing changes. -/
def Members.PutAny (key : String) : Option Json → Members Json → Members Json → Prop
  | none, ms, ms' => ms' = ms
  | some value, ms, ms' => Members.Put key value ms ms'

theorem Members.exists_putAny (key : String) (value? : Option Json) (ms : Members Json) :
    ∃ ms', Members.PutAny key value? ms ms' := by
  cases value? with
  | none => exact ⟨ms, rfl⟩
  | some value => exact ⟨_, Members.put_insert key value ms⟩

namespace Body

/-- What a body reads as. No body counts as an object without members. -/
def content (decode : Json.Decoder) : Option Body → Except Body Json
  | none => .ok (.object [])
  | some body => body.read decode

/-- A body that cannot be read is left as it is. -/
theorem eq_of_content_eq_error {unread : Body} (h : content decode body = .error unread) :
    body = some unread := by
  rcases body with _ | ⟨v⟩ | ⟨contentType, bytes⟩
  · cases h
  · cases h
  · simp only [content, read] at h
    split at h
    · cases h
    · cases h
      rfl

/-! ## One attachment -/

theorem attach_of_object (key : String) (value : Json)
    (h : content decode body = .ok (.object ms)) :
    attach decode key value body = (.json (.object (Members.insert key value ms)), none) := by
  cases body with
  | none =>
    cases h
    rfl
  | some body =>
    rw [content] at h
    rw [attach, h]

theorem attach_of_not_object (key : String) (value : Json) {v : Json}
    (h : content decode body = .ok v)
    (hv : ∀ ms, v ≠ .object ms) : attach decode key value body = (.json v, some .notObject) := by
  cases body with
  | none =>
    cases h
    exact absurd rfl (hv [])
  | some body =>
    rw [content] at h
    rw [attach, h]
    split
    · next ms he => exact absurd (Except.ok.inj he) (hv ms)
    · next w he =>
      cases he
      rfl
    · next he => cases he

theorem attach_of_unread (key : String) (value : Json) {unread : Body}
    (h : content decode body = .error unread) :
    attach decode key value body = (unread, some .notJson) := by
  cases body with
  | none => cases h
  | some body =>
    rw [content] at h
    rw [attach, h]

/-- The body with the value attached, if there is one to attach. -/
def attachAny (decode : Json.Decoder) (key : String) : Option Json → Option Body → Option Body
  | none, body => body
  | some value, body => some (attach decode key value body).1

theorem content_attachAny_of_object (key : String) (value? : Option Json) {ms' : Members Json}
    (h : content decode body = .ok (.object ms)) :
    content decode (attachAny decode key value? body) = .ok (.object ms') ↔
      Members.PutAny key value? ms ms' := by
  cases value? with
  | none =>
    rw [attachAny, h, Except.ok.injEq, Json.object.injEq, Members.PutAny, eq_comm]
  | some value =>
    have hc : content decode (attachAny decode key (some value) body)
        = .ok (.object (Members.insert key value ms)) := by
      rw [attachAny, attach_of_object key value h]
      rfl
    rw [hc, Except.ok.injEq, Json.object.injEq, Members.PutAny, Members.put_iff]

theorem content_attachAny_of_not_object (key : String) (value? : Option Json) {v : Json}
    (h : content decode body = .ok v) (hv : ∀ ms, v ≠ .object ms) :
    content decode (attachAny decode key value? body) = .ok v := by
  cases value? with
  | none => exact h
  | some value =>
    rw [attachAny, attach_of_not_object key value h hv]
    rfl

theorem attachAny_of_unread (key : String) (value? : Option Json) {unread : Body}
    (h : content decode body = .error unread) : attachAny decode key value? body = body := by
  cases value? with
  | none => rfl
  | some value => rw [attachAny, attach_of_unread key value h, eq_of_content_eq_error h]

/-- Attaching leaves what was read, where something was. -/
theorem attachAny_eq_some_json {v : Json}
    (h : content decode (attachAny decode key (some value) body) = .ok v) :
    attachAny decode key (some value) body = some (.json v) := by
  cases hb : content decode body with
  | error unread =>
    rw [attachAny_of_unread key _ hb, hb] at h
    cases h
  | ok w =>
    by_cases hw : ∃ ms, w = .object ms
    · obtain ⟨ms, rfl⟩ := hw
      rw [attachAny, attach_of_object key value hb] at h ⊢
      cases h
      rfl
    · rw [attachAny, attach_of_not_object key value hb (not_exists.1 hw)] at h ⊢
      cases h
      rfl

/-! ## Two attachments -/

/-- What is sent in place of a body when metadata and diagnostics are to be attached. If neither is,
it is the body. If the body reads as an object, they are put into it, the metadata first. If it
reads as anything else, that is sent, and if it cannot be read, the body. -/
def Dressed (decode : Json.Decoder) (metadata? debug? : Option Json) (body body' : Option Body) :
    Prop :=
  if metadata?.isNone && debug?.isNone then body' = body
  else
    match content decode body with
    | .ok (.object ms) => ∃ ms₁ ms₂, Members.PutAny "metadata" metadata? ms ms₁ ∧
        Members.PutAny "debug" debug? ms₁ ms₂ ∧ body' = some (.json (.object ms₂))
    | .ok v => body' = some (.json v)
    | .error _ => body' = body

variable {metadata? debug? : Option Json} {body' : Option Body}

/-- The body with both attached, as far as there are any. -/
def attachBoth (decode : Json.Decoder) (metadata? debug? : Option Json) (body : Option Body) :
    Option Body :=
  attachAny decode "debug" debug? (attachAny decode "metadata" metadata? body)

theorem attachBoth_eq_some_json {v : Json} (hasked : ¬(metadata?.isNone && debug?.isNone) = true)
    (h : content decode (attachBoth decode metadata? debug? body) = .ok v) :
    attachBoth decode metadata? debug? body = some (.json v) := by
  unfold attachBoth at h ⊢
  cases debug? with
  | some debug => exact attachAny_eq_some_json h
  | none =>
    cases metadata? with
    | none => exact absurd rfl hasked
    | some metadata => exact attachAny_eq_some_json h

theorem dressed_iff :
    Dressed decode metadata? debug? body body' ↔
      attachBoth decode metadata? debug? body = body' := by
  unfold Dressed
  split
  · next hnone =>
    rw [Bool.and_eq_true, Option.isNone_iff_eq_none, Option.isNone_iff_eq_none] at hnone
    rw [hnone.1, hnone.2]
    exact eq_comm
  · next hasked =>
    split
    · next ms hb =>
      have hboth : ∀ {ms₁ ms₂}, Members.PutAny "metadata" metadata? ms ms₁ →
          Members.PutAny "debug" debug? ms₁ ms₂ →
          attachBoth decode metadata? debug? body = some (.json (.object ms₂)) := by
        intro ms₁ ms₂ h₁ h₂
        have hc := (content_attachAny_of_object "metadata" metadata? hb).2 h₁
        exact attachBoth_eq_some_json hasked ((content_attachAny_of_object "debug" debug? hc).2 h₂)
      constructor
      · rintro ⟨ms₁, ms₂, h₁, h₂, rfl⟩
        exact hboth h₁ h₂
      · rintro rfl
        obtain ⟨ms₁, h₁⟩ := Members.exists_putAny "metadata" metadata? ms
        obtain ⟨ms₂, h₂⟩ := Members.exists_putAny "debug" debug? ms₁
        exact ⟨ms₁, ms₂, h₁, h₂, hboth h₁ h₂⟩
    · next v hv hb =>
      have hc := content_attachAny_of_not_object "metadata" metadata? hb (fun ms he => hv ms he)
      have hc := content_attachAny_of_not_object "debug" debug? hc (fun ms he => hv ms he)
      rw [attachBoth_eq_some_json hasked hc]
      exact eq_comm
    · next unread hb =>
      have hm := attachAny_of_unread "metadata" metadata? hb
      rw [attachBoth, hm, attachAny_of_unread "debug" debug? hb]
      exact eq_comm

/-- A body that is no object is sent as the value that was read, if one was. -/
theorem Dressed.of_not_object (hasked : ¬(metadata?.isNone && debug?.isNone) = true)
    (hne : ∀ ms, content decode body ≠ .ok (.object ms))
    (h : Dressed decode metadata? debug? body body') :
    body' = match content decode body with
      | .ok v => some (.json v)
      | .error _ => body := by
  unfold Dressed at h
  rw [if_neg hasked] at h
  cases hc : content decode body with
  | error unread =>
    rw [hc] at h
    exact h
  | ok v =>
    cases v with
    | object ms => exact absurd hc (hne ms)
    | null | bool b | number n | string s | array vs =>
      rw [hc] at h
      exact h

end Body

/-! ## What a request selects -/

theorem Request.selector?_eq_none_iff {request : Request} : request.selector? = none ↔
    ∀ fields, request.fields = some fields → Text.trimmed fields = "" := by
  simp [selector?, Option.filter_eq_none_iff]

theorem Request.selector?_eq_some_iff {request : Request} {selector : String} :
    request.selector? = some selector ↔
      ∃ fields, request.fields = some fields ∧ Text.trimmed fields = selector ∧ selector ≠ "" := by
  simp [selector?, Option.filter_eq_some_iff, ← and_assoc]

/-! ## Answers -/

namespace Renderer

variable {r : Renderer} {target : Graph} {request : Request} {default : Option Body}

/-- The body of an answer without attachments, and what was noted for it: the projection, if the
request names fields, otherwise the body given. -/
inductive Starts (r : Renderer) (target : Graph) (request : Request) (default : Option Body) :
    Option Body → Diagnostics → Prop
  | given (h : ∀ fields, request.fields = some fields → Text.trimmed fields = "") :
      Starts r target request default default []
  | projection {fields : String} {p : Projection} {ds : Diagnostics}
      (h : request.fields = some fields) (hblank : Text.trimmed fields ≠ "")
      (hrun : (Projector.projectSelector r.config target (Text.trimmed fields) r.permissions).run []
        = (.ok p, ds)) :
      Starts r target request default (some (.json p.toJson)) ds

theorem projected_eq_ok_iff {body : Option Body} {ds : Diagnostics} :
    r.projected target request default = .ok ⟨body, ds⟩ ↔
      Starts r target request default body ds := by
  unfold projected
  constructor
  · intro h
    split at h
    · next hs =>
      cases h
      exact .given (Request.selector?_eq_none_iff.1 hs)
    · next selector hs =>
      obtain ⟨fields, hf, rfl, hblank⟩ := Request.selector?_eq_some_iff.1 hs
      split at h
      · next hrun =>
        cases h
        exact .projection hf hblank hrun
      · cases h
  · intro h
    cases h with
    | given h => rw [Request.selector?_eq_none_iff.2 h]
    | projection h hblank hrun =>
      rw [Request.selector?_eq_some_iff.2 ⟨_, h, rfl, hblank⟩]
      simp only [hrun]

/-- The metadata to attach, if the request asks for it. -/
def metadata? (r : Renderer) (target : Graph) (request : Request) : Option Json :=
  if request.metadata then some (Metadata.describe target r.permissions).toJson else none

/-- The diagnostics to attach: those that the level admits, unless it is none. -/
def debug? (level : DebugLevel) (ds : Diagnostics) : Option Json :=
  if level = .none then none
  else some (.array ((Diagnostics.filtered level ds).map Diagnostic.toJson))

/-- The warnings on a body: one, if metadata is asked for and the body is not an object. -/
def warnings (decode : Json.Decoder) (request : Request) (body : Option Body) : Diagnostics :=
  if request.metadata then
    match Body.content decode body with
    | .ok (.object _) => []
    | .ok _ => [⟨.metadataForNonObjectBody,
        "Metadata was requested but the response body is not a JSON object"⟩]
    | .error _ => [⟨.metadataForNonJsonBody,
        "Metadata was requested but the response body is not JSON"⟩]
  else []

/-- The answer with metadata, if it is asked for. -/
theorem withMetadata_eq (answer : Rendered) :
    (if request.metadata then r.withMetadata decode target answer else answer) =
      ⟨Body.attachAny decode "metadata" (r.metadata? target request) answer.body,
        answer.diagnostics ++ warnings decode request answer.body⟩ := by
  unfold metadata? warnings
  split
  · split
    · next ms hc =>
      simp only [withMetadata, Body.attachAny, Body.attach_of_object _ _ hc]
      rfl
    · next v hv hc =>
      have hne : ∀ ms, v ≠ .object ms := fun ms he => hv ms he
      simp only [withMetadata, Body.attachAny, Body.attach_of_not_object _ _ hc hne]
      rfl
    · next unread hc =>
      simp only [withMetadata, Body.attachAny, Body.attach_of_unread _ _ hc]
      rfl
  · rw [List.append_nil]
    rfl

/-- The answer with diagnostics, if they are asked for. -/
theorem withDebug_eq (level : DebugLevel) (answer : Rendered) :
    (if level = .none then answer else withDebug decode level answer) =
      ⟨Body.attachAny decode "debug" (debug? level answer.diagnostics) answer.body,
        answer.diagnostics⟩ := by
  unfold debug?
  split <;> rfl

/-- What is projected is dressed and sent. -/
theorem exists_render_of_projected {body : Option Body} {ds : Diagnostics}
    (h : r.projected target request default = .ok ⟨body, ds⟩) :
    ∃ answer, r.render decode target request default = .ok answer ∧
      answer.diagnostics = ds ++ warnings decode request body ∧
      Body.Dressed decode (r.metadata? target request) (debug? request.debug answer.diagnostics)
        body answer.body := by
  refine ⟨_, bind_eq_ok_iff.2 ⟨_, h, rfl⟩, ?_⟩
  simp only [withMetadata_eq, withDebug_eq]
  exact ⟨trivial, Body.dressed_iff.2 rfl⟩

theorem render_eq_error {e : Error} (h : r.projected target request default = .error e) :
    r.render decode target request default = .error e :=
  bind_eq_error_iff.2 (.inl h)

end Renderer

end Facet
