import Facet.Json.Reader
import Facet.Proofs.Rendering

/-!
# Bodies that nothing is attached to

Where a request names no fields, the answer starts from the body given. Nothing is attached to that
body if nothing is asked for, or if it is no object (`Request.Unattached`). It is then sent as given,
but for one kind of body: bytes that hold a JSON value are read for the attachment, and it is the
value that is sent in their place (`render_unattached`, `not_always_as_given`).
-/

set_option autoImplicit false

namespace Facet

variable {decode : Json.Decoder} {request : Request} {body body' : Option Body} {v : Json}

/-- The request asks neither for metadata nor for diagnostics. -/
def Request.AsksNothing (request : Request) : Prop :=
  request.metadata = false ∧ request.debug = .none

/-- Nothing is attached to the body: nothing is asked for, or the body is no object. -/
def Request.Unattached (request : Request) (decode : Json.Decoder) (body : Option Body) : Prop :=
  request.AsksNothing ∨ ∀ ms, Body.content decode body ≠ .ok (.object ms)

namespace Body

/-- The body is bytes, and they hold the value. -/
def Holds (decode : Json.Decoder) (body : Option Body) (v : Json) : Prop :=
  ∃ contentType bytes, body = some (.raw contentType bytes) ∧
    (Body.raw contentType bytes).read decode = .ok v

/-! ## Reading a body and sending what was read -/

/-- The value that was read is the body itself, unless it was read from bytes. -/
theorem eq_json_iff_not_holds (hne : ∀ ms, content decode body ≠ .ok (.object ms))
    (hc : content decode body = .ok v) : some (.json v) = body ↔ ∀ w, ¬Holds decode body w := by
  rcases body with _ | ⟨w⟩ | ⟨contentType, bytes⟩
  · exact absurd rfl (hne [])
  · obtain rfl := Except.ok.inj hc
    refine iff_of_true rfl fun w hw => ?_
    obtain ⟨_, _, he, -⟩ := hw
    cases he
  · refine iff_of_false (by simp) fun hnot => ?_
    exact hnot v ⟨contentType, bytes, rfl, hc⟩

theorem not_holds_of_content_eq_error {unread : Body} (hc : content decode body = .error unread) :
    ¬Holds decode body v := by
  rintro ⟨contentType, bytes, rfl, hread⟩
  rw [content, hread] at hc
  cases hc

theorem Holds.content (h : Holds decode body v) : content decode body = .ok v := by
  obtain ⟨contentType, bytes, rfl, hread⟩ := h
  exact hread

end Body

/-! ## Answers -/

namespace Renderer

variable {r : Renderer} {target : Graph} {default : Option Body}

theorem asksNothing_iff (ds : Diagnostics) :
    ((r.metadata? target request).isNone && (debug? request.debug ds).isNone) = true ↔
      request.AsksNothing := by
  rw [Bool.and_eq_true, Request.AsksNothing, metadata?, debug?]
  refine and_congr ?_ ?_
  · cases request.metadata <;> simp
  · by_cases h : request.debug = .none <;> simp [h]

/-- A request that names no fields is answered with the body given, dressed. -/
theorem exists_render_of_blank (r : Renderer) (decode : Json.Decoder) (target : Graph)
    (default : Option Body)
    (hblank : ∀ fields, request.fields = some fields → Text.trimmed fields = "") :
    ∃ answer, r.render decode target request default = .ok answer ∧
      Body.Dressed decode (r.metadata? target request) (debug? request.debug answer.diagnostics)
        default answer.body := by
  have hp : r.projected target request default = .ok ⟨default, []⟩ :=
    projected_eq_ok_iff.2 (.given hblank)
  obtain ⟨answer, hanswer, -, hdressed⟩ := exists_render_of_projected hp
  exact ⟨answer, hanswer, hdressed⟩

/-- **A body that nothing is attached to.** A request that names no fields is answered, and if
nothing is attached to the body given, that is the body of the answer exactly if nothing is asked for
or the body is not bytes that hold a value. In place of such bytes the value is sent. -/
theorem render_unattached (r : Renderer) (decode : Json.Decoder) (target : Graph)
    (hblank : ∀ fields, request.fields = some fields → Text.trimmed fields = "")
    (h : request.Unattached decode default) :
    ∃ answer, r.render decode target request default = .ok answer ∧
      (answer.body = default ↔ request.AsksNothing ∨ ∀ v, ¬Body.Holds decode default v) ∧
      ∀ v, ¬request.AsksNothing → Body.Holds decode default v → answer.body = some (.json v) := by
  obtain ⟨answer, hanswer, hdressed⟩ := exists_render_of_blank r decode target default hblank
  refine ⟨answer, hanswer, ?_⟩
  by_cases hnothing : request.AsksNothing
  · have hbody : answer.body = default := by
      unfold Body.Dressed at hdressed
      rwa [if_pos ((asksNothing_iff answer.diagnostics).2 hnothing)] at hdressed
    exact ⟨iff_of_true hbody (.inl hnothing), fun _ hasked => absurd hnothing hasked⟩
  · have hne := h.resolve_left hnothing
    have hbody := hdressed.of_not_object (mt (asksNothing_iff answer.diagnostics).1 hnothing) hne
    rw [hbody, or_iff_right hnothing]
    constructor
    · cases hc : Body.content decode default with
      | ok v => exact Body.eq_json_iff_not_holds hne hc
      | error unread => exact iff_of_true rfl fun v => Body.not_holds_of_content_eq_error hc
    · intro v _ hv
      rw [hv.content]

/-- Bytes of a JSON type. -/
def listing : Body := .raw "application/json" "[1, 2]".toUTF8

theorem inRange_one : Json.inRange 1 = true := rfl

theorem inRange_two : Json.inRange 2 = true := rfl

/-- The array that they hold. -/
def listed : Json := .array [.number (.integer 1 inRange_one), .number (.integer 2 inRange_two)]

def askMetadata : Request := ⟨none, true, .none⟩

theorem not_asksNothing_askMetadata : ¬askMetadata.AsksNothing := fun h => nomatch h.1

theorem unattached_listing (h : Body.Holds decode (some listing) listed) :
    askMetadata.Unattached decode (some listing) := by
  refine .inr fun ms => ?_
  rw [h.content]
  exact nofun

theorem holds_listing : Body.Holds Json.ofBytes? (some listing) listed :=
  ⟨_, _, rfl, Body.read_raw (by decide +kernel) (by decide +kernel)⟩

/-- The array is sent without the bytes that it was given in, since metadata is asked for. -/
theorem render_unattached_listing :
    (∀ fields, askMetadata.fields = some fields → Text.trimmed fields = "") ∧
    askMetadata.Unattached Json.ofBytes? (some listing) ∧
    ∃ answer, render ⟨.default, .unrestricted⟩ Json.ofBytes? (.scalar .null) askMetadata
        (some listing) = .ok answer ∧ answer.body = some (.json listed) := by
  have hblank : ∀ fields, askMetadata.fields = some fields → Text.trimmed fields = "" := nofun
  have hunattached := unattached_listing holds_listing
  refine ⟨hblank, hunattached, ?_⟩
  obtain ⟨answer, hanswer, -, hbody⟩ :=
    render_unattached ⟨.default, .unrestricted⟩ Json.ofBytes? (.scalar .null) hblank hunattached
  exact ⟨answer, hanswer, hbody _ not_asksNothing_askMetadata holds_listing⟩

/-- **A body that nothing is attached to is not always sent as given**: whatever decoder reads the
listing, it is not its bytes that are sent when metadata is asked for. -/
theorem not_always_as_given :
    ¬∃ decode : Json.Decoder, Body.Holds decode (some listing) listed ∧
      ∀ (r : Renderer) (target : Graph) (request : Request) (default : Option Body)
        (answer : Rendered),
        (∀ fields, request.fields = some fields → Text.trimmed fields = "") →
        request.Unattached decode default → r.render decode target request default = .ok answer →
        answer.body = default := by
  rintro ⟨decode, hholds, h⟩
  have hblank : ∀ fields, askMetadata.fields = some fields → Text.trimmed fields = "" := nofun
  have hunattached := unattached_listing hholds
  obtain ⟨answer, hanswer, hdressed⟩ :=
    exists_render_of_blank ⟨.default, .unrestricted⟩ decode (.scalar .null) (some listing) hblank
  have hbody := hdressed.of_not_object
    (mt (asksNothing_iff answer.diagnostics).1 not_asksNothing_askMetadata)
    (hunattached.resolve_left not_asksNothing_askMetadata)
  rw [h _ _ _ _ _ hblank hunattached hanswer, hholds.content] at hbody
  cases hbody

end Renderer

end Facet
