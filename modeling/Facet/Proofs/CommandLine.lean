import Facet.CommandLine.Command
import Facet.Proofs.Rendering

/-!
# What a projection prints

On the command line the document is both what fields are selected of and what is sent where none are.
So an answer starts from a JSON body (`Renderer.Starts.exists_json`), attaching to a JSON body leaves
one (`Body.Dressed.exists_json`), and what is printed is the body that was rendered: no null stands in
for a body that is missing or not JSON (`CommandLine.projected_eq_ok_iff`).

Where nothing is selected, the document itself is printed, with the members that were asked for if it
is an object. `Members.others` are the members that stay as they are.
-/

set_option autoImplicit false

namespace Facet

/-! ## Members of other keys -/

namespace Members

/-- The members whose keys are not among these, in order. -/
def others {α : Type} (keys : List String) (ms : Members α) : Members α :=
  ms.filter fun m => m.1 ∉ keys

variable {key : String} {keys : List String}

theorem Put.others_eq {α : Type} {value : α} {ms ms' : Members α} (h : Put key value ms ms')
    (hk : key ∈ keys) : others keys ms' = others keys ms := by
  cases h with
  | replaced before after old _ => simp [others, hk]
  | added _ _ => simp [others, hk]

theorem PutAny.others_eq {value? : Option Json} {ms ms' : Members Json}
    (h : PutAny key value? ms ms') (hk : key ∈ keys) : others keys ms' = others keys ms := by
  cases value? with
  | none => exact congrArg (others keys) h
  | some value => exact Put.others_eq h hk

end Members

/-! ## Bodies that are JSON -/

namespace Body

variable {decode : Json.Decoder} {metadata? debug? : Option Json} {v : Json} {ms : Members Json}
  {body : Option Body}

/-- An object has put into it what there is to attach. -/
theorem Dressed.exists_putAny (h : Dressed decode metadata? debug? (some (.json (.object ms))) body) :
    ∃ ms₁ ms₂, Members.PutAny "metadata" metadata? ms ms₁ ∧ Members.PutAny "debug" debug? ms₁ ms₂ ∧
      body = some (.json (.object ms₂)) := by
  unfold Dressed at h
  split at h
  · next hnone =>
    simp only [Bool.and_eq_true, Option.isNone_iff_eq_none] at hnone
    obtain ⟨rfl, rfl⟩ := hnone
    exact ⟨ms, ms, rfl, rfl, h⟩
  · exact h

/-- Any other value is left as it is. -/
theorem Dressed.eq_of_ne_object (hv : ∀ ms, v ≠ .object ms)
    (h : Dressed decode metadata? debug? (some (.json v)) body) : body = some (.json v) := by
  by_cases hnone : (metadata?.isNone && debug?.isNone) = true
  · unfold Dressed at h
    rwa [if_pos hnone] at h
  · have hne : ∀ ms, content decode (some (.json v)) ≠ .ok (.object ms) := by
      intro ms he
      exact hv ms (Except.ok.inj he)
    exact h.of_not_object hnone hne

/-- A JSON body is answered with a JSON body. -/
theorem Dressed.exists_json (h : Dressed decode metadata? debug? (some (.json v)) body) :
    ∃ w, body = some (.json w) := by
  by_cases hv : ∃ ms, v = .object ms
  · obtain ⟨ms, rfl⟩ := hv
    obtain ⟨_, ms₂, -, -, hbody⟩ := h.exists_putAny
    exact ⟨.object ms₂, hbody⟩
  · exact ⟨v, h.eq_of_ne_object (not_exists.1 hv)⟩

end Body

namespace Renderer

variable {r : Renderer} {decode : Json.Decoder} {target : Graph} {request : Request}
  {document : Json}

/-- Where the body given is JSON, so is the one without attachments. -/
theorem Starts.exists_json {body : Option Body} {ds : Diagnostics}
    (h : Starts r target request (some (.json document)) body ds) : ∃ v, body = some (.json v) := by
  cases h with
  | given => exact ⟨document, rfl⟩
  | @projection _ p _ _ _ _ => exact ⟨p.toJson, rfl⟩

/-- Where the body given is JSON, the answer is. -/
theorem exists_json_of_render {answer : Rendered}
    (h : r.render decode target request (some (.json document)) = .ok answer) :
    ∃ v, answer.body = some (.json v) := by
  obtain ⟨⟨body, ds⟩, hp, -⟩ := bind_eq_ok_iff.1 h
  obtain ⟨v, rfl⟩ := (projected_eq_ok_iff.1 hp).exists_json
  obtain ⟨answer', hanswer, -, hdressed⟩ := exists_render_of_projected hp
  rw [h] at hanswer
  cases hanswer
  exact hdressed.exists_json

/-- Metadata can be attached to an object. -/
theorem warnings_object (decode : Json.Decoder) (request : Request) (ms : Members Json) :
    warnings decode request (some (.json (.object ms))) = [] := by
  unfold warnings
  split <;> rfl

end Renderer

/-! ## What is printed -/

namespace CommandLine

variable {decode : Json.Decoder} {document v : Json} {request : Request} {config : ProjectorConfig}
  {permissions : Scope}

/-- What is printed is the body that was rendered. -/
theorem projected_eq_ok_iff : projected decode document request config permissions = .ok v ↔
    ∃ ds, Renderer.render ⟨config, permissions⟩ decode (Graph.ofJson document) request
      (some (.json document)) = .ok ⟨some (.json v), ds⟩ := by
  unfold projected
  rw [bind_eq_ok_iff]
  constructor
  · rintro ⟨⟨body, ds⟩, hanswer, h⟩
    obtain ⟨w, rfl⟩ := Renderer.exists_json_of_render hanswer
    cases h
    exact ⟨ds, hanswer⟩
  · rintro ⟨ds, hanswer⟩
    exact ⟨_, hanswer, rfl⟩

theorem projected_eq_error_iff {e : Error} :
    projected decode document request config permissions = .error e ↔
      Renderer.render ⟨config, permissions⟩ decode (Graph.ofJson document) request
        (some (.json document)) = .error e := by
  unfold projected
  rw [bind_eq_error_iff, or_iff_left_iff_imp]
  rintro ⟨answer, -, h⟩
  split at h <;> cases h

/-- Where nothing is selected, the document is dressed and printed. -/
theorem exists_projected_of_blank (decode : Json.Decoder) (document : Json)
    (config : ProjectorConfig) (permissions : Scope)
    (hblank : ∀ fields, request.fields = some fields → Text.trimmed fields = "") :
    ∃ v, projected decode document request config permissions = .ok v ∧
      Body.Dressed decode (Renderer.metadata? ⟨config, permissions⟩ (Graph.ofJson document) request)
        (Renderer.debug? request.debug (Renderer.warnings decode request (some (.json document))))
        (some (.json document)) (some (.json v)) := by
  have hp : Renderer.projected ⟨config, permissions⟩ (Graph.ofJson document) request
      (some (.json document)) = .ok ⟨some (.json document), []⟩ :=
    Renderer.projected_eq_ok_iff.2 (.given hblank)
  obtain ⟨⟨body, ds⟩, hanswer, hds, hdressed⟩ := Renderer.exists_render_of_projected hp
  obtain ⟨v, rfl⟩ := Renderer.exists_json_of_render hanswer
  obtain rfl : ds = Renderer.warnings decode request (some (.json document)) := hds
  exact ⟨v, projected_eq_ok_iff.2 ⟨_, hanswer⟩, hdressed⟩

/-- **Nothing that is rendered is lost in printing.** Where the request is answered, the body of the
answer is JSON and is what is printed; where it fails, nothing is. If it names no fields, the document
is printed: one that is no object as it is, an object with the metadata and with no diagnostics put
into it as far as they are asked for, and with all other members as they were. -/
theorem projected_printed (decode : Json.Decoder) (document : Json) (request : Request)
    (config : ProjectorConfig) (permissions : Scope) :
    (∀ answer, Renderer.render ⟨config, permissions⟩ decode (Graph.ofJson document) request
        (some (.json document)) = .ok answer →
      ∃ v, answer.body = some (.json v) ∧
        projected decode document request config permissions = .ok v) ∧
    (∀ e, Renderer.render ⟨config, permissions⟩ decode (Graph.ofJson document) request
        (some (.json document)) = .error e →
      projected decode document request config permissions = .error e) ∧
    ((∀ fields, request.fields = some fields → Text.trimmed fields = "") →
      (∀ ms, document = .object ms → ∃ ms₁ ms₂,
        Members.PutAny "metadata"
          (Renderer.metadata? ⟨config, permissions⟩ (Graph.ofJson document) request) ms ms₁ ∧
        Members.PutAny "debug" (Renderer.debug? request.debug []) ms₁ ms₂ ∧
        Members.others ["metadata", "debug"] ms₂ = Members.others ["metadata", "debug"] ms ∧
        projected decode document request config permissions = .ok (.object ms₂)) ∧
      ((∀ ms, document ≠ .object ms) →
        projected decode document request config permissions = .ok document)) := by
  refine ⟨fun answer hanswer => ?_, fun e h => projected_eq_error_iff.2 h, fun hblank => ?_⟩
  · obtain ⟨body, ds⟩ := answer
    obtain ⟨v, rfl⟩ := Renderer.exists_json_of_render hanswer
    exact ⟨v, rfl, projected_eq_ok_iff.2 ⟨ds, hanswer⟩⟩
  · obtain ⟨v, hv, hdressed⟩ := exists_projected_of_blank decode document config permissions hblank
    constructor
    · rintro ms rfl
      rw [Renderer.warnings_object] at hdressed
      obtain ⟨ms₁, ms₂, hmetadata, hdebug, hbody⟩ := hdressed.exists_putAny
      cases hbody
      refine ⟨ms₁, ms₂, hmetadata, hdebug, ?_, hv⟩
      rw [hdebug.others_eq (by simp), hmetadata.others_eq (by simp)]
    · intro hne
      cases hdressed.eq_of_ne_object hne
      exact hv

/-- A document with a member under one of the keys that attachments have. -/
def notice : Json := .object [("debug", .bool true), ("id", .string "7")]

/-- Names no fields, and asks for all that can be attached. -/
def askAround : Request := ⟨some "  ", true, .all⟩

/-- The member that is there keeps its place, the one that is not comes last. -/
theorem projected_printed_notice :
    (∀ fields, askAround.fields = some fields → Text.trimmed fields = "") ∧
    projected Json.ofBytes? notice askAround .default (.restricted [.leaf "id"]) =
      .ok (.object [("debug", .array []), ("id", .string "7"),
        ("metadata", .object [("fields", .array [.string "id"])])]) := by
  have hblank : ∀ fields, askAround.fields = some fields → Text.trimmed fields = "" := by
    intro fields h
    cases h
    decide
  obtain ⟨-, -, hprinted⟩ :=
    projected_printed Json.ofBytes? notice askAround .default (.restricted [.leaf "id"])
  obtain ⟨ms₁, ms₂, hmetadata, hdebug, -, hv⟩ := (hprinted hblank).1 _ rfl
  obtain rfl := Members.put_iff.1 hmetadata
  obtain rfl := Members.put_iff.1 hdebug
  exact ⟨hblank, hv⟩

end CommandLine

end Facet
