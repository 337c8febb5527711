import Facet.Json.Reader
import Facet.Proofs.Rendering
import Facet.Proofs.Selector.Offsets

/-!
# Answers to requests that name fields

The text of the fields is trimmed before it is read. That makes no difference to what is projected,
nor to what is wrong with a text that is no selector; but the position of a fault is counted in the
trimmed text. So it is the position in the text as sent exactly if there are no blanks in front and
the fault is not behind those at the end (`render_fields`, `not_always_located`).
-/

set_option autoImplicit false

namespace Facet.Renderer

open Text (byteLength trim trimStart)

variable {r : Renderer} {decode : Json.Decoder} {target : Graph} {request : Request}
  {default : Option Body} {text : String}

/-- The outcome is that of projecting the target through the nodes: its error if it fails, and
otherwise an answer that starts from the projection. -/
def Projects (r : Renderer) (decode : Json.Decoder) (target : Graph) (request : Request)
    (nodes : List Selector.Node) (outcome : Except Error Rendered) : Prop :=
  match (Projector.project r.config target nodes r.permissions).run [] with
  | (.ok p, ds) => ∃ answer, outcome = .ok answer ∧
      answer.diagnostics = ds ++ warnings decode request (some (.json p.toJson)) ∧
      Body.Dressed decode (r.metadata? target request) (debug? request.debug answer.diagnostics)
        (some (.json p.toJson)) answer.body
  | (.error e, _) => outcome = .error e

theorem projected_eq_error {e : Error} {ds : Diagnostics} (hfields : request.fields = some text)
    (hblank : Text.trimmed text ≠ "")
    (hrun : (Projector.projectSelector r.config target (Text.trimmed text) r.permissions).run [] =
      (.error e, ds)) : r.projected target request default = .error e := by
  unfold projected
  rw [Request.selector?_eq_some_iff.2 ⟨text, hfields, rfl, hblank⟩]
  simp only [hrun]

theorem projects_of_parse {nodes : List Selector.Node} (hfields : request.fields = some text)
    (hblank : Text.trimmed text ≠ "") (h : Selector.parse text = .ok nodes) :
    r.Projects decode target request nodes (r.render decode target request default) := by
  have hrun : Projector.projectSelector r.config target (Text.trimmed text) r.permissions =
      Projector.project r.config target nodes r.permissions := by
    simp only [Projector.projectSelector, Selector.parse_trimmed, h, mapError_ok]
  unfold Projects
  split
  · next p ds hp =>
    rw [← hrun] at hp
    exact exists_render_of_projected (projected_eq_ok_iff.2 (.projection hfields hblank hp))
  · next e ds he =>
    rw [← hrun] at he
    exact render_eq_error (projected_eq_error hfields hblank he)

theorem render_of_parse_error {fault : Selector.Fault} (hfields : request.fields = some text)
    (hblank : Text.trimmed text ≠ "") (h : Selector.parse text = .error fault) :
    r.render decode target request default = .error (.selector (fault.inTrimmed text.toList)) := by
  have hrun : Projector.projectSelector r.config target (Text.trimmed text) r.permissions =
      throw (.selector (fault.inTrimmed text.toList)) := by
    simp only [Projector.projectSelector, Selector.parse_trimmed, h, mapError_error]
  exact render_eq_error (projected_eq_error hfields hblank (congrArg (·.run []) hrun))

/-- **Requests that name fields.** If the text of the fields is a selector, the target is projected
through its nodes. If it is not, what is wrong with it is reported, at the position counted in the
trimmed text; that is the position in the text exactly if the text starts with no blank and the fault
is not behind the blanks at its end. -/
theorem render_fields (r : Renderer) (decode : Json.Decoder) (target : Graph) (default : Option Body)
    (hfields : request.fields = some text) (hblank : Text.trimmed text ≠ "") :
    (∀ nodes, Selector.parse text = .ok nodes →
      r.Projects decode target request nodes (r.render decode target request default)) ∧
    ∀ fault, Selector.parse text = .error fault →
      r.render decode target request default = .error (.selector (fault.inTrimmed text.toList)) ∧
      (r.render decode target request default = .error (.selector fault) ↔
        trimStart text.toList = text.toList ∧ fault.position ≤ byteLength (trim text.toList)) := by
  refine ⟨fun nodes h => projects_of_parse hfields hblank h, fun fault h => ?_⟩
  have hrender : r.render decode target request default = _ := render_of_parse_error hfields hblank h
  refine ⟨hrender, ?_⟩
  rw [hrender, ← Selector.inTrimmed_eq_self_iff h, Except.error.injEq, Error.selector.injEq]

/-- A name with a blank in it, between a wide blank and another. -/
def padded : String := "\u2003a b "

theorem parse_padded :
    Selector.parse padded = .error ⟨3, .invalidCharacter ' ' ['a', ' ', 'b']⟩ := by
  decide +kernel

/-- The fault behind the wide blank is reported at the start. -/
theorem render_fields_padded : Text.trimmed padded ≠ "" ∧
    render ⟨.default, .unrestricted⟩ Json.ofBytes? (.scalar .null) ⟨some padded, false, .none⟩ none =
      .error (.selector ⟨0, .invalidCharacter ' ' ['a', ' ', 'b']⟩) := by
  have hblank : Text.trimmed padded ≠ "" := by decide +kernel
  refine ⟨hblank, ?_⟩
  exact ((render_fields ⟨.default, .unrestricted⟩ Json.ofBytes? (.scalar .null) none rfl hblank).2 _
    parse_padded).1

/-- **Faults are not always reported where they are in the text of the fields**, whatever the decoder:
blanks in front of them are not counted. -/
theorem not_always_located : ¬∃ decode : Json.Decoder, ∀ (r : Renderer) (target : Graph)
    (request : Request) (default : Option Body) (text : String) (fault : Selector.Fault),
    request.fields = some text → Text.trimmed text ≠ "" → Selector.parse text = .error fault →
    r.render decode target request default = .error (.selector fault) := by
  rintro ⟨decode, h⟩
  have hblank : Text.trimmed padded ≠ "" := by decide +kernel
  have hlocated := h ⟨.default, .unrestricted⟩ (.scalar .null) ⟨some padded, false, .none⟩ none
    padded _ rfl hblank parse_padded
  rw [render_of_parse_error rfl hblank parse_padded, Except.error.injEq, Error.selector.injEq,
    Selector.inTrimmed_eq_self_iff parse_padded] at hlocated
  exact absurd hlocated.1 (by decide +kernel)

end Facet.Renderer
