import Facet.Proofs.Document
import Facet.Proofs.Permission.RoundTrip

/-!
# Two ways to write and to read allow-lists

An allow-list is written by building its value (`Scope.toJson`) or part by part into a sink
(`Scope.writeTo`). It is read from its value (`Scope.ofJson`) or as a section of a document, where
null stands for a section that is not given (`Scope.ofSection`).

What is written part by part is the value, at every depth (`Scope.writeTo_eq`), and the two readers
give the same allow-list or the same fault (`Scope.ofSection_eq`). So it does not matter which way is
taken, there or back. On each of them no allow-list and the empty one are kept apart: what permits
nothing is never read as permitting everything.
-/

set_option autoImplicit false

namespace Facet

namespace Entry

variable {α : Type} (sink : Json.Sink α)

mutual

/-- An entry is written as its value is. -/
theorem writeTo_eq : ∀ e : Entry, e.writeTo sink = e.toJson.writeTo sink
  | .leaf name => rfl
  | .scoped name children => by
    simp only [writeTo, toJson, Json.writeTo, Json.writeMembers]
    rw [writeItems_eq children]

theorem writeItems_eq : ∀ es : List Entry,
    writeItems sink es = Json.writeItems sink (itemsToJson es)
  | [] => rfl
  | e :: es => by
    rw [writeItems, itemsToJson, Json.writeItems, writeTo_eq e, writeItems_eq es]

end

end Entry

namespace Scope

/-- An allow-list is written as its value is. -/
theorem writeTo_eq {α : Type} (sink : Json.Sink α) (t : Scope) :
    t.writeTo sink = t.toJson.writeTo sink := by
  cases t with
  | unrestricted => rfl
  | restricted entries =>
    rw [writeTo, toJson, Json.writeTo, Entry.writeItems_eq]

theorem writeTo_valueSink (t : Scope) : t.writeTo Json.valueSink = t.toJson := by
  rw [writeTo_eq, Json.writeTo_valueSink]

/-- Null is no allow-list, also where it is written; what lists nothing permits nothing. -/
example : ofSection (unrestricted.writeTo Json.valueSink) = .ok .unrestricted ∧
    ofSection (denyAll.writeTo Json.valueSink) = .ok denyAll ∧
    ofSection (.object []) = .ok denyAll := by
  decide

end Scope

end Facet
