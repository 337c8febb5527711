import Facet.Graph.OfJson
import Facet.Json.Sink
import Facet.Proofs.Members

/-!
# Documents

Induction on JSON values (`Json.induction`), and what a document answers as a graph: an attribute of
an object is the graph of the member (`attribute?_ofMembers`), and a value without parts is a scalar
that is written as it was (`exists_scalar`). The sink of values gives back what is written into it
(`Json.writeTo_valueSink`).
-/

set_option autoImplicit false

namespace Facet

/-! ## Induction -/

namespace Json

/-- What holds of plain values, of arrays if it holds of the elements and of objects if it holds of
the values of members, holds of all values. -/
@[elab_as_elim]
theorem induction {P : Json → Prop} (plain : ∀ v, v.isPlain = true → P v)
    (array : ∀ vs, (∀ v ∈ vs, P v) → P (.array vs))
    (object : ∀ ms, (∀ k v, (k, v) ∈ ms → P v) → P (.object ms)) : ∀ v, P v
  | .null | .bool _ | .number _ | .string _ => plain _ rfl
  | .array vs => array vs fun v _ => induction plain array object v
  | .object ms => object ms fun _ v _ => induction plain array object v
termination_by v => sizeOf v
decreasing_by
  · have := List.sizeOf_lt_of_mem ‹v ∈ vs›
    simp only [Json.array.sizeOf_spec]
    omega
  · next hm =>
    have := List.sizeOf_lt_of_mem hm
    simp only [Json.object.sizeOf_spec, Prod.mk.sizeOf_spec] at this ⊢
    omega

/-! ## The sink of values -/

mutual

theorem writeTo_valueSink : ∀ v : Json, v.writeTo valueSink = v
  | .null | .bool _ | .number _ | .string _ => rfl
  | .array vs => by
    rw [writeTo, writeItems_valueSink vs]
    rfl
  | .object ms => by
    rw [writeTo, writeMembers_valueSink ms]
    rfl

theorem writeItems_valueSink : ∀ vs : List Json, writeItems valueSink vs = vs
  | [] => rfl
  | v :: vs => by rw [writeItems, writeTo_valueSink v, writeItems_valueSink vs]

theorem writeMembers_valueSink : ∀ ms : List (String × Json), writeMembers valueSink ms = ms
  | [] => rfl
  | (k, v) :: ms => by rw [writeMembers, writeTo_valueSink v, writeMembers_valueSink ms]

end

end Json

/-! ## Scalars -/

namespace Scalar

theorem toJson_ofInt (n : Int) (h : Json.inRange n = true) :
    (ofInt n).toJson = .number (.integer n h) := by
  have hr : -0x8000000000000000 ≤ n ∧ n ≤ 0xFFFFFFFFFFFFFFFF := by simpa [Json.inRange] using h
  unfold ofInt
  split
  · next hn =>
    have hi : (Int64.ofInt n).toInt = n := Int64.toInt_ofInt_of_le (by omega) (by omega)
    simp only [toJson, hi]
  · next hn =>
    have hu : ((UInt64.ofNat n.toNat).toNat : Int) = n := by
      rw [UInt64.toNat_ofNat_of_lt' (by simp only [UInt64.size]; omega)]
      omega
    simp only [toJson, hu]

/-- A value that becomes a scalar is written as it was: numbers are neither rounded nor changed in
kind. -/
theorem toJson_of_ofJson? {v : Json} {s : Scalar} (h : ofJson? v = some s) : s.toJson = v := by
  cases v with
  | null | bool b | string t => cases h; rfl
  | number n =>
    cases n with
    | integer n hn => cases h; exact toJson_ofInt n hn
    | float x hx => cases h; exact dif_pos hx
  | array vs | object ms => cases h

end Scalar

/-! ## Graphs of documents -/

/-- The object of a document with these members. -/
def Object.ofMembers (ms : Members Json) : Object Graph :=
  ⟨"object", Schema.ofMembers ms, Graph.ofMembers ms⟩

namespace Graph

theorem ofJson_object (ms : Members Json) :
    ofJson (.object ms) = .object (Object.ofMembers ms) := rfl

theorem ofItems_eq (vs : List Json) : ofItems vs = vs.map ofJson := by
  induction vs with
  | nil => rfl
  | cons v vs ih => rw [ofItems, ih, List.map_cons]

theorem ofMembers_eq (ms : Members Json) : ofMembers ms = ms.map fun m => (m.1, ofJson m.2) := by
  induction ms with
  | nil => rfl
  | cons m ms ih => rw [ofMembers, ih, List.map_cons]

@[simp] theorem attribute?_ofMembers (ms : Members Json) (k : String) :
    (Object.ofMembers ms).attribute? k = (Members.get? k ms).map ofJson := by
  rw [Object.attribute?, Object.ofMembers, ofMembers_eq, Members.get?_map]

theorem attribute?_ofMembers_eq_some_iff {ms : Members Json} {k : String} {g : Graph} :
    (Object.ofMembers ms).attribute? k = some g ↔ ∃ v, Members.get? k ms = some v ∧ ofJson v = g := by
  rw [attribute?_ofMembers, Option.map_eq_some_iff]

theorem ofJson_array (vs : List Json) : ofJson (.array vs) = plainSequence (vs.map ofJson) := by
  rw [ofJson, ofItems_eq]

theorem exists_scalar {v : Json} (h : v.isPlain = true) :
    ∃ s, ofJson v = .scalar s ∧ s.toJson = v := by
  cases v with
  | null | bool b | string t => exact ⟨_, rfl, rfl⟩
  | number n =>
    obtain ⟨s, hs⟩ : ∃ s, Scalar.ofJson? (.number n) = some s := by cases n <;> exact ⟨_, rfl⟩
    refine ⟨s, ?_, Scalar.toJson_of_ofJson? hs⟩
    simp [ofJson, hs]
  | array vs | object ms => cases h

end Graph

end Facet
