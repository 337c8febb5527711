import Facet.Projection.Leaf
import Facet.Proofs.Members
import Mathlib.Data.List.Basic

/-!
# Plain values and their JSON form

The members of a plain object are its declared fields that have values (`mem_leaf_object`), each
once and in the order of declaration (`declaredMembers_keys`). Elements and members are written one
by one.
-/

set_option autoImplicit false

namespace Facet.Projection

/-! ## Plain values -/

theorem leafItems_eq (gs : List Graph) : leafItems gs = gs.map leaf := by
  induction gs with
  | nil => rfl
  | cons g gs ih => rw [leafItems, ih, List.map_cons]

theorem leafMembers_eq (ms : List (String × Graph)) :
    leafMembers ms = ms.map fun m => (m.1, leaf m.2) := by
  induction ms with
  | nil => rfl
  | cons m ms ih => rw [leafMembers, ih, List.map_cons]

/-- A plain object has the declared fields that it has values for. -/
theorem mem_declaredMembers {fields : List String} {ms : Members Projection} {k : String}
    {p : Projection} :
    (k, p) ∈ declaredMembers fields ms ↔ k ∈ fields ∧ ms.get? k = some p := by
  have hmem : ∀ q, (k, q) ∈ fields.filterMap (fun f => (ms.get? f).map (f, ·)) ↔
      k ∈ fields ∧ ms.get? k = some q := by
    intro q
    simp only [List.mem_filterMap, Option.map_eq_some_iff, Prod.mk.injEq]
    refine ⟨fun h => ?_, fun h => ?_⟩
    · obtain ⟨f, hf, r, hr, rfl, rfl⟩ := h
      exact ⟨hf, hr⟩
    · obtain ⟨hf, hq⟩ := h
      exact ⟨k, hf, q, hq, rfl, rfl⟩
  rw [declaredMembers, Members.mem_ofPairs, hmem]
  intro w hw w' hw'
  rw [hmem] at hw hw'
  exact Option.some.inj (hw.2.symm.trans hw'.2)

/-- A plain object that declares what it has values for is made of these, in their order. -/
theorem declaredMembers_keys {shown ms : Members Projection} (hkeys : shown.keys.Nodup)
    (h : ∀ m ∈ shown, ms.get? m.1 = some m.2) : declaredMembers shown.keys ms = shown := by
  have hpairs : shown.keys.filterMap (fun f => (ms.get? f).map (f, ·)) = shown.map id := by
    rw [Members.keys, List.filterMap_map, List.filterMap_eq_map_iff_forall_eq_some]
    intro m hm
    rw [Function.comp_apply, h m hm]
    rfl
  rw [declaredMembers, hpairs, List.map_id, Members.ofPairs_eq_self hkeys]

theorem mem_leaf_object {o : Object Graph} {k : String} {p : Projection} :
    (k, p) ∈ declaredMembers o.schema.fields (leafMembers o.attributes) ↔
      k ∈ o.schema.fields ∧ ∃ v, o.attribute? k = some v ∧ leaf v = p := by
  rw [mem_declaredMembers, leafMembers_eq, Members.get?_map, Option.map_eq_some_iff]
  rfl

theorem nodup_keys_declaredMembers (fields : List String) (ms : Members Projection) :
    (Members.keys (declaredMembers fields ms)).Nodup := Members.nodup_keys_ofPairs _

/-! ## JSON forms -/

theorem itemsToJson_eq (ps : List Projection) : itemsToJson ps = ps.map toJson := by
  induction ps with
  | nil => rfl
  | cons p ps ih => rw [itemsToJson, ih, List.map_cons]

theorem membersToJson_eq (ms : Members Projection) :
    membersToJson ms = ms.map fun m => (m.1, m.2.toJson) := by
  induction ms with
  | nil => rfl
  | cons m ms ih => rw [membersToJson, ih, List.map_cons]

theorem keys_membersToJson (ms : Members Projection) :
    Members.keys (membersToJson ms) = Members.keys ms := by
  rw [membersToJson_eq, Members.keys_map]

end Facet.Projection
