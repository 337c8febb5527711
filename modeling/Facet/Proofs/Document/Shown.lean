import Facet.Json.Document
import Facet.Proofs.Document
import Facet.Proofs.Projection

/-!
# What documents show without a selection

A member of an object is a field (`Json.IsField`) unless its value is an object or an array with an
object among its elements. Without a selection, a document shows itself without the other members,
at every depth (`Json.stripped`), and no more is lost when the outcome is shown again
(`leaf_toJson_leaf`, `toJson_leaf_ofJson`). Whether a member is a field does not depend on what
stands deeper in its arrays, so a shown object is free of further objects exactly if no field hides
one there (`leaf_object_flat_iff`, `not_always_flat`).
-/

set_option autoImplicit false

namespace Facet

namespace Json

/-! ## Fields -/

/-- Is a member with this value a field, not an association? -/
def IsField : Json → Prop
  | .object _ => False
  | .array vs => ∀ ms, .object ms ∉ vs
  | _ => True

theorem isObject_iff {v : Json} : v.isObject = true ↔ ∃ ms, v = .object ms := by
  cases v <;> simp [isObject]

theorem isAssociation_eq_false_iff {v : Json} : v.isAssociation = false ↔ v.IsField := by
  cases v with
  | null | bool | number | string => exact iff_of_true rfl trivial
  | object ms => exact iff_of_false Bool.noConfusion id
  | array vs =>
    rw [isAssociation, List.any_eq_false, IsField]
    constructor
    · exact fun h ms hm => h _ hm rfl
    · intro h v hv ho
      obtain ⟨ms, rfl⟩ := isObject_iff.1 ho
      exact h ms hv

instance : DecidablePred IsField := fun _ => decidable_of_iff _ isAssociation_eq_false_iff

/-! ## Values without associations -/

mutual

/-- The value without the members that are not fields, at every depth. -/
def stripped : Json → Json
  | .array vs => .array (strippedItems vs)
  | .object ms => .object (strippedMembers ms)
  | v => v

def strippedItems : List Json → List Json
  | [] => []
  | v :: vs => v.stripped :: strippedItems vs

def strippedMembers : List (String × Json) → List (String × Json)
  | [] => []
  | (k, v) :: ms =>
    if v.IsField then (k, v.stripped) :: strippedMembers ms else strippedMembers ms

end

theorem stripped_of_isPlain {v : Json} (h : v.isPlain = true) : v.stripped = v := by
  cases v with
  | null | bool | number | string => rfl
  | array | object => cases h

theorem strippedItems_eq (vs : List Json) : strippedItems vs = vs.map stripped := by
  induction vs with
  | nil => rfl
  | cons v vs ih => rw [strippedItems, ih, List.map_cons]

/-- The members with values that are fields. -/
def fieldMembers (ms : Members Json) : Members Json := ms.filter fun m => m.2.IsField

theorem mem_fieldMembers {ms : Members Json} {k : String} {v : Json} :
    (k, v) ∈ fieldMembers ms ↔ (k, v) ∈ ms ∧ v.IsField := by
  rw [fieldMembers, List.mem_filter, decide_eq_true_iff]

theorem mem_map_fieldMembers {α : Type} (f : Json → α) {ms : Members Json} {k : String} {a : α} :
    (k, a) ∈ (fieldMembers ms).map (fun m => (m.1, f m.2)) ↔
      ∃ v, (k, v) ∈ ms ∧ v.IsField ∧ f v = a := by
  rw [List.mem_map]
  constructor
  · rintro ⟨⟨l, v⟩, hm, he⟩
    cases he
    obtain ⟨hm, hv⟩ := mem_fieldMembers.1 hm
    exact ⟨v, hm, hv, rfl⟩
  · rintro ⟨v, hm, hv, rfl⟩
    exact ⟨(k, v), mem_fieldMembers.2 ⟨hm, hv⟩, rfl⟩

theorem nodup_keys_fieldMembers {ms : Members Json} (h : ms.keys.Nodup) :
    (fieldMembers ms).keys.Nodup :=
  h.sublist (List.filter_sublist.map Prod.fst)

theorem strippedMembers_eq (ms : Members Json) :
    strippedMembers ms = (fieldMembers ms).map fun m => (m.1, m.2.stripped) := by
  induction ms with
  | nil => rfl
  | cons m ms ih =>
    obtain ⟨k, v⟩ := m
    rw [strippedMembers, fieldMembers, List.filter_cons, ih]
    by_cases h : v.IsField <;> simp [h, fieldMembers]

/-- A field is a field also when its own contents have been stripped. -/
theorem IsField.stripped {v : Json} (h : v.IsField) : v.stripped.IsField := by
  cases v with
  | null | bool | number | string => trivial
  | object ms => exact h
  | array vs =>
    intro ms hm
    rw [strippedItems_eq, List.mem_map] at hm
    obtain ⟨u, hu, he⟩ := hm
    cases u with
    | object ms' => exact h ms' hu
    | null | bool | number | string | array => cases he

theorem DistinctKeys.stripped {v : Json} (h : v.DistinctKeys) : v.stripped.DistinctKeys := by
  induction v using Json.induction with
  | plain v hv => rwa [stripped_of_isPlain hv]
  | array vs ih =>
    rw [distinctKeys_array_iff] at h
    refine .array _ fun w hw => ?_
    rw [strippedItems_eq, List.mem_map] at hw
    obtain ⟨v, hv, rfl⟩ := hw
    exact ih v hv (h v hv)
  | object ms ih =>
    rw [distinctKeys_object_iff] at h
    rw [Json.stripped, strippedMembers_eq, distinctKeys_object_iff, Members.keys_map]
    refine ⟨nodup_keys_fieldMembers h.1, fun k w hw => ?_⟩
    obtain ⟨v, hv, -, rfl⟩ := (mem_map_fieldMembers Json.stripped).1 hw
    exact ih k v hv (h.2 k v hv)

/-- What is kept is kept again, since it is still a field. -/
theorem fieldMembers_strippedMembers (ms : Members Json) :
    fieldMembers (strippedMembers ms) = strippedMembers ms := by
  rw [fieldMembers, List.filter_eq_self]
  rintro ⟨k, w⟩ hw
  rw [strippedMembers_eq] at hw
  obtain ⟨v, -, hv, rfl⟩ := (mem_map_fieldMembers stripped).1 hw
  exact decide_eq_true hv.stripped

theorem stripped_stripped (v : Json) : v.stripped.stripped = v.stripped := by
  induction v using Json.induction with
  | plain v hv => rw [stripped_of_isPlain hv, stripped_of_isPlain hv]
  | array vs ih =>
    rw [stripped, stripped, strippedItems_eq, strippedItems_eq, List.map_map]
    exact congrArg Json.array (List.map_congr_left ih)
  | object ms ih =>
    rw [stripped, stripped, strippedMembers_eq (strippedMembers ms), fieldMembers_strippedMembers,
      strippedMembers_eq, List.map_map]
    refine congrArg Json.object (List.map_congr_left fun m hm => ?_)
    obtain ⟨k, v⟩ := m
    exact congrArg (Prod.mk k) (ih k v (mem_fieldMembers.1 hm).1)

end Json

namespace Projection

/-! ## What is shown -/

theorem leaf_array (vs : List Json) :
    leaf (.ofJson (.array vs)) = .array (vs.map fun v => leaf (.ofJson v)) := by
  rw [Graph.ofJson_array, Graph.plainSequence, leaf, leafItems_eq, List.map_map]
  rfl

theorem mem_shown {ms : Members Json} {k : String} {p : Projection} :
    (k, p) ∈ (Json.fieldMembers ms).map (fun m => (m.1, leaf (.ofJson m.2))) ↔
      ∃ v, (k, v) ∈ ms ∧ v.IsField ∧ leaf (.ofJson v) = p :=
  Json.mem_map_fieldMembers fun v => leaf (.ofJson v)

/-- An object of distinct keys shows its fields in their order. -/
theorem leaf_object {ms : Members Json} (h : ms.keys.Nodup) :
    leaf (.ofJson (.object ms)) =
      .object ((Json.fieldMembers ms).map fun m => (m.1, leaf (.ofJson m.2))) := by
  have hfields : (Schema.ofMembers ms).fields = (Json.fieldMembers ms).keys := by
    refine congrArg Members.keys (List.filter_congr fun m _ => ?_)
    simp [← Json.isAssociation_eq_false_iff]
  have hkeys := Members.keys_map (fun v => leaf (.ofJson v)) (Json.fieldMembers ms)
  rw [Graph.ofJson_object, leaf, Object.ofMembers, hfields, ← hkeys, declaredMembers_keys]
  · rw [hkeys]
    exact Json.nodup_keys_fieldMembers h
  · rintro ⟨k, p⟩ hm
    obtain ⟨v, hv, -, rfl⟩ := mem_shown.1 hm
    rw [leafMembers_eq, Members.get?_map, Graph.ofMembers_eq, Members.get?_map,
      Members.get?_of_mem h hv]
    rfl

theorem toJson_leaf {v : Json} (h : v.DistinctKeys) : (leaf (.ofJson v)).toJson = v.stripped := by
  induction v using Json.induction with
  | plain v hv =>
    obtain ⟨s, hs, hv'⟩ := Graph.exists_scalar hv
    rw [hs, leaf, toJson, hv', Json.stripped_of_isPlain hv]
  | array vs ih =>
    rw [Json.distinctKeys_array_iff] at h
    rw [leaf_array, toJson, itemsToJson_eq, List.map_map, Json.stripped, Json.strippedItems_eq]
    exact congrArg Json.array (List.map_congr_left fun v hv => ih v hv (h v hv))
  | object ms ih =>
    rw [Json.distinctKeys_object_iff] at h
    rw [leaf_object h.1, toJson, membersToJson_eq, List.map_map, Json.stripped,
      Json.strippedMembers_eq]
    refine congrArg Json.object (List.map_congr_left fun m hm => ?_)
    obtain ⟨k, v⟩ := m
    have hm := (Json.mem_fieldMembers.1 hm).1
    exact congrArg (Prod.mk k) (ih k v hm (h.2 k v hm))

/-- Nothing that is shown depends on the associations. -/
theorem leaf_stripped {v : Json} (h : v.DistinctKeys) :
    leaf (.ofJson v.stripped) = leaf (.ofJson v) := by
  induction v using Json.induction with
  | plain v hv => rw [Json.stripped_of_isPlain hv]
  | array vs ih =>
    rw [Json.distinctKeys_array_iff] at h
    rw [Json.stripped, leaf_array, leaf_array, Json.strippedItems_eq, List.map_map]
    exact congrArg Projection.array (List.map_congr_left fun v hv => ih v hv (h v hv))
  | object ms ih =>
    have hs := h.stripped
    rw [Json.stripped, Json.distinctKeys_object_iff] at hs
    rw [Json.distinctKeys_object_iff] at h
    rw [Json.stripped, leaf_object hs.1, leaf_object h.1, Json.fieldMembers_strippedMembers,
      Json.strippedMembers_eq, List.map_map]
    refine congrArg Projection.object (List.map_congr_left fun m hm => ?_)
    obtain ⟨k, v⟩ := m
    have hm := (Json.mem_fieldMembers.1 hm).1
    exact congrArg (Prod.mk k) (ih k v hm (h.2 k v hm))

/-- What is shown shows itself. -/
theorem leaf_toJson_leaf {v : Json} (h : v.DistinctKeys) :
    leaf (.ofJson (leaf (.ofJson v)).toJson) = leaf (.ofJson v) := by
  rw [toJson_leaf h, leaf_stripped h]

/-- **What a document shows**: itself without its associations, at every depth. Nothing more is lost
when that is stripped or shown again. -/
theorem toJson_leaf_ofJson (d : Document) :
    (leaf (.ofJson d.value)).toJson = d.value.stripped ∧
      d.value.stripped.stripped = d.value.stripped ∧
      (leaf (.ofJson (leaf (.ofJson d.value)).toJson)).toJson = (leaf (.ofJson d.value)).toJson := by
  have hstripped := d.value.stripped_stripped
  refine ⟨toJson_leaf d.distinctKeys, hstripped, ?_⟩
  rw [toJson_leaf d.distinctKeys, toJson_leaf d.distinctKeys.stripped, hstripped]

/-- A text with an author and objects within a grid. -/
def articleText : String :=
  "\x7b\"by\": \x7b\x7d, \"grid\": [[\x7b\"cell\": true, \"next\": \x7b\x7d\x7d]]\x7d"

/-- The members that the text writes down. -/
def articleMembers : Members Json :=
  [("by", .object []),
    ("grid", .array [.array [.object [("cell", .bool true), ("next", .object [])]]])]

theorem ofText?_articleText : Json.ofText? articleText = some (.object articleMembers) := by
  decide +kernel

/-- The document of that text. -/
def article : Document := ⟨.object articleMembers, Json.distinctKeys_of_ofText? ofText?_articleText⟩

example : article.value.stripped = .object
    [("grid", .array [.array [.object [("cell", .bool true)]]])] := by cbv

end Projection

/-! ## Objects within what is shown -/

/-- Neither the value nor anything in it is an object. -/
inductive Json.Flat : Json → Prop
  | plain (v : Json) (h : v.isPlain = true) : Flat v
  | array (vs : List Json) (h : ∀ v ∈ vs, Flat v) : Flat (.array vs)

theorem Json.flat_array_iff {vs : List Json} : Flat (.array vs) ↔ ∀ v ∈ vs, v.Flat := by
  refine ⟨fun h => ?_, .array vs⟩
  cases h with
  | plain _ h => cases h
  | array _ h => exact h

theorem Json.not_flat_of_mem_of_mem {vs us : List Json} {ms : Members Json} (hu : .array us ∈ vs)
    (hm : .object ms ∈ us) : ¬Flat (.array vs) := by
  intro h
  rw [flat_array_iff] at h
  exact nomatch flat_array_iff.1 (h _ hu) _ hm

namespace Projection

/-- Neither the value nor anything in it is an object. -/
inductive Flat : Projection → Prop
  | scalar (s : Scalar) : Flat (.scalar s)
  | array (ps : List Projection) (h : ∀ p ∈ ps, Flat p) : Flat (.array ps)

theorem flat_array_iff {ps : List Projection} : Flat (.array ps) ↔ ∀ p ∈ ps, p.Flat := by
  refine ⟨fun h => ?_, .array ps⟩
  cases h with
  | array _ h => exact h

theorem flat_leaf_iff {v : Json} : (leaf (.ofJson v)).Flat ↔ v.Flat := by
  induction v using Json.induction with
  | plain v hv =>
    obtain ⟨s, hs, -⟩ := Graph.exists_scalar hv
    rw [hs, leaf]
    exact iff_of_true (.scalar s) (.plain v hv)
  | array vs ih =>
    rw [leaf_array, flat_array_iff, Json.flat_array_iff, List.forall_mem_map]
    exact forall₂_congr ih
  | object ms ih =>
    refine iff_of_false ?_ ?_
    · rw [Graph.ofJson_object, leaf]
      exact fun h => nomatch h
    · exact fun h => nomatch h

/-- **The objects within a shown object**: it shows its fields, and none of them is an object or has
one among its elements. It is free of objects at every depth exactly if no field has an object in an
array within its array. -/
theorem leaf_object_flat_iff {d : Document} {ms : Members Json} (h : d.value = .object ms) :
    ∃ os : Members Projection, leaf (.ofJson d.value) = .object os ∧
      (∀ k, k ∈ os.keys ↔ ∃ v, (k, v) ∈ ms ∧ v.IsField) ∧
      (∀ k p, (k, p) ∈ os → p.toJson.IsField) ∧
      ((∀ k p, (k, p) ∈ os → p.Flat) ↔ ∀ k v, (k, v) ∈ ms → v.IsField → v.Flat) := by
  have hd := d.distinctKeys
  rw [h] at hd ⊢
  obtain ⟨hkeys, hvalues⟩ := Json.distinctKeys_object_iff.1 hd
  refine ⟨_, leaf_object hkeys, fun k => ⟨fun hk => ?_, ?_⟩, fun k p hp => ?_,
    fun hflat k v hm hv => ?_, fun hflat k p hp => ?_⟩
  · obtain ⟨⟨k, p⟩, hp, rfl⟩ := List.mem_map.1 hk
    obtain ⟨v, hm, hv, -⟩ := mem_shown.1 hp
    exact ⟨v, hm, hv⟩
  · rintro ⟨v, hm, hv⟩
    exact List.mem_map_of_mem (mem_shown.2 ⟨v, hm, hv, rfl⟩)
  · obtain ⟨v, hm, hv, rfl⟩ := mem_shown.1 hp
    rw [toJson_leaf (hvalues k v hm)]
    exact hv.stripped
  · exact flat_leaf_iff.1 (hflat k _ (mem_shown.2 ⟨v, hm, hv, rfl⟩))
  · obtain ⟨v, hm, hv, rfl⟩ := mem_shown.1 hp
    exact flat_leaf_iff.2 (hflat k v hm hv)

theorem leaf_object_flat_iff_article : article.value = .object articleMembers ∧
    ∃ os : Members Projection, leaf (.ofJson article.value) = .object os ∧
      (∀ k p, (k, p) ∈ os → p.toJson.IsField) ∧ ¬∀ k p, (k, p) ∈ os → p.Flat := by
  have harticle : article.value = .object articleMembers := rfl
  obtain ⟨os, hos, -, hfields, hflat⟩ := leaf_object_flat_iff harticle
  refine ⟨harticle, os, hos, hfields, fun h => ?_⟩
  exact Json.not_flat_of_mem_of_mem (.head _) (.head _)
    (hflat.1 h "grid" _ (.tail _ (.head _)) (by decide))

/-- **What is shown is not always free of objects**: the article shows the objects in its grid. -/
theorem not_always_flat : ¬∀ (d : Document) (os : Members Projection),
    leaf (.ofJson d.value) = .object os → ∀ k p, (k, p) ∈ os → p.Flat := by
  intro h
  have hkeys := (Json.distinctKeys_object_iff.1 article.distinctKeys).1
  have hgrid := h article _ (leaf_object hkeys) "grid" _
    (mem_shown.2 ⟨_, .tail _ (.head _), by decide, rfl⟩)
  exact Json.not_flat_of_mem_of_mem (.head _) (.head _) (flat_leaf_iff.1 hgrid)

end Projection

end Facet
