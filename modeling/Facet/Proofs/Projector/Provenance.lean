import Facet.Proofs.Document
import Facet.Proofs.Projection
import Facet.Proofs.Projector.Outcome

/-!
# Where projected data comes from

`Json.Selected children v o` says that the JSON value `o` is made of nothing but parts of the
document `v`, each in its place: plain values as they are, elements of arrays up to their order, and
members under their own keys. This holds of a value that is selected without braces
(`selected_leaf`) and of one that is projected through a selection (`selected_walk`), so a
projection neither invents nor alters, drops or repeats what the document has
(`project_selected`).
-/

set_option autoImplicit false

namespace Facet

open Selector (Node OrderDirective Final)

/-! ## Selections of a document -/

/-- What is selected under a key: without braces all of it, with braces what the node that counts
says in its turn. -/
inductive Selector.Under : Option (List Node) → String → Option (List Node) → Prop
  | plain {k : String} : Selector.Under none k none
  | node {nodes : List Node} {n : Node} :
      Final n nodes → Selector.Under (some nodes) n.name n.children

mutual

/-- The second value is selected from the first, without braces or through a selection in braces. A
value without parts has nothing to select from, and becomes the empty object in braces. -/
inductive Json.Selected : Option (List Node) → Json → Json → Prop
  | plain {v : Json} : v.isPlain = true → Json.Selected none v v
  | empty {nodes : List Node} {v : Json} :
      v.isPlain = true → Json.Selected (some nodes) v (.object [])
  | array {children : Option (List Node)} {vs ws os : List Json} :
      ws.Perm vs → Json.SelectedItems children ws os →
      Json.Selected children (.array vs) (.array os)
  | object {children : Option (List Node)} {ms os : Members Json} :
      os.keys.Nodup → Json.SelectedMembers children ms os →
      Json.Selected children (.object ms) (.object os)

/-- `Json.Selected` for arrays, element by element. -/
inductive Json.SelectedItems : Option (List Node) → List Json → List Json → Prop
  | nil {children : Option (List Node)} : Json.SelectedItems children [] []
  | cons {children : Option (List Node)} {v o : Json} {vs os : List Json} :
      Json.Selected children v o → Json.SelectedItems children vs os →
      Json.SelectedItems children (v :: vs) (o :: os)

/-- Each member on the right is selected from the member on the left that has its key. -/
inductive Json.SelectedMembers : Option (List Node) → Members Json → Members Json → Prop
  | nil {children : Option (List Node)} {ms : Members Json} : Json.SelectedMembers children ms []
  | cons {children inner : Option (List Node)} {ms os : Members Json} {k : String} {v o : Json} :
      Selector.Under children k inner → ms.get? k = some v → Json.Selected inner v o →
      Json.SelectedMembers children ms os → Json.SelectedMembers children ms ((k, o) :: os)

end

namespace Json

variable {children : Option (List Node)}

theorem selectedItems_of_forall₂ {vs os : List Json} (h : List.Forall₂ (Selected children) vs os) :
    SelectedItems children vs os := by
  induction h with
  | nil => exact .nil
  | cons ho _ ih => exact .cons ho ih

theorem selectedMembers_of_forall_mem {ms os : Members Json}
    (h : ∀ k o, (k, o) ∈ os → ∃ inner v,
      Selector.Under children k inner ∧ ms.get? k = some v ∧ Selected inner v o) :
    SelectedMembers children ms os := by
  induction os with
  | nil => exact .nil
  | cons m os ih =>
    obtain ⟨inner, v, hu, hv, ho⟩ := h m.1 m.2 (.head _)
    exact .cons hu hv ho (ih fun k o hm => h k o (.tail _ hm))

/-- An array of projections is selected if each of them is, from the element in its place. -/
theorem selected_toJson_array {vs ws : List Json} {ps : List Projection} (hperm : ws.Perm vs)
    (h : List.Forall₂ (fun w p => Selected children w p.toJson) ws ps) :
    Selected children (.array vs) (Projection.array ps).toJson := by
  rw [Projection.toJson, Projection.itemsToJson_eq]
  refine .array hperm (selectedItems_of_forall₂ ?_)
  rwa [List.forall₂_map_right_iff]

/-- An object of projections is selected if each of them is, from the member of its key. -/
theorem selected_toJson_object {ms : Members Json} {os : Members Projection}
    (hd : os.keys.Nodup)
    (h : ∀ k p, (k, p) ∈ os → ∃ inner v,
      Selector.Under children k inner ∧ ms.get? k = some v ∧ Selected inner v p.toJson) :
    Selected children (.object ms) (Projection.object os).toJson := by
  rw [Projection.toJson]
  refine .object ?_ (selectedMembers_of_forall_mem fun k o hm => ?_)
  · rwa [Projection.keys_membersToJson]
  · rw [Projection.membersToJson_eq] at hm
    obtain ⟨⟨k, p⟩, hp, rfl, rfl⟩ := List.mem_map.1 hm
    exact h k p hp

end Json

namespace Projector

open Run (Returns)

variable {config : ProjectorConfig} {nodes : List Node} {scope : Scope} {path : Path}
  {order : Option OrderDirective}

/-! ## What is shown -/

/-- A value without braces shows parts of the value. -/
theorem selected_leaf (v : Json) : v.Selected none (Projection.leaf (.ofJson v)).toJson := by
  induction v using Json.induction with
  | plain v hv =>
    obtain ⟨s, hs, hj⟩ := Graph.exists_scalar hv
    rw [hs, Projection.leaf, Projection.toJson, hj]
    exact .plain hv
  | array vs ih =>
    rw [Graph.ofJson_array, Graph.plainSequence, Projection.leaf, Projection.leafItems_eq,
      List.map_map]
    refine Json.selected_toJson_array (.refl vs) ?_
    rw [List.forall₂_map_right_iff, List.forall₂_same]
    exact ih
  | object ms ih =>
    rw [Graph.ofJson_object, Projection.leaf]
    refine Json.selected_toJson_object (Projection.nodup_keys_declaredMembers _ _) fun k p hp => ?_
    obtain ⟨-, w, hw, rfl⟩ := Projection.mem_leaf_object.1 hp
    obtain ⟨v, hv, rfl⟩ := Graph.attribute?_ofMembers_eq_some_iff.1 hw
    exact ⟨none, v, .plain, hv, ih k v (Members.mem_of_get? hv)⟩

/-- What is projected through a selection is selected from the value, in whichever order it is. -/
theorem selected_walk {v : Json} {p : Projection}
    (h : Returns (walk (projectObject config nodes scope) path
      (ordered config order (.ofJson v))) p) :
    v.Selected (some nodes) p.toJson := by
  induction v using Json.induction generalizing nodes scope path order p with
  | plain v hv =>
    obtain ⟨s, hs, -⟩ := Graph.exists_scalar hv
    rw [hs, ordered_of_not_sequence rfl] at h
    obtain rfl := returns_walk_scalar h
    exact .empty hv
  | array vs ih =>
    rw [Graph.ofJson_array, Graph.plainSequence] at h
    obtain ⟨ws, declared, hperm, ho⟩ := exists_ordered_map config order .ofJson vs none
    rw [ho] at h
    obtain ⟨ps, rfl, hps⟩ := returns_walk_sequence h
    rw [List.forall₂_map_left_iff] at hps
    obtain ⟨hl, hz⟩ := List.forall₂_iff_zip.1 hps
    refine Json.selected_toJson_array hperm (List.forall₂_iff_zip.2 ⟨hl, fun {w p} hm => ?_⟩)
    obtain ⟨path', hr⟩ := hz hm
    have hw : w ∈ vs := hperm.subset (List.of_mem_zip hm).1
    -- elements are walked as they stand, that is, in no particular order
    exact ih w hw (show Returns (walk _ _ (ordered config none (.ofJson w))) p from hr)
  | object ms ih =>
    rw [Graph.ofJson_object, ordered_of_not_sequence rfl] at h
    obtain ⟨os, rfl, hos⟩ := returns_walk_object h
    have hd := nodup_keys_projectFields Members.nodup_keys_nil hos
    refine Json.selected_toJson_object hd fun k p hp => ?_
    obtain ⟨hback, -, -⟩ := returns_projectFields Members.nodup_keys_nil hos
    rcases hback k p hp with ⟨n, hn, rfl, hperm, hr⟩ | ⟨hm, -⟩
    · obtain ⟨w, q, hw, hq, hshown⟩ := returns_projectField hperm hr
      cases hq
      obtain ⟨v, hv, rfl⟩ := Graph.attribute?_ofMembers_eq_some_iff.1 hw
      refine ⟨n.children, v, .node hn, hv, ?_⟩
      rcases hshown with ⟨hc, rfl⟩ | ⟨inner, path', hc, hr⟩
      · rw [hc]
        exact selected_leaf v
      · rw [hc]
        exact ih n.name v (Members.mem_of_get? hv) hr
    · cases hm

/-- **Provenance**: a successful projection of a document is selected from the document. An array at
the root is under `data` if so configured, and nothing else is beside it. -/
theorem project_selected {v : Json} {ds : Diagnostics} {p : Projection}
    (h : ((project config (.ofJson v) nodes scope).run ds).1 = .ok p) :
    ∃ o, v.Selected (some nodes) o ∧ p.toJson = match config.wrapping, v with
      | .data, .array _ => .object [("data", o)]
      | _, _ => o := by
  obtain ⟨q, hq, rfl⟩ := Returns.of_map ⟨ds, h⟩
  have hs : Returns (walk (projectObject config nodes scope) []
      (ordered config none (.ofJson v))) q := hq
  refine ⟨q.toJson, selected_walk hs, ?_⟩
  cases hw : config.wrapping with
  | bare => simp [wrap, hw]
  | data =>
    cases v with
    | array vs => simp [wrap, hw, Graph.ofJson_array, Graph.plainSequence, Graph.isSequence,
        Projection.toJson, Projection.membersToJson]
    | null | bool b | number n | string t | object ms =>
      simp [wrap, Graph.ofJson, Graph.isSequence]

/-- A reply with the greatest number that is kept exactly. -/
def lastReply : Json :=
  .object [("id", .number (.integer 18446744073709551615 rfl)), ("text", .string "b")]

/-- A reply with the least one. -/
def firstReply : Json :=
  .object [("text", .string "a"), ("id", .number (.integer (-9223372036854775808) rfl))]

/-- The two replies, the last one first. -/
def replies : Json := .array [lastReply, firstReply]

/-- The numbers of the replies in ascending order. -/
def repliesFields : List Node :=
  [⟨"replies", some [⟨"id", none, none⟩], some .reverseChronological⟩]

/-- The projection of a thread with the replies, in an array. -/
def repliesShown : Projection := .object [("data", .array [.object [("replies", .array [
  .object [("id", .scalar (.int (-9223372036854775808)))],
  .object [("id", .scalar (.uint 18446744073709551615))]])]])]

theorem project_selected_replies :
    ((project ⟨.data, "id", true⟩ (.ofJson (.array [.object [("replies", replies)]])) repliesFields
        .unrestricted).run []).1 = .ok repliesShown ∧
      ∃ o, (Json.array [.object [("replies", replies)]]).Selected (some repliesFields) o ∧
        repliesShown.toJson = .object [("data", o)] := by
  have hsorted : Arrangement.sorted "id" .desc [.ofJson lastReply, .ofJson firstReply] =
      .ok [.ofJson firstReply, .ofJson lastReply] :=
    Arrangement.sorted_swap rfl rfl rfl
  have hr : ((project ⟨.data, "id", true⟩ (.ofJson (.array [.object [("replies", replies)]]))
      repliesFields .unrestricted).run []).1 = .ok repliesShown := by
    rw [project, Graph.ofJson_array, Graph.plainSequence, List.map_singleton, Graph.ofJson_object,
      walk, walkAll, walk, projectObject, repliesFields, projectFields_cons,
      projectField_sorted rfl rfl rfl rfl hsorted]
    rfl
  exact ⟨hr, project_selected hr⟩

end Projector

end Facet
