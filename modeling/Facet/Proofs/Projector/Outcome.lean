import Facet.Proofs.Lists
import Facet.Proofs.Members
import Facet.Proofs.Projector.Steps
import Mathlib.Data.List.Nodup

/-!
# Successful projections

What a projection is made of when it succeeds: an array of the projections of the elements of a
sequence (`returns_walk_sequence`), an object of the values of permitted fields
(`returns_walk_object`, `returns_projectFields`), and a field of the projection of its value
(`returns_projectField`). Of several nodes of one name the last gives the value: it is the `Final`
one (`mem_leaf_of_final`, `exists_mem_of_final`). In a `Distinct` selection every node is.
-/

set_option autoImplicit false

namespace Facet

/-- The node is selected, and no node after it has its name. -/
def Selector.Final (n : Selector.Node) : List Selector.Node → Prop
  | [] => False
  | m :: ms => (n = m ∧ ∀ l ∈ ms, l.name ≠ n.name) ∨ Selector.Final n ms

/-- The names of siblings are distinct, at every level of the selection. -/
inductive Selector.Distinct : List Selector.Node → Prop
  | intro {ns : List Selector.Node} : (ns.map Selector.Node.name).Nodup →
      (∀ n ∈ ns, ∀ children, n.children = some children → Distinct children) → Distinct ns

namespace Selector.Distinct

variable {n : Node} {ns : List Node}

theorem children {children : List Node} (h : Distinct ns) (hn : n ∈ ns)
    (hc : n.children = some children) : Distinct children := by
  obtain ⟨-, hchildren⟩ := h
  exact hchildren n hn children hc

theorem cons (h : Distinct (n :: ns)) : (∀ m ∈ ns, m.name ≠ n.name) ∧ Distinct ns := by
  obtain ⟨hnames, hchildren⟩ := h
  rw [List.map_cons, List.nodup_cons] at hnames
  refine ⟨fun m hm he => hnames.1 (he ▸ List.mem_map_of_mem hm), hnames.2, fun m hm => ?_⟩
  exact hchildren m (.tail n hm)

theorem of_plain (hnames : (ns.map Node.name).Nodup) (h : ∀ n ∈ ns, n.children = none) :
    Distinct ns := by
  refine .intro hnames fun n hn children hc => ?_
  cases (h n hn).symm.trans hc

/-- Every node is the last of its name. -/
theorem final (h : Distinct ns) (hn : n ∈ ns) : Final n ns := by
  induction hn with
  | head ns => exact .inl ⟨rfl, h.cons.1⟩
  | tail m _ ih => exact .inr (ih h.cons.2)

theorem eq_of_name_eq {m : Node} (h : Distinct ns) (hm : m ∈ ns) (hn : n ∈ ns)
    (he : m.name = n.name) : m = n := by
  obtain ⟨hnames, -⟩ := h
  exact List.inj_on_of_nodup_map hnames hm hn he

end Selector.Distinct

namespace Projector

open Selector (Node OrderDirective Final)
open Run (Returns)

variable {config : ProjectorConfig} {scope : Scope} {path : Path}

/-! ## Values -/

theorem returns_walkAll {rule : Path → Object Graph → Run Projection} {i : Nat} {gs : List Graph}
    {ps : List Projection} (h : Returns (walkAll rule path i gs) ps) :
    List.Forall₂ (fun g p => ∃ path, Returns (walk rule path g) p) gs ps := by
  induction gs generalizing i ps with
  | nil =>
    obtain rfl : [] = ps := Run.returns_pure.1 h
    exact .nil
  | cons g gs ih =>
    obtain ⟨q, hq, h⟩ := Returns.of_bind h
    obtain ⟨qs, hqs, h⟩ := Returns.of_bind h
    obtain rfl := Run.returns_pure.1 h
    exact .cons ⟨_, hq⟩ (ih hqs)

theorem returns_walk_scalar {nodes : List Node} {s : Scalar} {p : Projection}
    (h : Returns (walk (projectObject config nodes scope) path (.scalar s)) p) :
    p = .emptyObject := (Run.returns_pure.1 h).symm

theorem returns_walk_object {nodes : List Node} {o : Object Graph} {p : Projection}
    (h : Returns (walk (projectObject config nodes scope) path (.object o)) p) :
    ∃ ms, p = .object ms ∧ Returns (projectFields config scope path o [] nodes) ms := by
  obtain ⟨ms, hm, rfl⟩ := Returns.of_map (x := projectFields config scope path o [] nodes) h
  exact ⟨ms, rfl, hm⟩

theorem returns_walk_sequence {nodes : List Node} {elements : List Graph}
    {declared : Option Schema} {native : Option (List ((String × Direction) × List Graph))}
    {p : Projection}
    (h : Returns (walk (projectObject config nodes scope) path (.sequence elements declared native))
      p) :
    ∃ ps, p = .array ps ∧ List.Forall₂ (fun g p => ∃ path,
      Returns (walk (projectObject config nodes scope) path g) p) elements ps := by
  obtain ⟨ps, hm, rfl⟩ :=
    Returns.of_map (x := walkAll (projectObject config nodes scope) path 0 elements) h
  exact ⟨ps, rfl, returns_walkAll hm⟩

/-! ## Fields -/

theorem returns_inOrder {order : Option OrderDirective} {value v : Graph}
    (h : Returns (inOrder config path order value) v) : v = ordered config order value := by
  obtain ⟨ds, h⟩ := h
  rw [run_inOrder] at h
  exact (Except.ok.inj h).symm

/-- The value of a permitted field: plain, or projected through the selection in its braces. -/
theorem returns_projectField {o : Object Graph} {n : Node} {r : Option Projection}
    (hp : scope.permits n.name = true) (h : Returns (projectField config scope path o n) r) :
    ∃ v p, o.attribute? n.name = some v ∧ r = some p ∧
      ((n.children = none ∧ p = .leaf v) ∨
        ∃ nodes path, n.children = some nodes ∧
          Returns (walk (projectObject config nodes (scope.under n.name)) path
            (ordered config n.order v)) p) := by
  cases ha : o.attribute? n.name with
  | none =>
    rw [projectField_missing hp ha] at h
    exact absurd h Run.not_returns_throw
  | some v =>
    cases hc : n.children with
    | none =>
      rw [projectField_plain hp ha hc] at h
      exact ⟨v, _, rfl, (Run.returns_pure.1 h).symm, .inl ⟨rfl, rfl⟩⟩
    | some nodes =>
      rw [projectField_nested hp ha hc] at h
      obtain ⟨w, hw, h⟩ := Returns.of_bind h
      obtain rfl := returns_inOrder hw
      obtain ⟨p, hp, rfl⟩ := Returns.of_map h
      exact ⟨v, p, rfl, rfl, .inr ⟨nodes, _, rfl, hp⟩⟩

theorem returns_projectField_denied {o : Object Graph} {n : Node} {r : Option Projection}
    (hp : ¬scope.permits n.name = true) (h : Returns (projectField config scope path o n) r) :
    r = none := by
  rw [projectField_denied hp] at h
  obtain ⟨-, -, h⟩ := Returns.of_bind h
  exact (Run.returns_pure.1 h).symm

theorem nodup_keys_settle {done : Members Projection} (hd : done.keys.Nodup) (name : String)
    (r : Option Projection) : (settle done name r).keys.Nodup := by
  cases r with
  | none => exact hd
  | some p => exact Members.nodup_keys_insert name p hd

theorem nodup_keys_projectFields {o : Object Graph} {done ms : Members Projection} {ns : List Node}
    (hd : done.keys.Nodup) (h : Returns (projectFields config scope path o done ns) ms) :
    ms.keys.Nodup := by
  induction ns generalizing done with
  | nil =>
    obtain rfl := Run.returns_pure.1 h
    exact hd
  | cons n ns ih =>
    rw [projectFields_cons] at h
    obtain ⟨r, -, h⟩ := Returns.of_bind h
    exact ih (nodup_keys_settle hd n.name r) h

/-- The members of an object, given those that it has before its fields are projected: each is the
value of the final node of its name, or was there before and no permitted node has its name; each
final node has its value among them, and what no node names stays. -/
theorem returns_projectFields {o : Object Graph} {done ms : Members Projection} {ns : List Node}
    (hd : done.keys.Nodup) (h : Returns (projectFields config scope path o done ns) ms) :
    (∀ k p, (k, p) ∈ ms →
      (∃ n, Final n ns ∧ n.name = k ∧ scope.permits k = true ∧
        Returns (projectField config scope path o n) (some p)) ∨
      ((k, p) ∈ done ∧ ∀ n ∈ ns, n.name = k → ¬scope.permits k = true)) ∧
    (∀ n, Final n ns → scope.permits n.name = true →
      ∃ p, (n.name, p) ∈ ms ∧ Returns (projectField config scope path o n) (some p)) ∧
    (∀ k p, (k, p) ∈ done → (∀ n ∈ ns, n.name ≠ k) → (k, p) ∈ ms) := by
  induction ns generalizing done with
  | nil =>
    obtain rfl := Run.returns_pure.1 h
    exact ⟨fun k p hm => .inr ⟨hm, List.forall_mem_nil _⟩, fun n hn => hn.elim, fun k p hm _ => hm⟩
  | cons n ns ih =>
    rw [projectFields_cons] at h
    obtain ⟨r, hr, h⟩ := Returns.of_bind h
    by_cases hp : scope.permits n.name = true
    · obtain ⟨v, p, -, rfl, -⟩ := returns_projectField hp hr
      obtain ⟨hback, hfinal, hkeep⟩ := ih (Members.nodup_keys_insert n.name p hd) h
      refine ⟨fun k q hm => ?_, fun m hm hmp => ?_, fun k q hm hn => ?_⟩
      · rcases hback k q hm with ⟨m, hm, hk⟩ | ⟨hm, hn⟩
        · exact .inl ⟨m, .inr hm, hk⟩
        · rcases (Members.mem_insert hd).1 hm with ⟨rfl, rfl⟩ | ⟨hk, hm⟩
          · exact .inl ⟨n, .inl ⟨rfl, fun l hl he => hn l hl he hp⟩, rfl, hp, hr⟩
          · exact .inr ⟨hm, List.forall_mem_cons.2 ⟨fun he => absurd he.symm hk, hn⟩⟩
      · rcases hm with ⟨rfl, hl⟩ | hm
        · exact ⟨p, hkeep _ p ((Members.mem_insert hd).2 (.inl ⟨rfl, rfl⟩)) hl, hr⟩
        · exact hfinal m hm hmp
      · obtain ⟨hk, hn⟩ := List.forall_mem_cons.1 hn
        exact hkeep k q ((Members.mem_insert hd).2 (.inr ⟨hk.symm, hm⟩)) hn
    · obtain rfl := returns_projectField_denied hp hr
      obtain ⟨hback, hfinal, hkeep⟩ := ih hd h
      refine ⟨fun k q hm => ?_, fun m hm hmp => ?_, fun k q hm hn => ?_⟩
      · rcases hback k q hm with ⟨m, hm, hk⟩ | ⟨hm, hn⟩
        · exact .inl ⟨m, .inr hm, hk⟩
        · exact .inr ⟨hm, List.forall_mem_cons.2 ⟨fun he => he ▸ hp, hn⟩⟩
      · rcases hm with ⟨rfl, -⟩ | hm
        · exact absurd hmp hp
        · exact hfinal m hm hmp
      · exact hkeep k q hm (List.forall_mem_cons.1 hn).2

/-- A permitted final node without braces shows its value plainly. -/
theorem mem_leaf_of_final {o : Object Graph} {ms : Members Projection} {n : Node} {ns : List Node}
    {v : Graph} (h : Returns (projectFields config scope path o [] ns) ms) (hn : Final n ns)
    (hp : scope.permits n.name = true) (ha : o.attribute? n.name = some v)
    (hc : n.children = none) : (n.name, .leaf v) ∈ ms := by
  obtain ⟨-, hfinal, -⟩ := returns_projectFields Members.nodup_keys_nil h
  obtain ⟨p, hm, hf⟩ := hfinal n hn hp
  obtain ⟨w, q, hw, he, ⟨-, rfl⟩ | ⟨_, _, hc', -⟩⟩ := returns_projectField hp hf
  · cases he
    cases ha.symm.trans hw
    exact hm
  · cases hc.symm.trans hc'

/-- A permitted final node with braces shows what is projected of its value through them. -/
theorem exists_mem_of_final {o : Object Graph} {ms : Members Projection} {n : Node}
    {ns children : List Node} {v : Graph}
    (h : Returns (projectFields config scope path o [] ns) ms) (hn : Final n ns)
    (hp : scope.permits n.name = true) (ha : o.attribute? n.name = some v)
    (hc : n.children = some children) : ∃ p, (n.name, p) ∈ ms ∧ ∃ path,
      Returns (walk (projectObject config children (scope.under n.name)) path
        (ordered config n.order v)) p := by
  obtain ⟨-, hfinal, -⟩ := returns_projectFields Members.nodup_keys_nil h
  obtain ⟨p, hm, hf⟩ := hfinal n hn hp
  obtain ⟨w, q, hw, he, ⟨hc', -⟩ | ⟨nodes, path', hc', hwalk⟩⟩ := returns_projectField hp hf
  · cases hc.symm.trans hc'
  · cases he
    cases ha.symm.trans hw
    cases hc.symm.trans hc'
    exact ⟨p, hm, path', hwalk⟩

end Projector

end Facet
