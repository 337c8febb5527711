import Facet.Proofs.Projector.Traversal

/-!
# Where a projection comes to

Which value is at which path of a projection, and with which selection and within which scope it is
projected, is said without the projector (`Reached`): the target with what is asked of it at the
empty path, the elements of a sequence at their indexes, and the value of a permitted field with
braces, in order, under its name. The events of a projection are those of the single fields of the
objects that are reached (`mem_events_iff`).
-/

set_option autoImplicit false

namespace Facet.Projector

open Selector (Node)

variable {config : ProjectorConfig} {target g : Graph} {nodes ns : List Node} {scope s : Scope}
  {path : Path} {o : Object Graph} {n : Node} {e : Event}

/-- The value at the path is projected through the selection and within the scope, in a projection of
the target. -/
inductive Reached (config : ProjectorConfig) (target : Graph) (nodes : List Node) (scope : Scope) :
    Path → Graph → List Node → Scope → Prop
  | target : Reached config target nodes scope [] target nodes scope
  | element {path : Path} {elements : List Graph} {declared : Option Schema}
      {native : Option (List ((String × Direction) × List Graph))} {i : Nat} {g : Graph}
      {ns : List Node} {s : Scope} :
      Reached config target nodes scope path (.sequence elements declared native) ns s →
      elements[i]? = some g → Reached config target nodes scope (path.index i) g ns s
  | field {path : Path} {o : Object Graph} {ns : List Node} {s : Scope} {n : Node}
      {children : List Node} {v : Graph} :
      Reached config target nodes scope path (.object o) ns s → n ∈ ns →
      s.permits n.name = true → n.children = some children → o.attribute? n.name = some v →
      Reached config target nodes scope (path.key n.name) (ordered config n.order v) children
        (s.under n.name)

/-- The event is one of a field of the object at the path, and of nothing nested under it. -/
inductive OwnEvent (config : ProjectorConfig) (s : Scope) (path : Path) (o : Object Graph)
    (n : Node) : Event → Prop
  | denied : ¬s.permits n.name = true → OwnEvent config s path o n (.denied (path.key n.name))
  | missing : s.permits n.name = true → o.attribute? n.name = none →
      OwnEvent config s path o n (.missing o n.name)
  | unordered {v : Graph} {children : List Node} {d : Diagnostic} : s.permits n.name = true →
      o.attribute? n.name = some v → n.children = some children →
      d ∈ orderNotes config (path.key n.name) n.order v →
      OwnEvent config s path o n (.unordered d)

/-! ## Events of what is reached -/

theorem OwnEvent.mem (h : OwnEvent config s path o n e) : e ∈ fieldEvents config s path o n := by
  cases h with
  | denied hp =>
    rw [fieldEvents_denied hp]
    exact .head _
  | missing hp ha =>
    rw [fieldEvents_missing hp ha]
    exact .head _
  | unordered hp ha hc hd =>
    rw [fieldEvents_nested hp ha hc]
    exact List.mem_append_left _ (List.mem_map_of_mem hd)

theorem fieldEvents_subset (hn : n ∈ ns) :
    fieldEvents config s path o n ⊆ fieldsEvents config s path o ns := by
  induction hn with
  | head ns => exact List.subset_append_left _ _
  | tail m _ ih => exact List.subset_append_of_subset_right _ ih

theorem walkEvents_subset (rule : Path → Object Graph → List Event) {gs : List Graph} {k : Nat}
    (hg : gs[k]? = some g) (path : Path) (i : Nat) :
    walkEvents rule (path.index (i + k)) g ⊆ walkAllEvents rule path i gs := by
  induction gs generalizing i k with
  | nil => simp at hg
  | cons g' gs ih =>
    cases k with
    | zero =>
      obtain rfl : g' = g := by simpa using hg
      exact List.subset_append_left _ _
    | succ k =>
      have := ih (k := k) (by simpa using hg) (i + 1)
      rw [Nat.add_assoc, Nat.add_comm 1] at this
      exact List.subset_append_of_subset_right _ this

/-- What is reached has its events among those of the target. -/
theorem Reached.eventsAt_subset (h : Reached config target nodes scope path g ns s) :
    eventsAt config ns s path g ⊆ events config target nodes scope := by
  induction h with
  | target => exact List.Subset.refl _
  | @element path elements _ _ i g ns s _ hg ih =>
    have := walkEvents_subset (fun path o => fieldsEvents config s path o ns) hg path 0
    rw [Nat.zero_add] at this
    exact fun _ he => ih (this he)
  | field _ hn hp hc ha ih =>
    refine fun _ he => ih (fieldEvents_subset hn ?_)
    rw [fieldEvents_nested hp ha hc]
    exact List.mem_append_right _ he

/-! ## What has the events -/

section
variable {rule : Path → Object Graph → List Event} {P : Path → Graph → Prop}

mutual

/-- An event of a value is one of an object that elements of it lead to. -/
theorem exists_object_of_mem (hP : ∀ {path elements declared native} (i : Nat) {g},
    P path (.sequence elements declared native) → elements[i]? = some g → P (path.index i) g) :
    ∀ (path : Path) (g : Graph), P path g → e ∈ walkEvents rule path g →
      ∃ p o, P p (.object o) ∧ e ∈ rule p o
  | _, .scalar _, _, he => nomatch he
  | path, .object o, hg, he => ⟨path, o, hg, he⟩
  | path, .sequence elements _ _, hg, he =>
    exists_object_of_mem_all hP path 0 elements (fun i g hi => by
      rw [Nat.zero_add]
      exact hP i hg hi) he

theorem exists_object_of_mem_all (hP : ∀ {path elements declared native} (i : Nat) {g},
    P path (.sequence elements declared native) → elements[i]? = some g → P (path.index i) g)
    (path : Path) (i : Nat) : ∀ gs : List Graph,
      (∀ (k : Nat) (g : Graph), gs[k]? = some g → P (path.index (i + k)) g) →
      e ∈ walkAllEvents rule path i gs → ∃ p o, P p (.object o) ∧ e ∈ rule p o
  | [], _, he => nomatch he
  | g :: gs, hgs, he => by
    rcases List.mem_append.1 he with he | he
    · exact exists_object_of_mem hP (path.index i) g (hgs 0 g rfl) he
    · refine exists_object_of_mem_all hP path (i + 1) gs (fun k g' hk => ?_) he
      have := hgs (k + 1) g' hk
      rwa [Nat.add_comm k, ← Nat.add_assoc] at this

end

end

/-- The event is one of a field of an object that is reached. -/
def ReachedEvent (config : ProjectorConfig) (target : Graph) (nodes : List Node) (scope : Scope)
    (e : Event) : Prop :=
  ∃ path o ns s n, Reached config target nodes scope path (.object o) ns s ∧ n ∈ ns ∧
    OwnEvent config s path o n e

mutual

theorem reachedEvent_of_field : ∀ (n : Node) {ns : List Node} {s : Scope} {path : Path}
    {o : Object Graph}, Reached config target nodes scope path (.object o) ns s → n ∈ ns →
    e ∈ fieldEvents config s path o n → ReachedEvent config target nodes scope e
  | ⟨m, children, order⟩, ns, s, path, o, hr, hn, he => by
    by_cases hp : s.permits m = true
    · cases ha : o.attribute? m with
      | none =>
        rw [fieldEvents_missing hp ha, List.mem_singleton] at he
        subst he
        exact ⟨path, o, ns, s, _, hr, hn, .missing hp ha⟩
      | some v =>
        cases children with
        | none =>
          rw [fieldEvents_plain hp ha rfl] at he
          cases he
        | some children =>
          rw [fieldEvents_nested hp ha rfl] at he
          rcases List.mem_append.1 he with he | he
          · obtain ⟨d, hd, rfl⟩ := List.mem_map.1 he
            exact ⟨path, o, ns, s, _, hr, hn, .unordered hp ha rfl hd⟩
          · obtain ⟨p, o', hr', he⟩ := exists_object_of_mem
              (P := fun p g => Reached config target nodes scope p g children (s.under m))
              (fun _ => .element) _ _ (hr.field hn hp rfl ha) he
            exact reachedEvent_of_fields children hr' (List.Subset.refl _) he
    · rw [fieldEvents_denied hp, List.mem_singleton] at he
      subst he
      exact ⟨path, o, ns, s, _, hr, hn, .denied hp⟩

theorem reachedEvent_of_fields : ∀ (ms : List Node) {ns : List Node} {s : Scope} {path : Path}
    {o : Object Graph}, Reached config target nodes scope path (.object o) ns s → ms ⊆ ns →
    e ∈ fieldsEvents config s path o ms → ReachedEvent config target nodes scope e
  | [], _, _, _, _, _, _, he => nomatch he
  | m :: ms, ns, s, path, o, hr, hsub, he => by
    rw [List.cons_subset] at hsub
    rcases List.mem_append.1 he with he | he
    · exact reachedEvent_of_field m hr hsub.1 he
    · exact reachedEvent_of_fields ms hr hsub.2 he

end

/-- The events of a projection are those of the fields of the objects that it reaches. -/
theorem mem_events_iff :
    e ∈ events config target nodes scope ↔ ReachedEvent config target nodes scope e := by
  constructor
  · intro he
    obtain ⟨p, o, hr, he⟩ := exists_object_of_mem
      (P := fun p g => Reached config target nodes scope p g nodes scope)
      (fun _ => .element) _ _ .target he
    exact reachedEvent_of_fields nodes hr (List.Subset.refl _) he
  · rintro ⟨path, o, ns, s, n, hr, hn, he⟩
    exact hr.eventsAt_subset (fieldEvents_subset hn he.mem)

end Facet.Projector
