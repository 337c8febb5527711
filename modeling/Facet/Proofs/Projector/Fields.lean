import Facet.Graph.OfJson
import Facet.Proofs.Projector.Outcome
import Mathlib.Data.List.Forall2

/-!
# Fields one by one

An object is projected node by node. Its members are what the permitted nodes show, inserted one
after the other (`returns_projectFields_iff`); if the names of the nodes are distinct, that is one
member for each permitted node (`returns_projectFields_iff_of_nodup`). So a name that is repeated has
the place of its first node and the value of its last, but all its nodes are projected: each records
its diagnostics in its turn, and if one fails the projection fails (`project_node_by_node`).
-/

set_option autoImplicit false

namespace Facet.Projector

open Selector (Node Final)
open Run (Returns)

/-! ## Members -/

/-- The nodes of names that the scope permits. -/
def permitted (scope : Scope) (ns : List Node) : List Node := ns.filter fun n => scope.permits n.name

/-- The member is what the node shows of the object. -/
def Shows (config : ProjectorConfig) (scope : Scope) (path : Path) (o : Object Graph) (n : Node)
    (m : String × Projection) : Prop :=
  n.name = m.1 ∧ Returns (projectField config scope path o n) (some m.2)

section
variable {config : ProjectorConfig} {scope : Scope} {path : Path} {o : Object Graph}
  {done ms : Members Projection} {n : Node} {ns : List Node}

theorem keys_of_shows (h : List.Forall₂ (Shows config scope path o) ns ms) :
    Members.keys ms = ns.map Node.name := by
  induction h with
  | nil => rfl
  | cons hm _ ih => rw [List.map_cons, ← ih, hm.1]; rfl

theorem returns_projectField_denied_iff (h : ¬scope.permits n.name = true)
    {r : Option Projection} : Returns (projectField config scope path o n) r ↔ r = none := by
  refine ⟨returns_projectField_denied h, ?_⟩
  rintro rfl
  rw [projectField_denied h, noteDenied]
  split <;> exact ⟨[], rfl⟩

/-- The permitted nodes add what they show, one after the other. -/
theorem returns_projectFields_iff : Returns (projectFields config scope path o done ns) ms ↔
    ∃ ps, List.Forall₂ (Shows config scope path o) (permitted scope ns) ps ∧
      ps.foldl (fun ms p => Members.insert p.1 p.2 ms) done = ms := by
  induction ns generalizing done with
  | nil =>
    rw [projectFields, Run.returns_pure]
    simp [permitted]
  | cons n ns ih =>
    rw [projectFields_cons, Run.returns_bind_iff fun _ => steady_projectFields ..]
    by_cases hp : scope.permits n.name = true
    · have hcons : permitted scope (n :: ns) = n :: permitted scope ns := List.filter_cons_of_pos hp
      simp only [hcons, List.forall₂_cons_left_iff, ih]
      constructor
      · rintro ⟨r, hr, ps, hps, rfl⟩
        obtain ⟨v, p, -, rfl, -⟩ := returns_projectField hp hr
        exact ⟨_, ⟨(n.name, p), ps, ⟨rfl, hr⟩, hps, rfl⟩, rfl⟩
      · rintro ⟨_, ⟨⟨k, p⟩, ps, ⟨rfl, hr⟩, hps, rfl⟩, rfl⟩
        exact ⟨some p, hr, ps, hps, rfl⟩
    · have hcons : permitted scope (n :: ns) = permitted scope ns := List.filter_cons_of_neg hp
      simp only [hcons, returns_projectField_denied_iff hp, exists_eq_left, ih]
      rfl

/-- Nodes of distinct names have one member each, in their order. -/
theorem returns_projectFields_iff_of_nodup (hn : (ns.map Node.name).Nodup) :
    Returns (projectFields config scope path o [] ns) ms ↔
      List.Forall₂ (Shows config scope path o) (permitted scope ns) ms := by
  have hself : ∀ {ps}, List.Forall₂ (Shows config scope path o) (permitted scope ns) ps →
      ps.foldl (fun ms p => Members.insert p.1 p.2 ms) [] = ps := by
    intro ps hps
    refine Members.ofPairs_eq_self ?_
    rw [keys_of_shows hps]
    exact hn.sublist (List.filter_sublist.map Node.name)
  rw [returns_projectFields_iff]
  constructor
  · rintro ⟨ps, hps, rfl⟩
    rw [hself hps]
    exact hps
  · intro h
    exact ⟨ms, h, hself h⟩

theorem keys_projectFields (h : Returns (projectFields config scope path o [] ns) ms) :
    Members.keys ms = ((permitted scope ns).map Node.name).eraseDups := by
  obtain ⟨ps, hps, rfl⟩ := returns_projectFields_iff.1 h
  rw [← keys_of_shows hps]
  exact Members.keys_ofPairs ps

end

/-! ## Nodes alone -/

section
variable (config : ProjectorConfig) (scope : Scope) (o : Object Graph)

/-- What the node yields and records alone, if nothing was recorded before. -/
def fieldAlone (n : Node) : Except Error (Option Projection) × Diagnostics :=
  (projectField config scope [] o n).run []

/-- The projection of the object through the node alone. -/
def alone (n : Node) : Except Error Projection × Diagnostics :=
  (project config (.object o) [n] scope).run []

/-- The diagnostics that the nodes record alone, those of the first node first. -/
def notesAlone (ns : List Node) : Diagnostics := ns.flatMap fun n => (alone config scope o n).2

theorem run_project_object (ns : List Node) (ds : Diagnostics) :
    (project config (.object o) ns scope).run ds =
      (((projectFields config scope [] o [] ns).run ds).1.map .object,
        ((projectFields config scope [] o [] ns).run ds).2) := by
  rw [project_object, Run.run_map]

theorem alone_eq (n : Node) : alone config scope o n =
    ((fieldAlone config scope o n).1.map fun r => .object (settle [] n.name r),
      (fieldAlone config scope o n).2) := by
  have hsingle : projectFields config scope [] o [] [n] =
      settle [] n.name <$> projectField config scope [] o n := by
    rw [projectFields_cons, map_eq_pure_bind]
    rfl
  rw [alone, run_project_object, hsingle, Run.run_map, fieldAlone]
  cases ((projectField config scope [] o n).run []).1 <;> rfl

end

section
variable {config : ProjectorConfig} {scope : Scope} {o : Object Graph} {n : Node}

theorem alone_ok_iff : (∃ p, (alone config scope o n).1 = .ok p) ↔
    ∃ r, (fieldAlone config scope o n).1 = .ok r := by
  rw [alone_eq]
  cases (fieldAlone config scope o n).1 <;> simp [Except.map]

theorem alone_error_iff {e : Error} : (alone config scope o n).1 = .error e ↔
    (fieldAlone config scope o n).1 = .error e := by
  rw [alone_eq]
  cases (fieldAlone config scope o n).1 <;> simp [Except.map]

theorem alone_of_shows {k : String} {q : Projection} (h : Shows config scope [] o n (k, q)) :
    (alone config scope o n).1 = .ok (.object [(k, q)]) := by
  obtain ⟨rfl, hr⟩ := h
  have hfield : (fieldAlone config scope o n).1 = .ok (some q) :=
    ((steady_projectField config scope [] o n).returns_iff []).1 hr
  rw [alone_eq, hfield]
  rfl

end

/-- Nodes are projected one after the other: all of them, or up to the first that fails alone. -/
theorem run_projectFields (config : ProjectorConfig) (scope : Scope) (o : Object Graph)
    (done : Members Projection) (ns : List Node) (ds : Diagnostics) :
    (∃ ms, (∀ n ∈ ns, ∃ p, (alone config scope o n).1 = .ok p) ∧
      (projectFields config scope [] o done ns).run ds =
        (.ok ms, ds ++ notesAlone config scope o ns)) ∨
    ∃ before n after e, ns = before ++ n :: after ∧
      (∀ m ∈ before, ∃ p, (alone config scope o m).1 = .ok p) ∧
      (alone config scope o n).1 = .error e ∧
      (projectFields config scope [] o done ns).run ds =
        (.error e, ds ++ notesAlone config scope o (before ++ [n])) := by
  induction ns generalizing done ds with
  | nil =>
    refine .inl ⟨done, List.forall_mem_nil _, ?_⟩
    rw [notesAlone, List.flatMap_nil, List.append_nil]
    rfl
  | cons n ns ih =>
    have hnotes : ∀ ms, notesAlone config scope o (n :: ms) =
        (fieldAlone config scope o n).2 ++ notesAlone config scope o ms := by
      intro ms
      rw [notesAlone, List.flatMap_cons, alone_eq, ← notesAlone]
    have hrun := (steady_projectField config scope [] o n).run_eq ds
    rw [projectFields_cons, Run.run_bind, hrun, ← fieldAlone]
    cases hr : (fieldAlone config scope o n).1 with
    | error e =>
      refine .inr ⟨[], n, ns, e, rfl, List.forall_mem_nil _, alone_error_iff.2 hr, ?_⟩
      rw [List.nil_append, hnotes]
      simp [notesAlone]
    | ok r =>
      have hn : ∃ p, (alone config scope o n).1 = .ok p := alone_ok_iff.2 ⟨r, hr⟩
      rcases ih (settle done n.name r) (ds ++ (fieldAlone config scope o n).2) with
        ⟨ms, hall, hrun⟩ | ⟨before, m, after, e, rfl, hall, he, hrun⟩
      · refine .inl ⟨ms, List.forall_mem_cons.2 ⟨hn, hall⟩, ?_⟩
        rw [hnotes, ← List.append_assoc]
        exact hrun
      · refine .inr ⟨n :: before, m, after, e, rfl, List.forall_mem_cons.2 ⟨hn, hall⟩, he, ?_⟩
        rw [List.cons_append, hnotes, ← List.append_assoc]
        exact hrun

/-! ## The outcome -/

/-- **An object is projected node by node.** If all nodes succeed alone, so does the projection: it
has the distinct permitted names in the order in which they come first, each with the value that the
last node of the name has alone, and records what the nodes record alone, in their order. Otherwise
it fails as the first node does that fails alone, and records what the nodes up to that one record
alone. -/
theorem project_node_by_node (config : ProjectorConfig) (o : Object Graph) (nodes : List Node)
    (scope : Scope) (ds : Diagnostics) :
    (∃ ms, (∀ n ∈ nodes, ∃ p, (alone config scope o n).1 = .ok p) ∧
      (project config (.object o) nodes scope).run ds =
        (.ok (.object ms), ds ++ notesAlone config scope o nodes) ∧
      Members.keys ms = ((permitted scope nodes).map Node.name).eraseDups ∧
      ∀ k q, (k, q) ∈ ms → ∃ n, Final n nodes ∧ n.name = k ∧
        (alone config scope o n).1 = .ok (.object [(k, q)])) ∨
    ∃ before n after e, nodes = before ++ n :: after ∧
      (∀ m ∈ before, ∃ p, (alone config scope o m).1 = .ok p) ∧
      (alone config scope o n).1 = .error e ∧
      (project config (.object o) nodes scope).run ds =
        (.error e, ds ++ notesAlone config scope o (before ++ [n])) := by
  rw [run_project_object]
  rcases run_projectFields config scope o [] nodes ds with
    ⟨ms, hall, hrun⟩ | ⟨before, n, after, e, hsplit, hall, he, hrun⟩
  · have hms : Returns (projectFields config scope [] o [] nodes) ms := ⟨ds, by rw [hrun]⟩
    refine .inl ⟨ms, hall, by rw [hrun]; rfl, keys_projectFields hms, fun k q hm => ?_⟩
    obtain ⟨hback, -, -⟩ := returns_projectFields Members.nodup_keys_nil hms
    rcases hback k q hm with ⟨n, hn, hname, -, hr⟩ | ⟨hm, -⟩
    · exact ⟨n, hn, hname, alone_of_shows ⟨hname, hr⟩⟩
    · exact absurd hm List.not_mem_nil
  · exact .inr ⟨before, n, after, e, hsplit, hall, he, by rw [hrun]; rfl⟩

/-- The author comes first and in braces for the second time; what the first node lacks permission
for is noted. -/
example :
    let author := Json.object [("name", .string "a"), ("mail", .null)]
    let nodes : List Node := [⟨"author", some [⟨"mail", none, none⟩], none⟩, ⟨"id", none, none⟩,
      ⟨"author", some [⟨"name", none, none⟩], none⟩]
    let scope := Scope.restricted [.leaf "id", .scoped "author" [.leaf "name"]]
    (project .default (.ofJson (.object [("id", .null), ("author", author)])) nodes scope).run [] =
      (.ok (.object [("author", .object [("name", .scalar (.string "a"))]), ("id", .scalar .null)]),
        [⟨.fieldNotPermitted, "Field author.mail is not permitted"⟩]) := by
  cbv

end Facet.Projector
