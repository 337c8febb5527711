import Facet.Graph.OfJson
import Facet.Proofs.Projector.Steps

/-!
# Projections that share a collector

A collector of diagnostics is only added to, and nobody looks at what is in it: whatever was recorded
before, a projection has one outcome and adds one list of diagnostics, also where it fails midway
(`steady_project`). So projections that are made in a row with one collector have the outcomes that
they have alone, and leave in it, one after the other, what each of them records alone
(`run_makeEach`).
-/

set_option autoImplicit false

namespace Facet

/-! ## Runs in a row -/

namespace Run

variable {α : Type}

/-- Makes runs in a row, each with the diagnostics that those before it leave. One that fails does not
keep the others from being made. -/
def makeEach : List (Run α) → StateM Diagnostics (List (Except Error α))
  | [] => pure []
  | x :: xs => do
    let outcome ← x.run
    let outcomes ← makeEach xs
    pure (outcome :: outcomes)

theorem run_makeEach_cons (x : Run α) (xs : List (Run α)) (ds : Diagnostics) :
    (makeEach (x :: xs)).run ds =
      ((x.run ds).1 :: ((makeEach xs).run (x.run ds).2).1, ((makeEach xs).run (x.run ds).2).2) := rfl

/-- Steady runs in a row do what each of them does alone. -/
theorem run_makeEach {xs : List (Run α)} (h : ∀ x ∈ xs, Steady x) (ds : Diagnostics) :
    (makeEach xs).run ds =
      (xs.map fun x => (x.run []).1, ds ++ xs.flatMap fun x => (x.run []).2) := by
  induction xs generalizing ds with
  | nil =>
    rw [List.flatMap_nil, List.append_nil]
    rfl
  | cons x xs ih =>
    obtain ⟨hx, hxs⟩ := List.forall_mem_cons.1 h
    rw [run_makeEach_cons, hx.run_eq ds, ih hxs, List.map_cons, List.flatMap_cons,
      List.append_assoc]

end Run

namespace Projector

open Selector (Node)

/-! ## Projections in a row -/

theorem steady_project (config : ProjectorConfig) (target : Graph) (nodes : List Node)
    (scope : Scope) : Run.Steady (project config target nodes scope) :=
  (steady_walk (steady_projectObject config nodes scope) [] target).map _

/-- A projection that is to be made. -/
structure Task where
  config : ProjectorConfig
  target : Graph
  nodes : List Node
  scope : Scope

namespace Task

def projection (t : Task) : Run Projection := project t.config t.target t.nodes t.scope

/-- What the projection yields if it is made alone. -/
def outcome (t : Task) : Except Error Projection := (t.projection.run []).1

/-- What the projection records if it is made alone. -/
def notes (t : Task) : Diagnostics := (t.projection.run []).2

end Task

/-- **A shared collector is only added to, and has no influence.** Whatever is in it, a projection has
the outcome that it has with an empty collector, and puts what it records there behind that, whether
it fails or not. So any projections in a row with one collector have the outcomes that they have
alone, and leave in it what each of them records alone. -/
theorem run_series :
    (∀ (t : Task) (ds : Diagnostics), t.projection.run ds = (t.outcome, ds ++ t.notes)) ∧
    ∀ (ts : List Task) (ds : Diagnostics), (Run.makeEach (ts.map Task.projection)).run ds =
      (ts.map Task.outcome, ds ++ ts.flatMap Task.notes) := by
  have hsteady : ∀ t : Task, Run.Steady t.projection := fun t =>
    steady_project t.config t.target t.nodes t.scope
  refine ⟨fun t ds => (hsteady t).run_eq ds, fun ts ds => ?_⟩
  have heach : ∀ x ∈ ts.map Task.projection, Run.Steady x := by
    intro x hx
    obtain ⟨t, -, rfl⟩ := List.mem_map.1 hx
    exact hsteady t
  rw [Run.run_makeEach heach, List.map_map, List.flatMap_map]
  rfl

/-- The first of two projections fails, after it has noted that it may not show the key; the second
is made all the same. -/
example :
    let target := Graph.ofJson (.object [("id", .null)])
    let scope := Scope.restricted [.leaf "id", .leaf "at"]
    let task := fun names : List String => Task.mk .default target (names.map (⟨·, none, none⟩)) scope
    let note : Diagnostic := ⟨.fieldNotPermitted, "Field key is not permitted"⟩
    (Run.makeEach ([task ["key", "at"], task ["key", "id"]].map Task.projection)).run [] =
      ([.error (.attributeNotFound "object" "at"), .ok (.object [("id", .scalar .null)])],
        [note, note]) := by
  cbv

end Projector

end Facet
