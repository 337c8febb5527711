import Facet.Proofs.Projector.Steps

/-!
# Pruned selections

A scope can be applied to a selection before anything is read: `prune scope nodes` drops every node
that the scope denies, at each depth by the scope that holds there. Projecting the pruned selection
without any restriction has the outcome that projecting the whole selection within the scope has, and
records the same diagnostics but for the notes of denied fields (`project_prune`). So checking a field
when the walk comes to it lets through neither more nor less than not asking for it.
-/

set_option autoImplicit false

namespace Facet.Selector

mutual

/-- The node with its children pruned by the scope under its field. -/
def Node.pruned (scope : Scope) : Node → Node
  | ⟨name, none, order⟩ => ⟨name, none, order⟩
  | ⟨name, some nodes, order⟩ => ⟨name, some (prune (scope.under name) nodes), order⟩

/-- The selection without the nodes that the scope denies. -/
def prune (scope : Scope) : List Node → List Node
  | [] => []
  | n :: ns => if scope.permits n.name then n.pruned scope :: prune scope ns else prune scope ns

end

@[simp] theorem Node.pruned_name (scope : Scope) (n : Node) : (n.pruned scope).name = n.name := by
  obtain ⟨name, _ | nodes, order⟩ := n <;> rfl

@[simp] theorem Node.pruned_order (scope : Scope) (n : Node) :
    (n.pruned scope).order = n.order := by
  obtain ⟨name, _ | nodes, order⟩ := n <;> rfl

@[simp] theorem Node.pruned_children (scope : Scope) (n : Node) :
    (n.pruned scope).children = n.children.map (prune (scope.under n.name)) := by
  obtain ⟨name, _ | nodes, order⟩ := n <;> rfl

end Facet.Selector

namespace Facet.Projector

open Selector (Node prune)

/-- Is the diagnostic about anything but a denied field? -/
def isNoDenial (d : Diagnostic) : Bool := d.kind ≠ .fieldNotPermitted

/-- A denied field leaves nothing but a note. -/
theorem agree_projectField_denied {config : ProjectorConfig} {scope : Scope} {path : Path}
    {o : Object Graph} {n : Node} (h : ¬scope.permits n.name = true) :
    Run.Agree isNoDenial (projectField config scope path o n) (pure none) := by
  rw [projectField_denied h]
  refine .bind (y := pure ()) (g := fun _ => pure none) ?_ fun _ => .pure _
  unfold noteDenied
  split
  · exact .note_pure rfl
  · exact .pure ()

mutual

/-- A permitted field is projected as it is for the pruned node. -/
theorem agree_projectField (config : ProjectorConfig) (scope : Scope) (path : Path)
    (o : Object Graph) : ∀ n : Node, scope.permits n.name = true →
      Run.Agree isNoDenial (projectField config scope path o n)
        (projectField config .unrestricted path o (n.pruned scope))
  | ⟨name, children, order⟩, h => by
    cases ha : o.attribute? name with
    | none =>
      rw [projectField_missing h ha, projectField_missing rfl (by simpa using ha)]
      simpa using .throw _
    | some v =>
      cases children with
      | none =>
        rw [projectField_plain h ha rfl, projectField_plain rfl (by simpa using ha) (by simp)]
        exact .pure _
      | some nodes =>
        have hc : (Node.pruned scope ⟨name, some nodes, order⟩).children =
            some (prune (scope.under name) nodes) := by simp
        rw [projectField_nested h ha rfl, projectField_nested rfl (by simpa using ha) hc]
        simp only [Node.pruned_name, Node.pruned_order]
        refine .bind ((steady_inOrder ..).agree _) fun w => .map _ ?_
        exact agree_walk (fun p o' => .map _ (agree_projectFields config _ p o' [] nodes)) _ w

/-- The fields of an object are projected as they are for the pruned selection. -/
theorem agree_projectFields (config : ProjectorConfig) (scope : Scope) (path : Path)
    (o : Object Graph) (done : Members Projection) : ∀ ns : List Node,
      Run.Agree isNoDenial (projectFields config scope path o done ns)
        (projectFields config .unrestricted path o done (prune scope ns))
  | [] => .pure _
  | n :: ns => by
    rw [projectFields_cons]
    by_cases h : scope.permits n.name = true
    · rw [prune, if_pos h, projectFields_cons]
      refine .bind (agree_projectField config scope path o n h) fun v => ?_
      rw [Node.pruned_name]
      exact agree_projectFields config scope path o _ ns
    · -- the denied node yields no value, and the fields after it are projected as without it
      rw [prune, if_neg h]
      exact .bind (y := pure none)
        (g := fun v => projectFields config .unrestricted path o (settle done n.name v)
          (prune scope ns))
        (agree_projectField_denied h) fun v => agree_projectFields config scope path o _ ns

end

/-- **Checking permissions is pruning the request**: within a scope a selection has the outcome that
its pruned form has without restriction, and the same diagnostics are recorded apart from the notes
of denied fields. -/
theorem project_prune (config : ProjectorConfig) (target : Graph) (nodes : List Node)
    (scope : Scope) (ds : Diagnostics) :
    ((project config target nodes scope).run ds).1 =
        ((project config target (prune scope nodes) .unrestricted).run ds).1 ∧
      ((project config target nodes scope).run ds).2.filter isNoDenial =
        ((project config target (prune scope nodes) .unrestricted).run ds).2.filter isNoDenial := by
  have h : Run.Agree isNoDenial (project config target nodes scope)
      (project config target (prune scope nodes) .unrestricted) :=
    .map _ (agree_walk (fun p o => .map _ (agree_projectFields config scope p o [] nodes)) [] target)
  exact h ds ds rfl

end Facet.Projector
