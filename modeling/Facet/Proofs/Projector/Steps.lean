import Facet.Proofs.Arrangement
import Facet.Proofs.Run

/-!
# Steps of the projector

What each step of a projection does, one lemma for each: a selected field that is denied, missing,
plain or nested (`projectField_denied`, `projectField_missing`, `projectField_plain`,
`projectField_nested`), and the ordering of a value (`run_inOrder`), which permutes the elements of a
sequence (`exists_ordered_map`) and sorts them where it can (`projectField_sorted`).

A walk is as good as its rule for objects (`congruence_walk`). Settings act in two places, at a
denied field and at an order that is requested: a congruence that holds of what two settings do there
holds of whole projections (`congruence_projectFields`). So no step looks at earlier diagnostics
(`steady_projectFields`).
-/

set_option autoImplicit false

namespace Facet.Selector

mutual

/-- The orders that the node and those in its braces request of values with braces. -/
def Node.requestedOrders : Node → List OrderDirective
  | ⟨_, none, _⟩ => []
  | ⟨_, some nodes, order⟩ => order.toList ++ requestedOrders nodes

/-- The orders that a selection requests of values with braces, at every level. -/
def requestedOrders : List Node → List OrderDirective
  | [] => []
  | n :: ns => n.requestedOrders ++ requestedOrders ns

end

end Facet.Selector

namespace Facet.Projector

open Selector (Node OrderDirective requestedOrders)

/-! ## Fields -/

/-- The members of an object after a field: the value of a denied field is none. -/
def settle (done : Members Projection) (name : String) : Option Projection → Members Projection
  | none => done
  | some p => Members.insert name p done

theorem projectFields_cons (config : ProjectorConfig) (scope : Scope) (path : Path)
    (o : Object Graph) (done : Members Projection) (n : Node) (ns : List Node) :
    projectFields config scope path o done (n :: ns) =
      projectField config scope path o n >>= fun v =>
        projectFields config scope path o (settle done n.name v) ns := by
  rw [projectFields]
  congr 1
  funext v
  cases v <;> rfl

section
variable {config : ProjectorConfig} {scope : Scope} {path : Path} {o : Object Graph} {n : Node}

/-- The note of a denied field, if such fields are noted. -/
def noteDenied (config : ProjectorConfig) (path : Path) : Run Unit :=
  if config.diagnoseDenied then
    note .fieldNotPermitted ("Field " ++ placeText path ++ " is not permitted")
  else pure ()

theorem projectField_denied (h : ¬scope.permits n.name = true) :
    projectField config scope path o n =
      noteDenied config (path.key n.name) >>= fun _ => pure none := by
  obtain ⟨name, children, order⟩ := n
  rw [projectField, if_neg h, noteDenied]
  split <;> rfl

theorem projectField_missing (h : scope.permits n.name = true)
    (ha : o.attribute? n.name = none) :
    projectField config scope path o n = throw (.attributeNotFound o.typeName n.name) := by
  obtain ⟨name, children, order⟩ := n
  rw [projectField, if_pos h]
  split
  · rfl
  · next v hv => rw [ha] at hv; cases hv

theorem projectField_plain {v : Graph} (h : scope.permits n.name = true)
    (ha : o.attribute? n.name = some v) (hc : n.children = none) :
    projectField config scope path o n = pure (some (.leaf v)) := by
  obtain ⟨name, children, order⟩ := n
  subst hc
  rw [projectField, if_pos h]
  split
  · next hv => rw [ha] at hv; cases hv
  · next w hv => rw [ha] at hv; cases hv; rfl

theorem projectField_nested {v : Graph} {nodes : List Node} (h : scope.permits n.name = true)
    (ha : o.attribute? n.name = some v) (hc : n.children = some nodes) :
    projectField config scope path o n =
      inOrder config (path.key n.name) n.order v >>= fun value =>
        some <$> walk (projectObject config nodes (scope.under n.name)) (path.key n.name) value := by
  obtain ⟨name, children, order⟩ := n
  subst hc
  rw [projectField, if_pos h]
  split
  · next hv => rw [ha] at hv; cases hv
  · next w hv => rw [ha] at hv; cases hv; rfl

end

/-! ## Ordering -/

/-- The value that is projected in place of a value for which an order is requested. -/
def ordered (config : ProjectorConfig) (order : Option OrderDirective) (value : Graph) : Graph :=
  match order.bind OrderDirective.direction?, value with
  | some direction, .sequence elements _ native =>
    let arranged := Arrangement.arranged config.orderKey direction elements native
    Graph.plainSequence (arranged.toOption.getD elements)
  | _, _ => value

theorem ordered_of_not_sequence {config : ProjectorConfig} {order : Option OrderDirective}
    {g : Graph} (h : g.isSequence = false) : ordered config order g = g := by
  unfold ordered
  split
  · cases h
  · rfl

/-- A sequence without an order of its own is sorted; one that cannot be sorted stays as it is. -/
theorem ordered_sequence {order : Option OrderDirective} {direction : Direction}
    (h : order.bind OrderDirective.direction? = some direction) (config : ProjectorConfig)
    (gs : List Graph) (declared : Option Schema) :
    ordered config order (.sequence gs declared none) =
      .plainSequence ((Arrangement.sorted config.orderKey direction gs).toOption.getD gs) := by
  simp only [ordered, h, Arrangement.arranged]

/-- A sequence without an order of its own is put in order by sorting, if it can be sorted. -/
theorem inOrder_sorted {config : ProjectorConfig} {order : Option OrderDirective}
    {direction : Direction} {gs gs' : List Graph}
    (h : order.bind OrderDirective.direction? = some direction)
    (hs : Arrangement.sorted config.orderKey direction gs = .ok gs') (path : Path)
    (declared : Option Schema) :
    inOrder config path order (.sequence gs declared none) = pure (.plainSequence gs') := by
  obtain ⟨directive, rfl, hd⟩ := Option.bind_eq_some_iff.1 h
  simp only [inOrder, hd, Arrangement.arrange, Arrangement.arranged, hs]
  rfl

/-- A field with such a sequence is projected element by element in that order. -/
theorem projectField_sorted {config : ProjectorConfig} {scope : Scope} {path : Path}
    {o : Object Graph} {n : Node} {nodes : List Node} {direction : Direction} {gs gs' : List Graph}
    {declared : Option Schema} (h : scope.permits n.name = true)
    (ha : o.attribute? n.name = some (.sequence gs declared none)) (hc : n.children = some nodes)
    (hd : n.order.bind OrderDirective.direction? = some direction)
    (hs : Arrangement.sorted config.orderKey direction gs = .ok gs') :
    projectField config scope path o n =
      some <$> walk (projectObject config nodes (scope.under n.name)) (path.key n.name)
        (.plainSequence gs') := by
  rw [projectField_nested h ha hc, inOrder_sorted hd hs]
  rfl

/-- A sequence without an order of its own is put in order by a permutation of its elements, wherever
they come from. -/
theorem exists_ordered_map {α : Type} (config : ProjectorConfig) (order : Option OrderDirective)
    (f : α → Graph) (as : List α) (declared : Option Schema) :
    ∃ (as' : List α) (declared' : Option Schema), as'.Perm as ∧
      ordered config order (.sequence (as.map f) declared none) =
        .sequence (as'.map f) declared' none := by
  cases hd : order.bind OrderDirective.direction? with
  | none => exact ⟨as, declared, .refl as, by simp only [ordered, hd]⟩
  | some direction =>
    rw [ordered_sequence hd]
    cases hs : Arrangement.sorted config.orderKey direction (as.map f) with
    | error fault => exact ⟨as, none, .refl as, rfl⟩
    | ok gs =>
      obtain ⟨as', hp, rfl⟩ := Arrangement.exists_of_sorted_map hs
      exact ⟨as', none, hp, rfl⟩

/-- The diagnostics of ordering the value at a path: none if it is put in order. -/
def orderNotes (config : ProjectorConfig) (path : Path) (order : Option OrderDirective)
    (value : Graph) : Diagnostics :=
  match order with
  | none => []
  | some directive =>
    match directive.direction?, value with
    | none, _ => [⟨.invalidOrderDirection, "Unknown order " ++
        String.ofList (Text.quoted directive.token.toList) ++ " on " ++ placeText path⟩]
    | some direction, .sequence elements _ native =>
      match Arrangement.arranged config.orderKey direction elements native with
      | .ok _ => []
      | .error fault => [⟨fault.kind, "Cannot order " ++ placeText path ++ " by " ++
          config.orderKey ++ ": " ++ fault.reason⟩]
    | some _, _ => [⟨.unorderableCollection, "Cannot order " ++ placeText path ++ ": " ++
        value.kindName ++ " is not a collection"⟩]

/-- Ordering does not fail; what it yields and records does not depend on earlier diagnostics. -/
theorem run_inOrder (config : ProjectorConfig) (path : Path) (order : Option OrderDirective)
    (value : Graph) (ds : Diagnostics) : (inOrder config path order value).run ds =
      (.ok (ordered config order value), ds ++ orderNotes config path order value) := by
  unfold inOrder ordered orderNotes
  rcases order with _ | directive
  · simp only [Option.bind_none, List.append_nil]
    rfl
  · simp only [Option.bind_some]
    cases directive.direction? with
    | none => rfl
    | some direction =>
      cases value with
      | scalar s => rfl
      | object o => rfl
      | sequence elements declared native =>
        simp only [Arrangement.arrange]
        cases Arrangement.arranged config.orderKey direction elements native with
        | ok gs =>
          rw [List.append_nil]
          rfl
        | error fault => rfl

theorem steady_inOrder (config : ProjectorConfig) (path : Path) (order : Option OrderDirective)
    (value : Graph) : Run.Steady (inOrder config path order value) :=
  ⟨_, _, run_inOrder config path order value⟩

/-- What ordering records is about the order, never about permissions. -/
theorem kind_ne_of_mem_orderNotes {config : ProjectorConfig} {path : Path}
    {order : Option OrderDirective} {value : Graph} {d : Diagnostic}
    (h : d ∈ orderNotes config path order value) : d.kind ≠ .fieldNotPermitted := by
  unfold orderNotes at h
  split at h
  · cases h
  · split at h
    · rw [List.mem_singleton] at h
      subst h
      show DiagnosticKind.invalidOrderDirection ≠ .fieldNotPermitted
      decide
    · split at h
      · cases h
      · next fault _ =>
        rw [List.mem_singleton] at h
        subst h
        show fault.kind ≠ .fieldNotPermitted
        cases fault <;> exact nofun
    · rw [List.mem_singleton] at h
      subst h
      show DiagnosticKind.unorderableCollection ≠ .fieldNotPermitted
      decide

/-! ## Walks -/

section
variable {R : ∀ {α : Type}, Run α → Run α → Prop} {rule rule' : Path → Object Graph → Run Projection}

mutual

/-- A congruence between rules for objects is one between walks. -/
theorem congruence_walk (hR : Run.Congruence R) (h : ∀ path o, R (rule path o) (rule' path o)) :
    ∀ (path : Path) (g : Graph), R (walk rule path g) (walk rule' path g)
  | _, .scalar _ => hR.pure _
  | path, .object o => h path o
  | path, .sequence elements _ _ => hR.map _ (congruence_walkAll hR h path 0 elements)

theorem congruence_walkAll (hR : Run.Congruence R) (h : ∀ path o, R (rule path o) (rule' path o)) :
    ∀ (path : Path) (i : Nat) (gs : List Graph),
      R (walkAll rule path i gs) (walkAll rule' path i gs)
  | _, _, [] => hR.pure _
  | path, i, g :: gs =>
    hR.bind (congruence_walk hR h (path.index i) g) fun p =>
      hR.map (p :: ·) (congruence_walkAll hR h path (i + 1) gs)

end

end

/-- Walks agree if their rules for objects do. -/
theorem agree_walk {counts : Diagnostic → Bool} {rule rule' : Path → Object Graph → Run Projection}
    (h : ∀ path o, Run.Agree counts (rule path o) (rule' path o)) (path : Path) (g : Graph) :
    Run.Agree counts (walk rule path g) (walk rule' path g) :=
  congruence_walk (Run.congruence_agree counts) h path g

section
variable {rule : Path → Object Graph → Run Projection}

/-- Walks are steady if their rule for objects is. -/
theorem steady_walk (h : ∀ path o, Run.Steady (rule path o)) (path : Path) (g : Graph) :
    Run.Steady (walk rule path g) :=
  @congruence_walk (fun x _ => Run.Steady x) rule rule Run.congruence_steady h path g

theorem steady_walkAll (h : ∀ path o, Run.Steady (rule path o)) (path : Path) (i : Nat)
    (gs : List Graph) : Run.Steady (walkAll rule path i gs) :=
  @congruence_walkAll (fun x _ => Run.Steady x) rule rule Run.congruence_steady h path i gs

end

/-! ## Wrapping -/

/-- What is no sequence, or is not to be wrapped, stays as it is. -/
theorem wrap_eq_id {config : ProjectorConfig} {target : Graph}
    (h : ¬(target.isSequence ∧ config.wrapping = .data)) : wrap config target = id :=
  funext fun _ => if_neg h

/-- An object at the root is projected field by field. -/
theorem project_object (config : ProjectorConfig) (o : Object Graph) (nodes : List Node)
    (scope : Scope) : project config (.object o) nodes scope =
      Projection.object <$> projectFields config scope [] o [] nodes := by
  have hwrap : wrap config (.object o) = id := wrap_eq_id fun h => nomatch h.1
  rw [project, hwrap, id_map, walk, projectObject]

/-! ## Settings compared -/

section
variable {R : ∀ {α : Type}, Run α → Run α → Prop} (config config' : ProjectorConfig)

mutual

/-- A congruence that holds of what two settings do about a denied field and about each requested
order holds of the projections of a field. -/
theorem congruence_projectField (hR : Run.Congruence R)
    (hdenied : ∀ path, R (noteDenied config path) (noteDenied config' path)) (scope : Scope)
    (path : Path) (o : Object Graph) : ∀ n : Node,
      (∀ d ∈ n.requestedOrders, ∀ path value,
        R (inOrder config path (some d) value) (inOrder config' path (some d) value)) →
      R (projectField config scope path o n) (projectField config' scope path o n)
  | ⟨name, children, order⟩, h => by
    by_cases hp : scope.permits name = true
    · cases ha : o.attribute? name with
      | none =>
        rw [projectField_missing hp ha, projectField_missing hp ha]
        exact hR.throw _
      | some v =>
        cases children with
        | none =>
          rw [projectField_plain hp ha rfl, projectField_plain hp ha rfl]
          exact hR.pure _
        | some nodes =>
          rw [projectField_nested hp ha rfl, projectField_nested hp ha rfl]
          have hinOrder : ∀ path, R (inOrder config path order v) (inOrder config' path order v) := by
            intro path
            cases order with
            | none => exact hR.pure v
            | some d => exact h d (List.mem_append_left _ (.head [])) path v
          have hfields := fun d hd => h d (List.mem_append_right _ hd)
          refine hR.bind (hinOrder _) fun w => hR.map _ ?_
          exact congruence_walk hR (fun path o => hR.map _
            (congruence_projectFields hR hdenied (scope.under name) path o [] nodes hfields)) _ w
    · rw [projectField_denied hp, projectField_denied hp]
      exact hR.bind (hdenied _) fun _ => hR.pure none

/-- And of the projections of the fields of an object, whatever is projected before them. -/
theorem congruence_projectFields (hR : Run.Congruence R)
    (hdenied : ∀ path, R (noteDenied config path) (noteDenied config' path)) (scope : Scope)
    (path : Path) (o : Object Graph) (done : Members Projection) : ∀ ns : List Node,
      (∀ d ∈ requestedOrders ns, ∀ path value,
        R (inOrder config path (some d) value) (inOrder config' path (some d) value)) →
      R (projectFields config scope path o done ns) (projectFields config' scope path o done ns)
  | [], _ => hR.pure done
  | n :: ns, h => by
    have hfield := congruence_projectField hR hdenied scope path o n
      fun d hd => h d (List.mem_append_left _ hd)
    have hfields := fun d hd => h d (List.mem_append_right _ hd)
    rw [projectFields_cons, projectFields_cons]
    exact hR.bind hfield fun r =>
      congruence_projectFields hR hdenied scope path o (settle done n.name r) ns hfields

end

/-- So it holds of the walks that two projections make through a selection. -/
theorem congruence_walk_projectObject (hR : Run.Congruence R)
    (hdenied : ∀ path, R (noteDenied config path) (noteDenied config' path)) {nodes : List Node}
    (horder : ∀ d ∈ requestedOrders nodes, ∀ path value,
      R (inOrder config path (some d) value) (inOrder config' path (some d) value))
    (scope : Scope) (path : Path) (g : Graph) :
    R (walk (projectObject config nodes scope) path g)
      (walk (projectObject config' nodes scope) path g) :=
  congruence_walk hR (fun path o =>
    hR.map _ (congruence_projectFields config config' hR hdenied scope path o [] nodes horder))
    path g

end

/-! ## Steady steps -/

theorem steady_noteDenied (config : ProjectorConfig) (path : Path) :
    Run.Steady (noteDenied config path) := by
  unfold noteDenied
  split
  · exact .note _ _
  · exact .pure ()

section
variable (config : ProjectorConfig) (scope : Scope) (path : Path) (o : Object Graph)

theorem steady_projectField (n : Node) : Run.Steady (projectField config scope path o n) :=
  congruence_projectField config config Run.congruence_steady (steady_noteDenied config) scope path o
    n fun d _ path value => steady_inOrder config path (some d) value

theorem steady_projectFields (done : Members Projection) (ns : List Node) :
    Run.Steady (projectFields config scope path o done ns) :=
  congruence_projectFields config config Run.congruence_steady (steady_noteDenied config) scope path
    o done ns fun d _ path value => steady_inOrder config path (some d) value

end

theorem steady_projectObject (config : ProjectorConfig) (nodes : List Node) (scope : Scope)
    (path : Path) (o : Object Graph) : Run.Steady (projectObject config nodes scope path o) :=
  (steady_projectFields config scope path o [] nodes).map _

end Facet.Projector
