import Facet.Proofs.Projector.Outcome

/-!
# What a traversal comes upon

`events config target nodes scope` lists what a selection comes upon in a graph, depth first and
without an end at the first error: fields that the scope denies, values that cannot be ordered, and
attributes that objects lack. A projection follows this list up to the first missing attribute
(`meets_project`): it fails there or, if none is missing, succeeds, and the diagnostics that it adds
are those of the events before (`notes`).
-/

set_option autoImplicit false

namespace Facet.Projector

open Selector (Node OrderDirective)

/-! ## Events -/

/-- What a traversal comes upon, apart from values. -/
inductive Event where
  /-- A selected field, at the path, that the scope denies. -/
  | denied (path : Path)
  /-- A value that is not put in the order that is requested for it. -/
  | unordered (d : Diagnostic)
  /-- A selected field that the scope permits and the object lacks. -/
  | missing (o : Object Graph) (name : String)

/-- The diagnostics of an event. -/
def Event.notes (config : ProjectorConfig) : Event → Diagnostics
  | .denied path =>
    if config.diagnoseDenied then
      [⟨.fieldNotPermitted, "Field " ++ placeText path ++ " is not permitted"⟩]
    else []
  | .unordered d => [d]
  | .missing _ _ => []

/-- The diagnostics of events, in order. -/
def notes (config : ProjectorConfig) (es : List Event) : Diagnostics :=
  es.flatMap (Event.notes config)

/-- No attribute is missing. -/
def Complete (es : List Event) : Prop := ∀ o name, .missing o name ∉ es

theorem notes_append (config : ProjectorConfig) (es fs : List Event) :
    notes config (es ++ fs) = notes config es ++ notes config fs := List.flatMap_append

theorem complete_nil : Complete [] := fun _ _ => List.not_mem_nil

theorem Complete.append {es fs : List Event} (h : Complete es) (h' : Complete fs) :
    Complete (es ++ fs) := by
  intro o name hm
  rcases List.mem_append.1 hm with hm | hm
  · exact h o name hm
  · exact h' o name hm

/-! ## The traversal -/

section
variable (rule : Path → Object Graph → List Event)

mutual

/-- The events of the value at a path, by a rule for objects: a sequence has those of elements. -/
def walkEvents (path : Path) : Graph → List Event
  | .scalar _ => []
  | .object o => rule path o
  | .sequence elements _ _ => walkAllEvents path 0 elements

/-- The events of elements, the first of which has the index. -/
def walkAllEvents (path : Path) (i : Nat) : List Graph → List Event
  | [] => []
  | g :: gs => walkEvents (path.index i) g ++ walkAllEvents path (i + 1) gs

end

end

mutual

/-- The events of the selected fields of the object at a path, one after the other. -/
def fieldsEvents (config : ProjectorConfig) (scope : Scope) (path : Path) (o : Object Graph) :
    List Node → List Event
  | [] => []
  | n :: ns => fieldEvents config scope path o n ++ fieldsEvents config scope path o ns

/-- The events of a selected field: with braces, those of its value in order. -/
def fieldEvents (config : ProjectorConfig) (scope : Scope) (path : Path) (o : Object Graph) :
    Node → List Event
  | ⟨name, children, order⟩ =>
    if scope.permits name then
      match o.attribute? name with
      | none => [.missing o name]
      | some value =>
        match children with
        | none => []
        | some nodes =>
          (orderNotes config (path.key name) order value).map .unordered ++
            walkEvents (fun path o => fieldsEvents config (scope.under name) path o nodes)
              (path.key name) (ordered config order value)
    else [.denied (path.key name)]

end

/-- The events of the value at a path, through a selection and within a scope. -/
def eventsAt (config : ProjectorConfig) (nodes : List Node) (scope : Scope) (path : Path)
    (g : Graph) : List Event :=
  walkEvents (fun path o => fieldsEvents config scope path o nodes) path g

/-- The events of a target. -/
def events (config : ProjectorConfig) (target : Graph) (nodes : List Node) (scope : Scope) :
    List Event := eventsAt config nodes scope [] target

section
variable {config : ProjectorConfig} {scope : Scope} {path : Path} {o : Object Graph} {n : Node}

theorem fieldEvents_denied (h : ¬scope.permits n.name = true) :
    fieldEvents config scope path o n = [.denied (path.key n.name)] := by
  obtain ⟨name, children, order⟩ := n
  rw [fieldEvents, if_neg h]

theorem fieldEvents_missing (h : scope.permits n.name = true) (ha : o.attribute? n.name = none) :
    fieldEvents config scope path o n = [.missing o n.name] := by
  obtain ⟨name, children, order⟩ := n
  simp only at h ha
  rw [fieldEvents, if_pos h]
  simp only [ha]

theorem fieldEvents_plain {v : Graph} (h : scope.permits n.name = true)
    (ha : o.attribute? n.name = some v) (hc : n.children = none) :
    fieldEvents config scope path o n = [] := by
  obtain ⟨name, children, order⟩ := n
  simp only at h ha hc
  rw [fieldEvents, if_pos h]
  simp only [ha, hc]

theorem fieldEvents_nested {v : Graph} {nodes : List Node} (h : scope.permits n.name = true)
    (ha : o.attribute? n.name = some v) (hc : n.children = some nodes) :
    fieldEvents config scope path o n =
      (orderNotes config (path.key n.name) n.order v).map .unordered ++
        eventsAt config nodes (scope.under n.name) (path.key n.name)
          (ordered config n.order v) := by
  obtain ⟨name, children, order⟩ := n
  simp only at h ha hc
  rw [fieldEvents, if_pos h]
  simp only [ha, hc]
  rfl

end

/-! ## Runs and events -/

section
variable {α β : Type} {config : ProjectorConfig}

/-- The run follows the events to their end and succeeds, or up to the first missing attribute and
fails there. It adds the diagnostics of the events that it passes. -/
def Meets (config : ProjectorConfig) (x : Run α) (es : List Event) : Prop :=
  ∀ ds : Diagnostics, (Complete es ∧ ∃ a, x.run ds = (.ok a, ds ++ notes config es)) ∨
    ∃ before o name after, es = before ++ .missing o name :: after ∧ Complete before ∧
      x.run ds = (.error (.attributeNotFound o.typeName name), ds ++ notes config before)

namespace Meets

theorem pure (a : α) : Meets config (pure a) [] :=
  fun ds => .inl ⟨complete_nil, a, by rw [Run.run_pure, notes, List.flatMap_nil, List.append_nil]⟩

theorem missing (o : Object Graph) (name : String) :
    Meets (α := α) config (throw (.attributeNotFound o.typeName name)) [.missing o name] := by
  intro ds
  refine .inr ⟨[], o, name, [], rfl, complete_nil, ?_⟩
  rw [notes, List.flatMap_nil, List.append_nil]
  rfl

theorem bind {x : Run α} {f : α → Run β} {es fs : List Event} (hx : Meets config x es)
    (hf : ∀ a, Run.Returns x a → Meets config (f a) fs) : Meets config (x >>= f) (es ++ fs) := by
  intro ds
  rcases hx ds with ⟨hes, a, hr⟩ | ⟨before, o, name, after, rfl, hb, hr⟩
  · have ha : Run.Returns x a := ⟨ds, by rw [hr]⟩
    have hrun : (x >>= f).run ds = (f a).run (ds ++ notes config es) := by
      rw [Run.run_bind, hr]
    rcases hf a ha (ds ++ notes config es) with
      ⟨hfs, b, hr'⟩ | ⟨before, o, name, after, rfl, hb, hr'⟩
    · refine .inl ⟨hes.append hfs, b, ?_⟩
      rw [hrun, hr', notes_append, List.append_assoc]
    · refine .inr ⟨es ++ before, o, name, after, by rw [List.append_assoc], hes.append hb, ?_⟩
      rw [hrun, hr', notes_append, List.append_assoc]
  · -- the run ends in its first part, and the events of the second are not met
    refine .inr ⟨before, o, name, after ++ fs, by simp, hb, ?_⟩
    rw [Run.run_bind, hr]

theorem map {x : Run α} {es : List Event} (f : α → β) (hx : Meets config x es) :
    Meets config (f <$> x) es := by
  have h := hx.bind (f := fun a => Pure.pure (f a)) fun a _ => .pure (f a)
  rw [List.append_nil] at h
  exact h

end Meets

theorem meets_noteDenied (path : Path) : Meets config (noteDenied config path) [.denied path] := by
  refine fun ds => .inl ⟨fun _ _ hm => by simp at hm, (), ?_⟩
  rw [notes, List.flatMap_singleton, Event.notes, noteDenied]
  split
  · rfl
  · rw [List.append_nil]
    rfl

theorem meets_inOrder (path : Path) (order : Option OrderDirective) (value : Graph) :
    Meets config (inOrder config path order value)
      ((orderNotes config path order value).map .unordered) := by
  refine fun ds => .inl ⟨fun _ _ hm => by simp at hm, ordered config order value, ?_⟩
  rw [run_inOrder, notes, List.flatMap_map]
  simp [Event.notes]

section
variable {rule : Path → Object Graph → Run Projection} {rule' : Path → Object Graph → List Event}

mutual

/-- A walk follows the events of the walked value if its rule follows those of objects. -/
theorem meets_walk (h : ∀ path o, Meets config (rule path o) (rule' path o)) :
    ∀ (path : Path) (g : Graph), Meets config (walk rule path g) (walkEvents rule' path g)
  | _, .scalar _ => .pure _
  | path, .object o => h path o
  | path, .sequence elements _ _ => (meets_walkAll h path 0 elements).map _

theorem meets_walkAll (h : ∀ path o, Meets config (rule path o) (rule' path o)) :
    ∀ (path : Path) (i : Nat) (gs : List Graph),
      Meets config (walkAll rule path i gs) (walkAllEvents rule' path i gs)
  | _, _, [] => .pure _
  | path, i, g :: gs =>
    (meets_walk h (path.index i) g).bind fun p _ =>
      (meets_walkAll h path (i + 1) gs).map (p :: ·)

end

end

mutual

/-- A selected field is projected along its events. -/
theorem meets_projectField (config : ProjectorConfig) (scope : Scope) (path : Path)
    (o : Object Graph) : ∀ n : Node,
      Meets config (projectField config scope path o n) (fieldEvents config scope path o n)
  | ⟨name, children, order⟩ => by
    by_cases h : scope.permits name = true
    · cases ha : o.attribute? name with
      | none =>
        rw [projectField_missing h ha, fieldEvents_missing h ha]
        exact .missing o name
      | some v =>
        cases children with
        | none =>
          rw [projectField_plain h ha rfl, fieldEvents_plain h ha rfl]
          exact .pure _
        | some nodes =>
          rw [projectField_nested h ha rfl, fieldEvents_nested h ha rfl]
          refine (meets_inOrder _ order v).bind fun w hw => ?_
          obtain rfl := returns_inOrder hw
          exact .map _ (meets_walk (fun p o' =>
            .map _ (meets_projectFields config (scope.under name) p o' [] nodes)) _ _)
    · rw [projectField_denied h, fieldEvents_denied h]
      exact .map (fun _ => none) (meets_noteDenied _)

/-- The fields of an object are projected along their events, whatever is projected before them. -/
theorem meets_projectFields (config : ProjectorConfig) (scope : Scope) (path : Path)
    (o : Object Graph) (done : Members Projection) : ∀ ns : List Node,
      Meets config (projectFields config scope path o done ns) (fieldsEvents config scope path o ns)
  | [] => .pure _
  | n :: ns => by
    rw [projectFields_cons, fieldsEvents]
    exact (meets_projectField config scope path o n).bind fun v _ =>
      meets_projectFields config scope path o (settle done n.name v) ns

end

/-- A projection follows the events of its target. -/
theorem meets_project (config : ProjectorConfig) (target : Graph) (nodes : List Node)
    (scope : Scope) :
    Meets config (project config target nodes scope) (events config target nodes scope) :=
  .map _ (meets_walk (fun p o => .map _ (meets_projectFields config scope p o [] nodes)) [] target)

end

end Facet.Projector
