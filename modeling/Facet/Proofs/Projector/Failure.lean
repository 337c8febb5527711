import Facet.Graph.OfJson
import Facet.Proofs.Projector.Reached

/-!
# Failing projections

Which graphs a projection visits, with which selection and within which scope, is said without the
projector (`Visited`): the target with what is asked of it, the elements of a visited sequence with
the same, and the value of a permitted field with braces, in order, with the selection in them. A
projection fails exactly if an object that is visited lacks a selected attribute that the scope
permits; the error names the first such attribute on the way, and the diagnostics are those of the
way up to it (`project_fails`).
-/

set_option autoImplicit false

namespace Facet.Projector

open Selector (Node)

variable {config : ProjectorConfig} {target g : Graph} {nodes ns : List Node} {scope s : Scope}
  {o : Object Graph}

/-- The graph is visited with the selection and within the scope, in a projection of the target. -/
inductive Visited (config : ProjectorConfig) (target : Graph) (nodes : List Node) (scope : Scope) :
    Graph → List Node → Scope → Prop
  | target : Visited config target nodes scope target nodes scope
  | element {elements : List Graph} {declared : Option Schema}
      {native : Option (List ((String × Direction) × List Graph))} {g : Graph} {ns : List Node}
      {s : Scope} : Visited config target nodes scope (.sequence elements declared native) ns s →
      g ∈ elements → Visited config target nodes scope g ns s
  | field {o : Object Graph} {ns : List Node} {s : Scope} {n : Node} {children : List Node}
      {v : Graph} : Visited config target nodes scope (.object o) ns s → n ∈ ns →
      s.permits n.name = true → n.children = some children → o.attribute? n.name = some v →
      Visited config target nodes scope (ordered config n.order v) children (s.under n.name)

/-- What is visited from a visited graph is visited. -/
theorem Visited.trans {h : Graph} {ms : List Node} {t : Scope}
    (hg : Visited config target nodes scope g ns s) (hh : Visited config g ns s h ms t) :
    Visited config target nodes scope h ms t := by
  induction hh with
  | target => exact hg
  | element _ hm ih => exact ih.element hm
  | field _ hn hp hc ha ih => exact ih.field hn hp hc ha

/-- What is visited is the target, or is visited from an element or a field of it. `Visited` is built
from the end of the way, so its beginning needs an induction. -/
theorem Visited.cases_head (h : Visited config target nodes scope g ns s) :
    (g = target ∧ ns = nodes ∧ s = scope) ∨
    (∃ elements declared native e, target = .sequence elements declared native ∧ e ∈ elements ∧
      Visited config e nodes scope g ns s) ∨
    ∃ o n ms v, target = .object o ∧ n ∈ nodes ∧ scope.permits n.name = true ∧
      n.children = some ms ∧ o.attribute? n.name = some v ∧
      Visited config (ordered config n.order v) ms (scope.under n.name) g ns s := by
  induction h with
  | target => exact .inl ⟨rfl, rfl, rfl⟩
  | element _ hg ih =>
    rcases ih with ⟨rfl, rfl, rfl⟩ | ⟨_, _, _, e, ht, he, hv⟩ | ⟨o, n, ms, v, ht, hn, hp, hc, ha, hv⟩
    · exact .inr (.inl ⟨_, _, _, _, rfl, hg, .target⟩)
    · exact .inr (.inl ⟨_, _, _, e, ht, he, hv.element hg⟩)
    · exact .inr (.inr ⟨o, n, ms, v, ht, hn, hp, hc, ha, hv.element hg⟩)
  | field _ hm hmp hmc hma ih =>
    rcases ih with ⟨rfl, rfl, rfl⟩ | ⟨_, _, _, e, ht, he, hv⟩ | ⟨o, n, ms, v, ht, hn, hp, hc, ha, hv⟩
    · exact .inr (.inr ⟨_, _, _, _, rfl, hm, hmp, hmc, hma, .target⟩)
    · exact .inr (.inl ⟨_, _, _, e, ht, he, hv.field hm hmp hmc hma⟩)
    · exact .inr (.inr ⟨o, n, ms, v, ht, hn, hp, hc, ha, hv.field hm hmp hmc hma⟩)

/-- The object lacks the attribute of a selected field that the scope permits. -/
structure Lacks (o : Object Graph) (ns : List Node) (s : Scope) (name : String) : Prop where
  selected : ∃ n ∈ ns, n.name = name
  permitted : s.permits name = true
  absent : o.attribute? name = none

/-- The object is visited, and lacks the attribute of a permitted field. -/
def VisitedLacking (config : ProjectorConfig) (target : Graph) (nodes : List Node) (scope : Scope)
    (o : Object Graph) (name : String) : Prop :=
  ∃ ns s, Visited config target nodes scope (.object o) ns s ∧ Lacks o ns s name

/-! ## Events of visited objects -/

/-- What is visited is what is reached, wherever that is. -/
theorem visited_iff_exists_reached : Visited config target nodes scope g ns s ↔
    ∃ path, Reached config target nodes scope path g ns s := by
  constructor
  · intro h
    induction h with
    | target => exact ⟨[], .target⟩
    | element _ hg ih =>
      obtain ⟨path, hr⟩ := ih
      obtain ⟨i, hi⟩ := List.mem_iff_getElem?.1 hg
      exact ⟨path.index i, hr.element hi⟩
    | field _ hn hp hc ha ih =>
      obtain ⟨path, hr⟩ := ih
      exact ⟨path.key _, hr.field hn hp hc ha⟩
  · rintro ⟨path, h⟩
    induction h with
    | target => exact .target
    | element _ hg ih => exact ih.element (List.mem_of_getElem? hg)
    | field _ hn hp hc ha ih => exact ih.field hn hp hc ha

/-- The attributes that are missed on the way are those that visited objects lack. -/
theorem missing_mem_events_iff {name : String} :
    .missing o name ∈ events config target nodes scope ↔
      VisitedLacking config target nodes scope o name := by
  rw [mem_events_iff]
  constructor
  · rintro ⟨path, o, ns, s, n, hr, hn, he⟩
    obtain _ | ⟨hp, ha⟩ := he
    exact ⟨ns, s, visited_iff_exists_reached.2 ⟨path, hr⟩, ⟨n, hn, rfl⟩, hp, ha⟩
  · rintro ⟨ns, s, hv, hl⟩
    obtain ⟨path, hr⟩ := visited_iff_exists_reached.1 hv
    obtain ⟨n, hn, rfl⟩ := hl.selected
    exact ⟨path, o, ns, s, n, hr, hn, .missing hl.permitted hl.absent⟩

/-! ## The outcome -/

/-- **When a projection fails, and with what.** It fails exactly if an object that is visited lacks
a selected attribute that the scope permits. The error is that of the first event in which an
attribute is missing, and the diagnostics that are left are those of the events before it; a
projection that succeeds leaves those of all events. -/
theorem project_fails (config : ProjectorConfig) (target : Graph) (nodes : List Node)
    (scope : Scope) (ds : Diagnostics) :
    ((∃ e, ((project config target nodes scope).run ds).1 = .error e) ↔
      ∃ o name, VisitedLacking config target nodes scope o name) ∧
    (∀ e, ((project config target nodes scope).run ds).1 = .error e →
      ∃ before o name after,
        events config target nodes scope = before ++ .missing o name :: after ∧ Complete before ∧
        VisitedLacking config target nodes scope o name ∧
        e = .attributeNotFound o.typeName name ∧
        ((project config target nodes scope).run ds).2 = ds ++ notes config before) ∧
    (∀ p, ((project config target nodes scope).run ds).1 = .ok p →
      ((project config target nodes scope).run ds).2 =
        ds ++ notes config (events config target nodes scope)) := by
  rcases meets_project config target nodes scope ds with
    ⟨hc, p, hr⟩ | ⟨before, o, name, after, he, hb, hr⟩
  · rw [hr]
    refine ⟨⟨?_, ?_⟩, ?_, fun _ _ => rfl⟩
    · rintro ⟨e, h⟩
      cases h
    · rintro ⟨o, name, hl⟩
      exact absurd (missing_mem_events_iff.2 hl) (hc o name)
    · intro e h
      cases h
  · have hl : VisitedLacking config target nodes scope o name := by
      rw [← missing_mem_events_iff, he]
      exact List.mem_append_right _ (.head _)
    rw [hr]
    refine ⟨⟨fun _ => ⟨o, name, hl⟩, fun _ => ⟨_, rfl⟩⟩, ?_, ?_⟩
    · intro e h
      cases h
      exact ⟨before, o, name, after, he, hb, hl, rfl, rfl⟩
    · intro p h
      cases h

/-- The first post has no title. The secret before it is denied and noted, the one after it is not
come to. -/
example :
    let posts := Json.array [.object [("secret", .null)], .object [("secret", .null)]]
    let nodes : List Node := [⟨"posts", some [⟨"secret", none, none⟩, ⟨"title", none, none⟩], none⟩]
    let scope := Scope.restricted [.scoped "posts" [.leaf "title"]]
    (project .default (.ofJson (.object [("posts", posts)])) nodes scope).run [] =
      (.error (.attributeNotFound "object" "title"),
        [⟨.fieldNotPermitted, "Field posts[0].secret is not permitted"⟩]) := by
  cbv

end Facet.Projector
