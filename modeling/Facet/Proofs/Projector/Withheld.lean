import Facet.Graph.OfJson
import Facet.Proofs.Projector.Reached

/-!
# Withheld fields

A field is withheld if its node is selected of an object that the projection reaches and the scope
there denies it. Where siblings have distinct names, the diagnostics of a successful projection
account for what is withheld (`project_withheld`): there is one for each withheld field, with the
path of the object and the name of the field, and at that path the projection has an object without
the name. Paths are compared as lists of steps, since two of them may have one text.
-/

set_option autoImplicit false

namespace Facet

/-! ## Following paths -/

/-- What one step down a projection leads to. -/
def Projection.step? (p : Projection) : Step → Option Projection
  | .key name => p.get? name
  | .index i => p.index? i

/-- What a path leads to in a projection. -/
def Projection.at? (p : Projection) (path : Path) : Option Projection :=
  path.foldlM Projection.step? p

theorem Projection.at?_snoc (p : Projection) (path : Path) (a : Step) :
    p.at? (path ++ [a]) = (p.at? path).bind (·.step? a) := by
  rw [Projection.at?, List.foldlM_append]
  simp [Projection.at?]

theorem Path.prefix_of_prefix_snoc {path q : Path} {a : Step} (h : path ++ [a] <+: q) :
    path <+: q := (List.prefix_append path [a]).trans h

theorem Path.eq_of_prefix_snoc {path q : Path} {a b : Step} (ha : path ++ [a] <+: q)
    (hb : path ++ [b] <+: q) : a = b := by
  obtain ⟨u, rfl⟩ := ha
  obtain ⟨v, hv⟩ := hb
  simp only [List.append_assoc, List.append_cancel_left_eq, List.singleton_append,
    List.cons.injEq] at hv
  exact hv.1.symm

namespace Projector

open Selector (Node OrderDirective Distinct)
open Run (Returns)

variable {config : ProjectorConfig} {target g : Graph} {nodes ns : List Node} {scope s : Scope}
  {path : Path} {o : Object Graph} {n : Node} {es fs : List Event}

/-- The node is selected of the object that is reached at the path, and the scope there denies it. -/
def Withheld (config : ProjectorConfig) (target : Graph) (nodes : List Node) (scope : Scope)
    (path : Path) (n : Node) : Prop :=
  ∃ o ns s, Reached config target nodes scope path (.object o) ns s ∧ n ∈ ns ∧
    ¬s.permits n.name = true

/-! ## One value at a path -/

theorem Reached.distinct (h : Reached config target nodes scope path g ns s)
    (hd : Distinct nodes) : Distinct ns := by
  induction h with
  | target => exact hd
  | element _ _ ih => exact ih
  | field _ hn _ hc _ ih => exact ih.children hn hc

/-- At a path there is one value, with one selection and one scope. -/
theorem Reached.unique {g' : Graph} {ns' : List Node} {s' : Scope} (hd : Distinct nodes)
    (h : Reached config target nodes scope path g ns s)
    (h' : Reached config target nodes scope path g' ns' s') : g = g' ∧ ns = ns' ∧ s = s' := by
  induction h generalizing g' ns' s' with
  | target =>
    generalize hq : ([] : Path) = q at h'
    cases h' with
    | target => exact ⟨rfl, rfl, rfl⟩
    | element => simp [Path.index] at hq
    | field => simp [Path.key] at hq
  | @element path elements _ _ i g ns s _ hi ih =>
    generalize hq : path.index i = q at h'
    cases h' with
    | target => simp [Path.index] at hq
    | element h' hi' =>
      obtain ⟨rfl, rfl⟩ : path = _ ∧ i = _ := by simpa [Path.index] using hq
      obtain ⟨he, rfl, rfl⟩ := ih h'
      cases he
      exact ⟨Option.some.inj (hi.symm.trans hi'), rfl, rfl⟩
    | field => simp [Path.index, Path.key] at hq
  | @field path o ns s n children v hr hn hp hc ha ih =>
    generalize hq : path.key n.name = q at h'
    cases h' with
    | target => simp [Path.key] at hq
    | element => simp [Path.index, Path.key] at hq
    | field h' hn' hp' hc' ha' =>
      obtain ⟨rfl, hname⟩ : path = _ ∧ n.name = _ := by simpa [Path.key] using hq
      obtain ⟨he, rfl, rfl⟩ := ih h'
      cases he
      obtain rfl := (hr.distinct hd).eq_of_name_eq hn hn' hname
      cases hc.symm.trans hc'
      cases ha.symm.trans ha'
      exact ⟨rfl, rfl, rfl⟩

theorem Withheld.unique {n' : Node} (hd : Distinct nodes)
    (h : Withheld config target nodes scope path n)
    (h' : Withheld config target nodes scope path n') (he : n.name = n'.name) : n = n' := by
  obtain ⟨o, ns, s, hr, hn, -⟩ := h
  obtain ⟨o', ns', s', hr', hn', -⟩ := h'
  obtain ⟨-, rfl, -⟩ := hr.unique hd hr'
  exact (hr.distinct hd).eq_of_name_eq hn hn' he

/-! ## Places of denied fields -/

/-- The path of a field that is denied. -/
def Event.denied? : Event → Option Path
  | .denied path => some path
  | _ => none

/-- The paths of the denied fields among events. -/
def places (es : List Event) : List Path := es.filterMap Event.denied?

@[simp] theorem places_append (es fs : List Event) : places (es ++ fs) = places es ++ places fs :=
  List.filterMap_append

theorem mem_places : path ∈ places es ↔ .denied path ∈ es := by
  rw [places, List.mem_filterMap]
  constructor
  · rintro ⟨e, he, hpath⟩
    cases e with
    | denied p =>
      cases hpath
      exact he
    | unordered d => cases hpath
    | missing o name => cases hpath
  · intro he
    exact ⟨.denied path, he, rfl⟩

/-- The denied fields of a projection are those that are withheld. -/
theorem mem_places_events {q : Path} : q ∈ places (events config target nodes scope) ↔
    ∃ path n, Withheld config target nodes scope path n ∧ q = path.key n.name := by
  rw [mem_places, mem_events_iff]
  constructor
  · rintro ⟨path, o, ns, s, n, hr, hn, he⟩
    obtain hp | _ := he
    exact ⟨path, n, ⟨o, ns, s, hr, hn, hp⟩, rfl⟩
  · rintro ⟨path, n, ⟨o, ns, s, hr, hn, hp⟩, rfl⟩
    exact ⟨path, o, ns, s, n, hr, hn, .denied hp⟩

/-- The denied fields are at different paths, all in a region. -/
structure Apart (region : Path → Prop) (es : List Event) : Prop where
  nodup : (places es).Nodup
  mem : ∀ q ∈ places es, region q

namespace Apart

variable {A B C : Path → Prop}

theorem of_places_eq_nil (h : places es = []) : Apart A es :=
  ⟨by rw [h]; exact List.nodup_nil, by rw [h]; exact List.forall_mem_nil _⟩

theorem mono (h : Apart A es) (hab : ∀ q, A q → B q) : Apart B es :=
  ⟨h.nodup, fun q hq => hab q (h.mem q hq)⟩

/-- Events in regions that do not meet. -/
theorem append (he : Apart A es) (hf : Apart B fs) (hab : ∀ q, A q → ¬B q)
    (ha : ∀ q, A q → C q) (hb : ∀ q, B q → C q) : Apart C (es ++ fs) := by
  constructor
  · rw [places_append, List.nodup_append]
    refine ⟨he.nodup, hf.nodup, fun q hq r hr hqr => ?_⟩
    subst hqr
    exact hab q (he.mem q hq) (hf.mem q hr)
  · intro q hq
    rw [places_append, List.mem_append] at hq
    rcases hq with hq | hq
    · exact ha q (he.mem q hq)
    · exact hb q (hf.mem q hq)

end Apart

section
variable {rule : Path → Object Graph → List Event}

mutual

theorem apart_walkEvents (h : ∀ path o, Apart (path <+: ·) (rule path o)) :
    ∀ (path : Path) (g : Graph), Apart (path <+: ·) (walkEvents rule path g)
  | _, .scalar _ => .of_places_eq_nil rfl
  | path, .object o => h path o
  | path, .sequence elements _ _ =>
    (apart_walkAllEvents h path 0 elements).mono fun _ ⟨_, _, hq⟩ =>
      Path.prefix_of_prefix_snoc hq

/-- Elements have their denied fields under different indexes. -/
theorem apart_walkAllEvents (h : ∀ path o, Apart (path <+: ·) (rule path o)) (path : Path)
    (i : Nat) : ∀ gs : List Graph,
      Apart (fun q => ∃ j, i ≤ j ∧ path.index j <+: q) (walkAllEvents rule path i gs)
  | [] => .of_places_eq_nil rfl
  | g :: gs => by
    refine (apart_walkEvents h (path.index i) g).append (apart_walkAllEvents h path (i + 1) gs)
      ?_ ?_ ?_
    · rintro q hq ⟨j, hj, hq'⟩
      have := Path.eq_of_prefix_snoc hq hq'
      simp only [Step.index.injEq] at this
      omega
    · intro q hq
      exact ⟨i, Nat.le_refl i, hq⟩
    · rintro q ⟨j, hj, hq⟩
      exact ⟨j, by omega, hq⟩

end

end

mutual

theorem apart_fieldEvents (config : ProjectorConfig) (scope : Scope) (path : Path)
    (o : Object Graph) : ∀ n : Node,
      (∀ children, n.children = some children → Distinct children) →
      Apart (path.key n.name <+: ·) (fieldEvents config scope path o n)
  | ⟨name, children, order⟩, hd => by
    by_cases hp : scope.permits name = true
    · cases ha : o.attribute? name with
      | none =>
        rw [fieldEvents_missing hp ha]
        exact .of_places_eq_nil rfl
      | some v =>
        cases children with
        | none =>
          rw [fieldEvents_plain hp ha rfl]
          exact .of_places_eq_nil rfl
        | some children =>
          rw [fieldEvents_nested hp ha rfl]
          have hnotes : places ((orderNotes config (path.key name) order v).map .unordered) = [] := by
            simp [places, Event.denied?]
          have hrule : ∀ p o', Apart (p <+: ·)
              (fieldsEvents config (scope.under name) p o' children) := fun p o' =>
            (apart_fieldsEvents config (scope.under name) p o' children (hd children rfl)).mono
              fun _ ⟨_, _, hq⟩ => Path.prefix_of_prefix_snoc hq
          exact (Apart.of_places_eq_nil (A := fun _ => False) hnotes).append
            (apart_walkEvents hrule _ _) (fun _ h => h.elim) (fun _ h => h.elim) fun _ h => h
    · rw [fieldEvents_denied hp]
      exact ⟨List.nodup_singleton _, by simp [places, Event.denied?]⟩

/-- Fields of different names have their denied fields under different keys. -/
theorem apart_fieldsEvents (config : ProjectorConfig) (scope : Scope) (path : Path)
    (o : Object Graph) : ∀ ns : List Node, Distinct ns →
      Apart (fun q => ∃ n ∈ ns, path.key n.name <+: q) (fieldsEvents config scope path o ns)
  | [], _ => .of_places_eq_nil rfl
  | n :: ns, hd => by
    refine (apart_fieldEvents config scope path o n fun _ hc => hd.children (.head ns) hc).append
      (apart_fieldsEvents config scope path o ns hd.cons.2) ?_ ?_ ?_
    · rintro q hq ⟨m, hm, hq'⟩
      have := Path.eq_of_prefix_snoc hq hq'
      simp only [Step.key.injEq] at this
      exact hd.cons.1 m hm this.symm
    · intro q hq
      exact ⟨n, .head ns, hq⟩
    · rintro q ⟨m, hm, hq⟩
      exact ⟨m, .tail n hm, hq⟩

end

theorem nodup_places_events (config : ProjectorConfig) (target : Graph) (scope : Scope)
    (hd : Distinct nodes) : (places (events config target nodes scope)).Nodup := by
  refine (apart_walkEvents (fun path o => ?_) [] target).nodup
  exact (apart_fieldsEvents config scope path o nodes hd).mono fun _ ⟨_, _, hq⟩ =>
    Path.prefix_of_prefix_snoc hq

/-! ## Notes on denied fields -/

/-- The diagnostic of a denied field. -/
def deniedNote (path : Path) : Diagnostic :=
  ⟨.fieldNotPermitted, "Field " ++ placeText path ++ " is not permitted"⟩

theorem filter_notes (hdiag : config.diagnoseDenied = true)
    (h : ∀ d, .unordered d ∈ es → d.kind ≠ .fieldNotPermitted) :
    (notes config es).filter (·.kind = .fieldNotPermitted) = (places es).map deniedNote := by
  induction es with
  | nil => rfl
  | cons e es ih =>
    have ih := ih fun d hd => h d (.tail e hd)
    rw [notes, List.flatMap_cons, List.filter_append, ← notes, ih]
    cases e with
    | denied path =>
      rw [Event.notes, if_pos hdiag]
      rfl
    | unordered d =>
      have hkind : ([d].filter fun d => d.kind = .fieldNotPermitted) = [] := by
        simp [h d (.head es)]
      rw [Event.notes, hkind]
      rfl
    | missing o name => rfl

/-- All notes on denied fields are from fields that are withheld. -/
theorem filter_notes_events (hdiag : config.diagnoseDenied = true) :
    (notes config (events config target nodes scope)).filter (·.kind = .fieldNotPermitted) =
      (places (events config target nodes scope)).map deniedNote := by
  refine filter_notes hdiag fun d hd => ?_
  obtain ⟨path, o, ns, s, n, -, -, he⟩ := mem_events_iff.1 hd
  obtain _ | _ | ⟨-, -, -, hd⟩ := he
  exact kind_ne_of_mem_orderNotes hd

/-! ## Objects at paths -/

/-- What is reached at a path has its projection there. -/
theorem Reached.exists_at {p : Projection} (hd : Distinct nodes)
    (hp : ∃ p', Returns (walk (projectObject config nodes scope) p' target) p)
    (h : Reached config target nodes scope path g ns s) :
    ∃ q, p.at? path = some q ∧ ∃ p', Returns (walk (projectObject config ns s) p' g) q := by
  induction h with
  | target => exact ⟨p, rfl, hp⟩
  | @element path elements _ _ i g ns s _ hi ih =>
    obtain ⟨q, hq, p', hr⟩ := ih
    obtain ⟨ps, rfl, hps⟩ := returns_walk_sequence hr
    obtain ⟨r, hget, hr⟩ := exists_right_of_getElem? hps hi
    refine ⟨r, ?_, hr⟩
    rw [Path.index, Projection.at?_snoc, hq]
    exact hget
  | @field path o ns s n children v hr hn hp hc ha ih =>
    obtain ⟨q, hq, p', hr'⟩ := ih
    obtain ⟨ms, rfl, hms⟩ := returns_walk_object hr'
    obtain ⟨r, hmem, hwalk⟩ := exists_mem_of_final hms ((hr.distinct hd).final hn) hp ha hc
    have hkeys := nodup_keys_projectFields Members.nodup_keys_nil hms
    refine ⟨r, ?_, hwalk⟩
    rw [Path.key, Projection.at?_snoc, hq]
    exact Members.get?_of_mem hkeys hmem

/-- A field that is withheld is missing from the object in its place. -/
theorem Withheld.exists_object {p : Projection} (hd : Distinct nodes)
    (hp : ∃ p', Returns (walk (projectObject config nodes scope) p' target) p)
    (h : Withheld config target nodes scope path n) :
    ∃ ms, p.at? path = some (.object ms) ∧ n.name ∉ Members.keys ms := by
  obtain ⟨o, ns, s, hr, -, hdenied⟩ := h
  obtain ⟨q, hq, p', hwalk⟩ := hr.exists_at hd hp
  obtain ⟨ms, rfl, hms⟩ := returns_walk_object hwalk
  refine ⟨ms, hq, fun hkey => ?_⟩
  obtain ⟨⟨k, r⟩, hm, rfl⟩ := List.mem_map.1 hkey
  obtain ⟨hback, -, -⟩ := returns_projectFields Members.nodup_keys_nil hms
  rcases hback _ r hm with ⟨-, -, -, hpermits, -⟩ | ⟨hm, -⟩
  · exact hdenied hpermits
  · exact absurd hm List.not_mem_nil

/-! ## The account -/

/-- Each place of a denied field is that of one withheld node. -/
theorem exists_withheld (config : ProjectorConfig) (target : Graph) (scope : Scope)
    (hd : Distinct nodes) : ∃ ws : List (Path × Node), ws.Nodup ∧
      ws.map (fun w => w.1.key w.2.name) = places (events config target nodes scope) ∧
      ∀ path n, (path, n) ∈ ws ↔ Withheld config target nodes scope path n := by
  have hplaces : ∀ q ∈ places (events config target nodes scope), ∃ w : Path × Node,
      Withheld config target nodes scope w.1 w.2 ∧ w.1.key w.2.name = q := by
    intro q hq
    obtain ⟨path, n, hw, rfl⟩ := mem_places_events.1 hq
    exact ⟨(path, n), hw, rfl⟩
  obtain ⟨ws, hws⟩ := exists_forall₂ hplaces
  have hmap : ws.map (fun w => w.1.key w.2.name) = places (events config target nodes scope) := by
    rw [← List.forall₂_eq_eq_eq]
    exact List.forall₂_map_left_iff.2 (hws.flip.imp fun _ _ h => h.2)
  refine ⟨ws, ?_, hmap, fun path n => ⟨fun hm => ?_, fun hw => ?_⟩⟩
  · have hnodup := nodup_places_events config target scope hd
    rw [← hmap] at hnodup
    exact hnodup.of_map
  · obtain ⟨-, -, hw, -⟩ := exists_left_of_mem hws hm
    exact hw
  · obtain ⟨⟨path', n'⟩, hm, hw', he⟩ :=
      exists_right_of_mem hws (mem_places_events.2 ⟨path, n, hw, rfl⟩)
    obtain ⟨rfl, hname⟩ : path' = path ∧ n'.name = n.name := by simpa [Path.key] using he
    obtain rfl := hw'.unique hd hw hname
    exact hm

/-- **What is withheld is accounted for.** The diagnostics that a successful projection adds have one
note on a denied field for each withheld field, with the path of the object and the name of the field;
at that path the projection has an object without the name. -/
theorem project_withheld {p : Projection} {ds ds' : Diagnostics}
    (hdiag : config.diagnoseDenied = true) (hbare : config.wrapping = .bare)
    (hd : Distinct nodes)
    (h : (project config target nodes scope).run ds = (.ok p, ds')) :
    ∃ (added : Diagnostics) (ws : List (Path × Node)), ds' = ds ++ added ∧ ws.Nodup ∧
      (∀ path n, (path, n) ∈ ws ↔ Withheld config target nodes scope path n) ∧
      added.filter (·.kind = .fieldNotPermitted) = ws.map (fun w => deniedNote (w.1.key w.2.name)) ∧
      ∀ path n, (path, n) ∈ ws →
        ∃ ms, p.at? path = some (.object ms) ∧ n.name ∉ Members.keys ms := by
  have hadded : ds' = ds ++ notes config (events config target nodes scope) := by
    rcases meets_project config target nodes scope ds with
      ⟨-, q, hrun⟩ | ⟨before, o, name, after, -, -, hrun⟩
    · rw [h] at hrun
      exact (Prod.mk.inj hrun).2
    · rw [h] at hrun
      cases hrun
  have hreturns : ∃ p', Returns (walk (projectObject config nodes scope) p' target) p := by
    have hp : Returns (project config target nodes scope) p := ⟨ds, by rw [h]⟩
    obtain ⟨q, hq, hwrap⟩ := Returns.of_map hp
    have hplain : ¬(target.isSequence ∧ config.wrapping = .data) := by
      rw [hbare]
      exact fun h => nomatch h.2
    rw [wrap, if_neg hplain] at hwrap
    subst hwrap
    exact ⟨[], hq⟩
  obtain ⟨ws, hnodup, hmap, hmem⟩ := exists_withheld config target scope hd
  refine ⟨_, ws, hadded, hnodup, hmem, ?_, fun path n hw => ?_⟩
  · rw [filter_notes_events hdiag, ← hmap, List.map_map]
    rfl
  · exact ((hmem path n).1 hw).exists_object hd hreturns

/-- A day with a secret. -/
def day (date : String) : Json := .object [("at", .string date), ("secret", .null)]

/-- Two days with a secret each, the later one first. -/
def diary : Graph := .ofJson (.object [("days", .array [day "b", day "a"])])

def diaryConfig : ProjectorConfig := ⟨.bare, "at", true⟩

def diaryNodes : List Node :=
  [⟨"days", some [⟨"secret", none, none⟩, ⟨"at", none, none⟩], some .reverseChronological⟩]

def diaryScope : Scope := .restricted [.scoped "days" [.leaf "at"]]

theorem distinct_diaryNodes : Distinct diaryNodes := by
  refine .intro (by decide) fun n hn children hc => ?_
  obtain rfl := List.mem_singleton.1 hn
  cases hc
  refine .intro (by decide) fun n hn children hc => ?_
  rcases List.mem_pair.1 hn with rfl | rfl
  · cases hc
  · cases hc

/-- The notes are on the secrets of the days in order. -/
theorem project_withheld_diary :
    ∃ p ds, (project diaryConfig diary diaryNodes diaryScope).run [] = (.ok p, ds) ∧
      p = .object [("days", .array [.object [("at", .scalar (.string "a"))],
        .object [("at", .scalar (.string "b"))]])] ∧
      ds = [⟨.fieldNotPermitted, "Field days[0].secret is not permitted"⟩,
        ⟨.fieldNotPermitted, "Field days[1].secret is not permitted"⟩] ∧
      ∃ ws : List (Path × Node), ws.Nodup ∧
        (∀ path n, (path, n) ∈ ws ↔ Withheld diaryConfig diary diaryNodes diaryScope path n) ∧
        ds = ws.map (fun w => deniedNote (w.1.key w.2.name)) ∧
        ∀ path n, (path, n) ∈ ws →
          ∃ ms, p.at? path = some (.object ms) ∧ n.name ∉ Members.keys ms := by
  have hdays : Arrangement.sorted "at" .desc [.ofJson (day "b"), .ofJson (day "a")] =
      .ok [.ofJson (day "a"), .ofJson (day "b")] :=
    Arrangement.sorted_swap rfl rfl rfl
  have hrun : (project diaryConfig diary diaryNodes diaryScope).run [] =
      (.ok (.object [("days", .array [.object [("at", .scalar (.string "a"))],
        .object [("at", .scalar (.string "b"))]])]),
      [⟨.fieldNotPermitted, "Field days[0].secret is not permitted"⟩,
        ⟨.fieldNotPermitted, "Field days[1].secret is not permitted"⟩]) := by
    rw [diary, Graph.ofJson, project_object, diaryNodes, projectFields_cons,
      projectField_sorted rfl rfl rfl rfl hdays]
    rfl
  obtain ⟨added, ws, hadded, hnodup, hmem, hnotes, hobjects⟩ :=
    project_withheld rfl rfl distinct_diaryNodes hrun
  rw [List.nil_append] at hadded
  subst hadded
  exact ⟨_, _, hrun, rfl, rfl, ws, hnodup, hmem, hnotes, hobjects⟩

end Projector

end Facet
