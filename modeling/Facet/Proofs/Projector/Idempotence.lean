import Facet.Proofs.Arrangement.Absorption
import Facet.Proofs.Document.Shown
import Facet.Proofs.Projector.Failure
import Facet.Proofs.Projector.Fields

/-!
# Projecting twice

What is projected of a document is projected to itself, through the same selection and within the
same scope (`project_again`). A field that is denied is not looked for, and one that is shown plainly
shows itself. A collection stays in its order (`ordered_of_shown`): if what is shown of its elements
can be ordered at all, it has the values that they were ordered by (`plainAt?_of_shown`). Only a
scalar of which fields are selected does not stay what it is: it is shown as the empty object, which
lacks them, so nothing may be asked of scalars (`AsksNothingOfScalars`).
-/

set_option autoImplicit false

namespace Facet.Projector

open Selector (Node OrderDirective Distinct)
open Run (Returns)

variable {config : ProjectorConfig} {scope : Scope} {nodes : List Node} {path : Path}

/-! ## Values under the key of an ordering -/

theorem isPlain_of_ofJson {v : Json} {s : Scalar} (h : Graph.ofJson v = .scalar s) :
    v.isPlain = true := by
  cases v with
  | null | bool | number | string => rfl
  | array | object => cases h

/-- What is shown as a scalar is one. -/
theorem ofJson_eq_scalar_of_leaf {v : Json} {s : Scalar}
    (h : Graph.ofJson (Projection.leaf (.ofJson v)).toJson = .scalar s) :
    Graph.ofJson v = .scalar s := by
  have hv : v.isPlain = true := by
    cases v with
    | null | bool | number | string => rfl
    | array | object => cases h
  rwa [Projection.toJson_leaf (.plain v hv), Json.stripped_of_isPlain hv] at h

theorem plainAt?_ofJson_object {ms : Members Json} {key : String} {s : Scalar} :
    (Graph.ofJson (.object ms)).plainAt? key = some s ↔
      ∃ v, Members.get? key ms = some v ∧ Graph.ofJson v = .scalar s := by
  rw [Graph.ofJson_object, Graph.plainAt?, Graph.valueAt?, Graph.attribute?_ofMembers]
  cases Members.get? key ms with
  | none => simp
  | some v => cases hv : Graph.ofJson v <;> simp [hv]

/-- What is projected through a selection is not plain. -/
theorem isPlain_of_walk {g : Graph} {p : Projection}
    (h : Returns (walk (projectObject config nodes scope) path g) p) : p.toJson.isPlain = false := by
  cases g with
  | scalar s =>
    obtain rfl := returns_walk_scalar h
    rfl
  | object o =>
    obtain ⟨ms, rfl, -⟩ := returns_walk_object h
    rfl
  | sequence elements declared native =>
    obtain ⟨ps, rfl, -⟩ := returns_walk_sequence h
    rfl

/-- A plain value of a projected element is that of the element. -/
theorem plainAt?_of_shown {v : Json} {p : Projection} {key : String} {s : Scalar}
    (h : Returns (walk (projectObject config nodes scope) path (.ofJson v)) p)
    (hs : (Graph.ofJson p.toJson).plainAt? key = some s) :
    (Graph.ofJson v).plainAt? key = some s := by
  cases v with
  | object ms =>
    rw [Graph.ofJson_object] at h
    obtain ⟨os, rfl, hos⟩ := returns_walk_object h
    rw [Projection.toJson, plainAt?_ofJson_object, Projection.membersToJson_eq,
      Members.get?_map] at hs
    obtain ⟨u, hu, hus⟩ := hs
    obtain ⟨q, hq, rfl⟩ := Option.map_eq_some_iff.1 hu
    obtain ⟨hback, -, -⟩ := returns_projectFields Members.nodup_keys_nil hos
    rcases hback key q (Members.mem_of_get? hq) with ⟨n, -, rfl, hperm, hr⟩ | ⟨hm, -⟩
    · obtain ⟨w, q', hw, he, hshown⟩ := returns_projectField hperm hr
      cases he
      obtain ⟨v, hv, rfl⟩ := Graph.attribute?_ofMembers_eq_some_iff.1 hw
      rcases hshown with ⟨-, rfl⟩ | ⟨inner, path', -, hr⟩
      · exact plainAt?_ofJson_object.2 ⟨v, hv, ofJson_eq_scalar_of_leaf hus⟩
      · cases (isPlain_of_ofJson hus).symm.trans (isPlain_of_walk hr)
    · cases hm
  | array vs =>
    rw [Graph.ofJson_array] at h
    obtain ⟨ps, rfl, -⟩ := returns_walk_sequence h
    cases hs
  | null | bool | number | string =>
    obtain rfl := returns_walk_scalar h
    cases hs

/-- A collection stays in order when its elements give way to what is shown of them. -/
theorem ordered_of_shown {order : Option OrderDirective} {vs ws : List Json} {ps : List Projection}
    {declared declared' : Option Schema}
    (ho : ordered config order (.sequence (vs.map .ofJson) declared none) =
      .sequence (ws.map .ofJson) declared' none)
    (h : List.Forall₂ (fun v p => ∃ path,
      Returns (walk (projectObject config nodes scope) path (.ofJson v)) p) ws ps) :
    ordered config order (.ofJson (Projection.array ps).toJson) =
      .ofJson (Projection.array ps).toJson := by
  rw [Projection.toJson, Projection.itemsToJson_eq, Graph.ofJson_array, Graph.plainSequence]
  cases hd : order.bind OrderDirective.direction? with
  | none => simp only [ordered, hd]
  | some direction =>
    rw [ordered_sequence hd] at ho ⊢
    injection ho with hws
    rw [Arrangement.sorted_of_forall₂, Graph.plainSequence]
    rw [hws, List.map_map, List.forall₂_map_left_iff, List.forall₂_map_right_iff]
    refine h.imp fun v p hp s hs => ?_
    obtain ⟨path, hp⟩ := hp
    exact plainAt?_of_shown hp hs

/-! ## Scalars of which fields are selected -/

/-- Of no scalar that is visited is a permitted field selected; so it is where none is visited. -/
def AsksNothingOfScalars (config : ProjectorConfig) (target : Graph) (nodes : List Node)
    (scope : Scope) : Prop :=
  ∀ x ns s, Visited config target nodes scope (.scalar x) ns s → permitted s ns = []

theorem asksNothingOfScalars_scalar_iff {x : Scalar} :
    AsksNothingOfScalars config (.scalar x) nodes scope ↔ permitted scope nodes = [] := by
  refine ⟨fun h => h x nodes scope .target, fun h y ns s hy => ?_⟩
  rcases hy.cases_head with ⟨-, rfl, rfl⟩ | ⟨_, _, _, _, ht, -⟩ | ⟨_, _, _, _, ht, -⟩
  · exact h
  · cases ht
  · cases ht

theorem asksNothingOfScalars_sequence_iff {elements : List Graph} {declared : Option Schema}
    {native : Option (List ((String × Direction) × List Graph))} :
    AsksNothingOfScalars config (.sequence elements declared native) nodes scope ↔
      ∀ g ∈ elements, AsksNothingOfScalars config g nodes scope := by
  constructor
  · exact fun h g hg x ns s hx => h x ns s (Visited.trans (.element .target hg) hx)
  · intro h x ns s hx
    rcases hx.cases_head with ⟨ht, -, -⟩ | ⟨_, _, _, e, ht, he, hv⟩ | ⟨_, _, _, _, ht, -⟩ <;>
      cases ht
    exact h e he x ns s hv

theorem asksNothingOfScalars_object_iff {o : Object Graph} :
    AsksNothingOfScalars config (.object o) nodes scope ↔
      ∀ n ∈ nodes, scope.permits n.name = true → ∀ ns v, n.children = some ns →
        o.attribute? n.name = some v →
        AsksNothingOfScalars config (ordered config n.order v) ns (scope.under n.name) := by
  constructor
  · exact fun h n hn hp ns v hc ha x ms s hx =>
      h x ms s (Visited.trans (.field .target hn hp hc ha) hx)
  · intro h x ms s hx
    rcases hx.cases_head with ⟨ht, -, -⟩ | ⟨_, _, _, _, ht, -⟩ |
      ⟨_, n, ns, v, ht, hn, hp, hc, ha, hv⟩ <;> cases ht
    exact h n hn hp ns v hc ha x ms s hv

/-- Fields without braces ask nothing of scalars if they are selected of an array of objects. -/
theorem asksNothingOfScalars_array {order : Option OrderDirective} {vs : List Json}
    (hvs : ∀ v ∈ vs, v.isObject = true) (hplain : ∀ n ∈ nodes, n.children = none) :
    AsksNothingOfScalars config (ordered config order (.ofJson (.array vs))) nodes scope := by
  obtain ⟨ws, declared, hperm, ho⟩ := exists_ordered_map config order .ofJson vs none
  rw [Graph.ofJson_array, Graph.plainSequence, ho, asksNothingOfScalars_sequence_iff,
    List.forall_mem_map]
  intro w hw
  obtain ⟨ms, rfl⟩ := Json.isObject_iff.1 (hvs w (hperm.subset hw))
  rw [Graph.ofJson_object, asksNothingOfScalars_object_iff]
  intro n hn _ ns v hc
  cases (hplain n hn).symm.trans hc

/-! ## What is returned -/

theorem returns_walkAll_of_forall₂ {rule : Path → Object Graph → Run Projection}
    (hsteady : ∀ path o, Run.Steady (rule path o)) {i : Nat} {gs : List Graph} {ps : List Projection}
    (h : List.Forall₂ (fun g p => ∀ path, Returns (walk rule path g) p) gs ps) :
    Returns (walkAll rule path i gs) ps := by
  induction h generalizing i with
  | nil => exact Run.returns_pure.2 rfl
  | @cons g p gs ps hg _ ih =>
    have hrest : ∀ p, Run.Steady (walkAll rule path (i + 1) gs >>= fun ps => pure (p :: ps)) :=
      fun p => (steady_walkAll hsteady path (i + 1) gs).bind fun _ => .pure _
    rw [walkAll, Run.returns_bind_iff hrest]
    refine ⟨p, hg (path.index i), ?_⟩
    rw [Run.returns_bind_iff fun _ => .pure _]
    exact ⟨ps, ih, Run.returns_pure.2 rfl⟩

theorem returns_walk_shown_array {ps : List Projection} (path : Path)
    (h : ∀ p ∈ ps, ∀ path,
      Returns (walk (projectObject config nodes scope) path (.ofJson p.toJson)) p) :
    Returns (walk (projectObject config nodes scope) path (.ofJson (Projection.array ps).toJson))
      (.array ps) := by
  rw [Projection.toJson, Projection.itemsToJson_eq, Graph.ofJson_array, Graph.plainSequence, walk,
    Run.returns_map_iff]
  refine ⟨ps, returns_walkAll_of_forall₂ (steady_projectObject config nodes scope) ?_, rfl⟩
  rw [List.map_map, List.forall₂_map_left_iff, List.forall₂_same]
  exact h

theorem returns_walk_shown_object {os : Members Projection} (hnames : (nodes.map Node.name).Nodup)
    (h : List.Forall₂ (Shows config scope path (.ofMembers (Projection.membersToJson os)))
      (permitted scope nodes) os) :
    Returns (walk (projectObject config nodes scope) path (.ofJson (Projection.object os).toJson))
      (.object os) := by
  rw [Projection.toJson, Graph.ofJson_object]
  exact Run.returns_map_iff.2 ⟨os, (returns_projectFields_iff_of_nodup hnames).2 h, rfl⟩

theorem returns_projectField_nested {o : Object Graph} {n : Node} {v : Graph} {ns : List Node}
    {p : Projection} (hp : scope.permits n.name = true) (ha : o.attribute? n.name = some v)
    (hc : n.children = some ns)
    (h : Returns (walk (projectObject config ns (scope.under n.name)) (path.key n.name)
      (ordered config n.order v)) p) : Returns (projectField config scope path o n) (some p) := by
  have hrule := steady_projectObject config ns (scope.under n.name)
  rw [projectField_nested hp ha hc, Run.returns_bind_iff fun _ => (steady_walk hrule _ _).map _]
  exact ⟨_, ⟨[], by rw [run_inOrder]⟩, Run.returns_map_iff.2 ⟨p, h, rfl⟩⟩

/-! ## Projecting again -/

/-- A field shows the same of the object that it is shown in, if braces are projected to the same. -/
theorem shows_again {ms : Members Json} {os : Members Projection} {n : Node} {p : Projection}
    (hkeys : ∀ k v, (k, v) ∈ ms → v.DistinctKeys) (hos : os.keys.Nodup) (hm : (n.name, p) ∈ os)
    (hperm : scope.permits n.name = true)
    (h : Returns (projectField config scope path (.ofMembers ms) n) (some p)) (path' : Path)
    (hagain : ∀ v ns path, ms.get? n.name = some v → n.children = some ns →
      Returns (walk (projectObject config ns (scope.under n.name)) path
        (ordered config n.order (.ofJson v))) p →
      Returns (walk (projectObject config ns (scope.under n.name)) (path'.key n.name)
        (ordered config n.order (.ofJson p.toJson))) p) :
    Returns (projectField config scope path' (.ofMembers (Projection.membersToJson os)) n)
      (some p) := by
  have ha : (Object.ofMembers (Projection.membersToJson os)).attribute? n.name =
      some (.ofJson p.toJson) := by
    rw [Graph.attribute?_ofMembers_eq_some_iff, Projection.membersToJson_eq, Members.get?_map,
      Members.get?_of_mem hos hm]
    exact ⟨_, rfl, rfl⟩
  obtain ⟨w, q, hw, he, hshown⟩ := returns_projectField hperm h
  cases he
  obtain ⟨v, hv, rfl⟩ := Graph.attribute?_ofMembers_eq_some_iff.1 hw
  rcases hshown with ⟨hc, rfl⟩ | ⟨ns, path, hc, hr⟩
  · have hv := hkeys n.name v (Members.mem_of_get? hv)
    rw [projectField_plain hperm ha hc, Projection.leaf_toJson_leaf hv]
    exact Run.returns_pure.2 rfl
  · exact returns_projectField_nested hperm ha hc (hagain v ns path hv hc hr)

/-- What is projected of a value is projected to itself, in whichever order. -/
theorem walk_again {v : Json} {order : Option OrderDirective} {p : Projection}
    (hkeys : v.DistinctKeys) (hd : Distinct nodes)
    (hasks : AsksNothingOfScalars config (ordered config order (.ofJson v)) nodes scope)
    (h : Returns (walk (projectObject config nodes scope) path
      (ordered config order (.ofJson v))) p) (path' : Path) :
    Returns (walk (projectObject config nodes scope) path'
      (ordered config order (.ofJson p.toJson))) p := by
  induction v using Json.induction generalizing nodes scope path order p path' with
  | plain v hv =>
    obtain ⟨s, hs, -⟩ := Graph.exists_scalar hv
    obtain ⟨hnames, -⟩ := hd
    rw [hs, ordered_of_not_sequence rfl] at h hasks
    obtain rfl := returns_walk_scalar h
    -- the empty object has all that is asked of the scalar, which is nothing
    rw [asksNothingOfScalars_scalar_iff] at hasks
    rw [ordered_of_not_sequence rfl]
    exact returns_walk_shown_object hnames (hasks ▸ .nil)
  | array vs ih =>
    rw [Json.distinctKeys_array_iff] at hkeys
    rw [Graph.ofJson_array, Graph.plainSequence] at h hasks
    obtain ⟨ws, declared, hperm, ho⟩ := exists_ordered_map config order .ofJson vs none
    rw [ho] at h hasks
    obtain ⟨ps, rfl, hps⟩ := returns_walk_sequence h
    rw [List.forall₂_map_left_iff] at hps
    rw [ordered_of_shown ho hps]
    refine returns_walk_shown_array path' fun p hp path' => ?_
    obtain ⟨w, hw, path, hr⟩ := exists_left_of_mem hps hp
    have hwvs : w ∈ vs := hperm.subset hw
    -- elements are walked as they stand, that is, in no particular order
    have hasks' : AsksNothingOfScalars config (ordered config none (.ofJson w)) nodes scope :=
      asksNothingOfScalars_sequence_iff.1 hasks _ (List.mem_map_of_mem hw)
    exact ih w hwvs (hkeys w hwvs) hd hasks' hr path'
  | object ms ih =>
    obtain ⟨-, hvalues⟩ := Json.distinctKeys_object_iff.1 hkeys
    obtain ⟨hnames, hchildren⟩ := hd
    rw [Graph.ofJson_object, ordered_of_not_sequence rfl] at h hasks
    obtain ⟨os, rfl, hos⟩ := returns_walk_object h
    have hnodup := nodup_keys_projectFields Members.nodup_keys_nil hos
    rw [returns_projectFields_iff_of_nodup hnames] at hos
    rw [ordered_of_not_sequence rfl]
    refine returns_walk_shown_object hnames ?_
    obtain ⟨hl, hz⟩ := List.forall₂_iff_zip.1 hos
    refine List.forall₂_iff_zip.2 ⟨hl, fun {n m} hm => ?_⟩
    obtain ⟨hn, hmem⟩ := List.of_mem_zip hm
    obtain ⟨hn, hperm⟩ := List.mem_filter.1 hn
    obtain ⟨k, p⟩ := m
    obtain ⟨rfl, hr⟩ := hz hm
    refine ⟨rfl, shows_again hvalues hnodup hmem hperm hr path' fun v ns path hv hc hr => ?_⟩
    have hvm := Members.mem_of_get? hv
    have hasks' : AsksNothingOfScalars config (ordered config n.order (.ofJson v)) ns
        (scope.under n.name) :=
      asksNothingOfScalars_object_iff.1 hasks n hn hperm ns _ hc
        (Graph.attribute?_ofMembers_eq_some_iff.2 ⟨v, hv, rfl⟩)
    exact ih n.name v hvm (hvalues n.name v hvm) (hchildren n hn ns hc) hasks' hr
      (path'.key n.name)

/-- **Projecting twice**: what is projected of a document, if nothing is asked of scalars in it, is
projected to itself, through the same selection and within the same scope. -/
theorem project_again {d : Document} {p : Projection} {ds : Diagnostics}
    (hwrapping : config.wrapping = .bare) (hd : Distinct nodes)
    (hasks : AsksNothingOfScalars config (.ofJson d.value) nodes scope)
    (h : ((project config (.ofJson d.value) nodes scope).run ds).1 = .ok p) (es : Diagnostics) :
    ((project config (.ofJson p.toJson) nodes scope).run es).1 = .ok p := by
  have hwrap : ∀ g, wrap config g = id := by
    intro g
    funext p
    simp [wrap, hwrapping]
  rw [project, hwrap, id_map] at h ⊢
  have hsteady := steady_walk (steady_projectObject config nodes scope) [] (.ofJson p.toJson)
  -- a target is walked as it stands, that is, in no particular order
  have hwalk : Returns (walk (projectObject config nodes scope) []
      (ordered config none (.ofJson d.value))) p := ⟨ds, h⟩
  exact (hsteady.returns_iff es).1 (walk_again d.distinctKeys hd hasks hwalk [])

/-- An entry without a key. -/
def entry (time : String) (text : Json) : Json :=
  .object [("at", .string time), ("note", text), ("key", .null)]

def firstEntry : Json := entry "1st" (.object [("by", .object []), ("text", .string "a")])

def lastEntry : Json := entry "2nd" (.string "b")

def vote (time : String) : Json := .object [("at", .string time)]

/-- A log with two entries, the later one last, and two votes, the later one first. -/
def log : Document where
  value := .object [("entries", .array [firstEntry, lastEntry]),
    ("votes", .array [vote "2nd", vote "1st"])]
  distinctKeys := by
    have hnull : Json.null.DistinctKeys := .plain _ rfl
    have hstring : ∀ s, (Json.string s).DistinctKeys := fun s => .plain _ rfl
    simp [firstEntry, lastEntry, entry, vote, Json.distinctKeys_object_iff,
      Json.distinctKeys_array_iff, hnull, hstring, or_imp, forall_and, Members.keys]

/-- The entries without their times, the last one first, and the votes with theirs, in order. -/
def logNodes : List Node :=
  [⟨"entries", some [⟨"note", none, none⟩, ⟨"key", none, none⟩], some .chronological⟩,
    ⟨"votes", some [⟨"at", none, none⟩], some .reverseChronological⟩]

/-- Everything but the keys of entries. -/
def logScope : Scope :=
  .restricted [.scoped "entries" [.leaf "note"], .scoped "votes" [.leaf "at"]]

/-- What is shown of the log. -/
def logShown : Projection := .object [
  ("entries", .array [.object [("note", .scalar (.string "b"))],
    .object [("note", .object [("text", .scalar (.string "a"))])]]),
  ("votes", .array [.object [("at", .scalar (.string "1st"))],
    .object [("at", .scalar (.string "2nd"))]])]

theorem distinct_logNodes : Distinct logNodes := by
  refine .intro (by decide) fun n hn children hc => ?_
  rcases List.mem_pair.1 hn with rfl | rfl <;> cases hc <;> exact .of_plain (by decide) (by decide)

theorem asksNothingOfScalars_log :
    AsksNothingOfScalars ⟨.bare, "at", true⟩ (.ofJson log.value) logNodes logScope := by
  rw [log, Graph.ofJson_object, asksNothingOfScalars_object_iff]
  intro n hn _ ns v hc ha
  obtain ⟨w, hw, rfl⟩ := Graph.attribute?_ofMembers_eq_some_iff.1 ha
  rcases List.mem_pair.1 hn with rfl | rfl <;> cases hc <;> cases hw <;>
    exact asksNothingOfScalars_array (by decide) (by decide)

theorem project_again_log :
    Distinct logNodes ∧
      AsksNothingOfScalars ⟨.bare, "at", true⟩ (.ofJson log.value) logNodes logScope ∧
      ((project ⟨.bare, "at", true⟩ (.ofJson log.value) logNodes logScope).run []).1 =
        .ok logShown ∧
      ((project ⟨.bare, "at", true⟩ (.ofJson logShown.toJson) logNodes logScope).run []).1 =
        .ok logShown := by
  have hentries : Arrangement.sorted "at" .asc [.ofJson firstEntry, .ofJson lastEntry] =
      .ok [.ofJson lastEntry, .ofJson firstEntry] :=
    Arrangement.sorted_swap rfl rfl rfl
  have hvotes : Arrangement.sorted "at" .desc [.ofJson (vote "2nd"), .ofJson (vote "1st")] =
      .ok [.ofJson (vote "1st"), .ofJson (vote "2nd")] :=
    Arrangement.sorted_swap rfl rfl rfl
  have hrun : ((project ⟨.bare, "at", true⟩ (.ofJson log.value) logNodes logScope).run []).1 =
      .ok logShown := by
    rw [log, Graph.ofJson_object, project_object, logNodes]
    simp only [projectFields_cons]
    rw [projectField_sorted rfl rfl rfl rfl hentries]
    rw [projectField_sorted rfl rfl rfl rfl hvotes]
    rfl
  exact ⟨distinct_logNodes, asksNothingOfScalars_log, hrun,
    project_again rfl distinct_logNodes asksNothingOfScalars_log hrun []⟩

end Facet.Projector
