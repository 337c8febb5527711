import Facet.Graph.OfJson
import Facet.Proofs.Projector.Fields
import Facet.Proofs.Projector.Traversal
import Mathlib.Data.List.Perm.Basic

/-!
# The order of siblings

The order in which siblings are selected decides the order of keys and of diagnostics, and nothing
else (`project_shuffled`). Selections that differ in the order of siblings, at any depth
(`Selector.Shuffled`), come upon the same events (`perm_events`): so they fail together, and where
they succeed they record the same diagnostics. If siblings have distinct names, the projections are
equal but for the order of members (`Projection.Shuffled`).
-/

set_option autoImplicit false

namespace Facet

open Selector (Node OrderDirective Distinct)

/-! ## Selections that differ in the order of siblings -/

mutual

/-- The nodes are equal but for the order of the siblings in their braces. -/
inductive Selector.NodeShuffled : Node → Node → Prop
  | plain {name : String} {order : Option OrderDirective} :
      Selector.NodeShuffled ⟨name, none, order⟩ ⟨name, none, order⟩
  | nested {name : String} {nodes nodes' : List Node} {order : Option OrderDirective} :
      Selector.Shuffled nodes nodes' →
      Selector.NodeShuffled ⟨name, some nodes, order⟩ ⟨name, some nodes', order⟩

/-- The selections are equal but for the order of siblings, at any depth. -/
inductive Selector.Shuffled : List Node → List Node → Prop
  | moved {ns ns' moved : List Node} : Selector.ShuffledEach ns moved → moved.Perm ns' →
      Selector.Shuffled ns ns'

/-- `Selector.NodeShuffled` node by node. -/
inductive Selector.ShuffledEach : List Node → List Node → Prop
  | nil : Selector.ShuffledEach [] []
  | cons {n n' : Node} {ns ns' : List Node} : Selector.NodeShuffled n n' →
      Selector.ShuffledEach ns ns' → Selector.ShuffledEach (n :: ns) (n' :: ns')

end

theorem Selector.NodeShuffled.name_eq {n n' : Node} (h : Selector.NodeShuffled n n') :
    n.name = n'.name := by
  cases h <;> rfl

/-! ## Projections that differ in the order of members -/

mutual

/-- The projections are equal but for the order of members, at any depth. -/
inductive Projection.Shuffled : Projection → Projection → Prop
  | scalar (s : Scalar) : Projection.Shuffled (.scalar s) (.scalar s)
  | object {ms ms' moved : Members Projection} : Projection.ShuffledMembers ms moved →
      moved.Perm ms' → Projection.Shuffled (.object ms) (.object ms')
  | array {ps qs : List Projection} : Projection.ShuffledItems ps qs →
      Projection.Shuffled (.array ps) (.array qs)

/-- `Projection.Shuffled` element by element. -/
inductive Projection.ShuffledItems : List Projection → List Projection → Prop
  | nil : Projection.ShuffledItems [] []
  | cons {p q : Projection} {ps qs : List Projection} : Projection.Shuffled p q →
      Projection.ShuffledItems ps qs → Projection.ShuffledItems (p :: ps) (q :: qs)

/-- `Projection.Shuffled` member by member, under the same keys. -/
inductive Projection.ShuffledMembers : Members Projection → Members Projection → Prop
  | nil : Projection.ShuffledMembers [] []
  | cons {k : String} {p q : Projection} {ms ms' : Members Projection} :
      Projection.Shuffled p q → Projection.ShuffledMembers ms ms' →
      Projection.ShuffledMembers ((k, p) :: ms) ((k, q) :: ms')

end

namespace Projection

mutual

theorem Shuffled.refl : ∀ p : Projection, p.Shuffled p
  | .object ms => .object (ShuffledMembers.refl ms) (.refl ms)
  | .array ps => .array (ShuffledItems.refl ps)
  | .scalar s => .scalar s

theorem ShuffledItems.refl : ∀ ps : List Projection, ShuffledItems ps ps
  | [] => .nil
  | p :: ps => .cons (Shuffled.refl p) (ShuffledItems.refl ps)

theorem ShuffledMembers.refl : ∀ ms : List (String × Projection), ShuffledMembers ms ms
  | [] => .nil
  | (_, p) :: ms => .cons (Shuffled.refl p) (ShuffledMembers.refl ms)

end

theorem shuffledMembers_of_forall₂ {ms ms' : Members Projection}
    (h : List.Forall₂ (fun m m' => m.1 = m'.1 ∧ m.2.Shuffled m'.2) ms ms') :
    ShuffledMembers ms ms' := by
  induction h with
  | nil => exact .nil
  | @cons m m' ms ms' hm _ ih =>
    obtain ⟨k, p⟩ := m
    obtain ⟨k', p'⟩ := m'
    obtain ⟨rfl, hp⟩ := hm
    exact .cons hp ih

end Projection

namespace Projector

open Selector (NodeShuffled ShuffledEach)
open Run (Returns Concur)

variable {config : ProjectorConfig} {scope : Scope} {nodes nodes' : List Node} {target : Graph}

/-! ## Events -/

section
variable {rule rule' : Path → Object Graph → List Event}

mutual

theorem perm_walkEvents (h : ∀ path o, (rule path o).Perm (rule' path o)) :
    ∀ (path : Path) (g : Graph), (walkEvents rule path g).Perm (walkEvents rule' path g)
  | _, .scalar _ => .nil
  | path, .object o => h path o
  | path, .sequence elements _ _ => perm_walkAllEvents h path 0 elements

theorem perm_walkAllEvents (h : ∀ path o, (rule path o).Perm (rule' path o)) :
    ∀ (path : Path) (i : Nat) (gs : List Graph),
      (walkAllEvents rule path i gs).Perm (walkAllEvents rule' path i gs)
  | _, _, [] => .nil
  | path, i, g :: gs =>
    (perm_walkEvents h (path.index i) g).append (perm_walkAllEvents h path (i + 1) gs)

end

end

theorem fieldsEvents_eq (config : ProjectorConfig) (scope : Scope) (path : Path) (o : Object Graph)
    (ns : List Node) :
    fieldsEvents config scope path o ns = ns.flatMap (fieldEvents config scope path o) := by
  induction ns with
  | nil => rfl
  | cons n ns ih => rw [fieldsEvents, ih, List.flatMap_cons]

mutual

theorem perm_fieldEvents (config : ProjectorConfig) : ∀ {n n' : Node}, NodeShuffled n n' →
    ∀ (scope : Scope) (path : Path) (o : Object Graph),
      (fieldEvents config scope path o n).Perm (fieldEvents config scope path o n')
  | _, _, .plain, _, _, _ => .refl _
  | _, _, @NodeShuffled.nested name nodes nodes' order h, scope, path, o => by
    by_cases hp : scope.permits name = true
    · cases ha : o.attribute? name with
      | none => rw [fieldEvents_missing hp ha, fieldEvents_missing hp ha]
      | some v =>
        rw [fieldEvents_nested hp ha rfl, fieldEvents_nested hp ha rfl]
        refine .append_left _ (perm_walkEvents (fun path o => ?_) _ _)
        exact perm_fieldsEvents config h (scope.under name) path o
    · rw [fieldEvents_denied hp, fieldEvents_denied hp]

/-- The fields of an object have the same events in whichever order. -/
theorem perm_fieldsEvents (config : ProjectorConfig) : ∀ {ns ns' : List Node},
    Selector.Shuffled ns ns' → ∀ (scope : Scope) (path : Path) (o : Object Graph),
      (fieldsEvents config scope path o ns).Perm (fieldsEvents config scope path o ns')
  | _, _, @Selector.Shuffled.moved ns ns' moved h hp, scope, path, o => by
    refine (perm_fieldsEvents_each config h scope path o).trans ?_
    rw [fieldsEvents_eq, fieldsEvents_eq]
    exact hp.flatMap_right _

theorem perm_fieldsEvents_each (config : ProjectorConfig) : ∀ {ns ns' : List Node},
    ShuffledEach ns ns' → ∀ (scope : Scope) (path : Path) (o : Object Graph),
      (fieldsEvents config scope path o ns).Perm (fieldsEvents config scope path o ns')
  | _, _, .nil, _, _, _ => .nil
  | _, _, .cons h hs, scope, path, o =>
    (perm_fieldEvents config h scope path o).append (perm_fieldsEvents_each config hs scope path o)

end

theorem perm_events (h : Selector.Shuffled nodes nodes') (target : Graph) :
    (events config target nodes scope).Perm (events config target nodes' scope) :=
  perm_walkEvents (perm_fieldsEvents config h scope) [] target

theorem Complete.perm {es fs : List Event} (h : Complete es) (hp : es.Perm fs) : Complete fs :=
  fun o name hm => h o name (hp.symm.subset hm)

/-! ## Values -/

section
variable {rule rule' : Path → Object Graph → Run Projection}

mutual

theorem concur_walk (h : ∀ path o, Concur Projection.Shuffled (rule path o) (rule' path o)) :
    ∀ (path : Path) (g : Graph),
      Concur Projection.Shuffled (walk rule path g) (walk rule' path g)
  | _, .scalar _ => .pure (.refl .emptyObject)
  | path, .object o => h path o
  | path, .sequence elements _ _ => (concur_walkAll h path 0 elements).map fun _ _ hs => .array hs

theorem concur_walkAll (h : ∀ path o, Concur Projection.Shuffled (rule path o) (rule' path o)) :
    ∀ (path : Path) (i : Nat) (gs : List Graph),
      Concur Projection.ShuffledItems (walkAll rule path i gs) (walkAll rule' path i gs)
  | _, _, [] => .pure .nil
  | path, i, g :: gs =>
    (concur_walk h (path.index i) g).bind fun _ _ hp =>
      (concur_walkAll h path (i + 1) gs).bind fun _ _ hps => .pure (.cons hp hps)

end

end

theorem names_eq_of_forall₂ {R : Node → Node → Prop} {ns ns' : List Node}
    (h : List.Forall₂ (fun n n' => n.name = n'.name ∧ R n n') ns ns') :
    ns.map Node.name = ns'.map Node.name := by
  induction h with
  | nil => rfl
  | cons hn _ ih => rw [List.map_cons, List.map_cons, hn.1, ih]

theorem forall₂_permitted {R : Node → Node → Prop} {ns ns' : List Node}
    (h : List.Forall₂ (fun n n' => n.name = n'.name ∧ R n n') ns ns') :
    List.Forall₂ (fun n n' => n.name = n'.name ∧ R n n') (permitted scope ns)
      (permitted scope ns') := by
  refine List.rel_filter (fun n n' hn => ?_) h
  show scope.permits n.name = true ↔ scope.permits n'.name = true
  rw [hn.1]

mutual

theorem concur_projectField (config : ProjectorConfig) : ∀ {n n' : Node}, NodeShuffled n n' →
    (∀ children, n.children = some children → Distinct children) →
    ∀ (scope : Scope) (path : Path) (o : Object Graph),
      Concur (Option.Rel Projection.Shuffled) (projectField config scope path o n)
        (projectField config scope path o n')
  | _, _, @NodeShuffled.plain name order, _, scope, path, o => by
    intro r r' hr hr'
    obtain rfl := (steady_projectField config scope path o _).concur r r' hr hr'
    cases r with
    | none => exact .none
    | some p => exact .some (.refl p)
  | _, _, @NodeShuffled.nested name nodes nodes' order h, hd, scope, path, o => by
    by_cases hp : scope.permits name = true
    · cases ha : o.attribute? name with
      | none =>
        rw [projectField_missing hp ha]
        exact fun _ _ hr _ => absurd hr Run.not_returns_throw
      | some v =>
        rw [projectField_nested hp ha rfl, projectField_nested hp ha rfl]
        have hrule := concur_projectObject config h (hd nodes rfl) (scope.under name)
        refine (steady_inOrder config (path.key name) order v).concur.bind fun w w' hw => ?_
        subst hw
        exact (concur_walk hrule (path.key name) w).map fun _ _ hpq => .some hpq
    · intro r r' hr hr'
      obtain rfl := returns_projectField_denied hp hr
      obtain rfl := returns_projectField_denied hp hr'
      exact .none

/-- An object has the same members, in another order. -/
theorem concur_projectObject (config : ProjectorConfig) : ∀ {ns ns' : List Node},
    Selector.Shuffled ns ns' → Distinct ns → ∀ (scope : Scope) (path : Path) (o : Object Graph),
      Concur Projection.Shuffled (projectObject config ns scope path o)
        (projectObject config ns' scope path o)
  | _, _, @Selector.Shuffled.moved ns ns' moved h hperm, hd, scope, path, o => by
    have heach := concur_each config h hd scope path o
    obtain ⟨hnodup, -⟩ := hd
    have hnodup' : (ns'.map Node.name).Nodup := by
      have hnames : ns.map Node.name = moved.map Node.name := names_eq_of_forall₂ heach
      exact (hperm.map Node.name).nodup_iff.1 (hnames ▸ hnodup)
    have hfields : Concur (fun ms ms' => ∃ moved, Projection.ShuffledMembers ms moved ∧
        moved.Perm ms') (projectFields config scope path o [] ns)
        (projectFields config scope path o [] ns') := by
      intro ms ms' hms hms'
      rw [returns_projectFields_iff_of_nodup hnodup] at hms
      rw [returns_projectFields_iff_of_nodup hnodup'] at hms'
      obtain ⟨between, hbetween, hp⟩ := List.perm_comp_forall₂ (hperm.filter _) hms'
      refine ⟨between, ?_, hp⟩
      refine Projection.shuffledMembers_of_forall₂ (forall₂_of_square
        (forall₂_permitted heach) hms hbetween ?_)
      rintro n n' ⟨k, p⟩ ⟨k', p'⟩ ⟨hname, hc⟩ ⟨rfl, hp⟩ ⟨rfl, hp'⟩
      cases hc _ _ hp hp' with
      | some hpp => exact ⟨hname, hpp⟩
    exact hfields.map fun _ _ ⟨_, hs, hp⟩ => .object hs hp

theorem concur_each (config : ProjectorConfig) : ∀ {ns ns' : List Node},
    ShuffledEach ns ns' → Distinct ns → ∀ (scope : Scope) (path : Path) (o : Object Graph),
      List.Forall₂ (fun n n' => n.name = n'.name ∧ Concur (Option.Rel Projection.Shuffled)
        (projectField config scope path o n) (projectField config scope path o n')) ns ns'
  | _, _, .nil, _, _, _, _ => .nil
  | _ :: _, _, .cons h hs, hd, scope, path, o =>
    have hn := concur_projectField config h (fun _ hc => hd.children (.head _) hc) scope path o
    .cons ⟨h.name_eq, hn⟩ (concur_each config hs hd.cons.2 scope path o)

end

/-! ## The outcome -/

theorem concur_project (h : Selector.Shuffled nodes nodes') (hd : Distinct nodes) :
    Concur Projection.Shuffled (project config target nodes scope)
      (project config target nodes' scope) := by
  refine (concur_walk (concur_projectObject config h hd scope) [] target).map fun p q hpq => ?_
  unfold wrap
  split
  · exact .object (.cons hpq .nil) (.refl _)
  · exact hpq

/-- **The order of siblings decides the order of keys and diagnostics only.** Projections through
selections that differ in the order of siblings both succeed, with projections that are equal but for
the order of members, and record the same diagnostics, each as often; or both fail. -/
theorem project_shuffled (h : Selector.Shuffled nodes nodes') (hd : Distinct nodes)
    (ds es : Diagnostics) :
    (∃ p q notes notes', (project config target nodes scope).run ds = (.ok p, ds ++ notes) ∧
      (project config target nodes' scope).run es = (.ok q, es ++ notes') ∧
      p.Shuffled q ∧ notes.Perm notes') ∨
    ∃ e e', ((project config target nodes scope).run ds).1 = .error e ∧
      ((project config target nodes' scope).run es).1 = .error e' := by
  have hevents : (events config target nodes scope).Perm (events config target nodes' scope) :=
    perm_events h target
  rcases meets_project config target nodes scope ds with
    ⟨hc, p, hp⟩ | ⟨before, o, name, after, hsplit, -, hp⟩ <;>
  rcases meets_project config target nodes' scope es with
    ⟨hc', q, hq⟩ | ⟨before', o', name', after', hsplit', -, hq⟩
  · have hpq := concur_project h hd p q ⟨ds, by rw [hp]⟩ ⟨es, by rw [hq]⟩
    exact .inl ⟨p, q, _, _, hp, hq, hpq, hevents.flatMap_right _⟩
  · exact absurd (hsplit' ▸ List.mem_append_right _ (.head _)) (hc.perm hevents o' name')
  · exact absurd (hsplit ▸ List.mem_append_right _ (.head _)) (hc'.perm hevents.symm o name)
  · exact .inr ⟨_, _, by rw [hp], by rw [hq]⟩

/-- An item without a cost. -/
def item (isNew : Bool) (name : String) : Json :=
  .object [("new", .bool isNew), ("name", .string name), ("cost", .null)]

/-- A shop with an item and a new one after it. -/
def shop : Json := .object [("items", .array [item false "a", item true "b"]),
  ("owner", .object [("key", .null)])]

/-- The items in order, each with these fields. -/
def itemsNode (fields : List String) : Node :=
  ⟨"items", some (fields.map (⟨·, none, none⟩)), some .chronological⟩

/-- The items of the shop, then its owner. -/
def shopNodes : List Node :=
  [itemsNode ["new", "cost", "name"], ⟨"owner", some [⟨"key", none, none⟩], none⟩]

/-- The owner of the shop, then its items with their fields in another order. -/
def shopShuffled : List Node :=
  [⟨"owner", some [⟨"key", none, none⟩], none⟩, itemsNode ["name", "new", "cost"]]

/-- Neither costs nor keys. -/
def shopScope : Scope := .restricted
  [.scoped "items" [.leaf "new", .leaf "name"], .scoped "owner" []]

theorem shuffled_shopNodes : Selector.Shuffled shopNodes shopShuffled := by
  refine .moved (.cons (.nested ?_) (.cons (.nested ?_) .nil)) (.swap _ _ [])
  · refine .moved (.cons .plain (.cons .plain (.cons .plain .nil))) ?_
    exact (List.Perm.cons _ (.swap _ _ [])).trans (.swap _ _ _)
  · exact .moved (.cons .plain .nil) (.refl _)

theorem distinct_shopNodes : Distinct shopNodes := by
  refine .intro (by decide) fun n hn children hc => ?_
  rcases List.mem_pair.1 hn with rfl | rfl <;> cases hc <;> exact .of_plain (by decide) (by decide)

/-- The shop with its items first. -/
def shopShown : Projection := .object [
  ("items", .array [.object [("new", .scalar (.bool true)), ("name", .scalar (.string "b"))],
    .object [("new", .scalar (.bool false)), ("name", .scalar (.string "a"))]]),
  ("owner", .object [])]

/-- The shop with its owner first. -/
def shopShownShuffled : Projection := .object [
  ("owner", .object []),
  ("items", .array [.object [("name", .scalar (.string "b")), ("new", .scalar (.bool true))],
    .object [("name", .scalar (.string "a")), ("new", .scalar (.bool false))]])]

/-- The notes on what is withheld of the shop, on the items first. -/
def shopNotes : Diagnostics :=
  [⟨.fieldNotPermitted, "Field items[0].cost is not permitted"⟩,
    ⟨.fieldNotPermitted, "Field items[1].cost is not permitted"⟩,
    ⟨.fieldNotPermitted, "Field owner.key is not permitted"⟩]

theorem project_shuffled_shop :
    Selector.Shuffled shopNodes shopShuffled ∧ Distinct shopNodes ∧
      (project ⟨.data, "new", true⟩ (.ofJson shop) shopNodes shopScope).run [] =
        (.ok shopShown, shopNotes) ∧
      ∃ notes, (project ⟨.data, "new", true⟩ (.ofJson shop) shopShuffled shopScope).run [] =
          (.ok shopShownShuffled, notes) ∧
        shopShown.Shuffled shopShownShuffled ∧ shopNotes.Perm notes := by
  have hitems : Arrangement.sorted "new" .asc [.ofJson (item false "a"), .ofJson (item true "b")] =
      .ok [.ofJson (item true "b"), .ofJson (item false "a")] :=
    Arrangement.sorted_swap rfl rfl rfl
  have hrun : (project ⟨.data, "new", true⟩ (.ofJson shop) shopNodes shopScope).run [] =
      (.ok shopShown, shopNotes) := by
    rw [shop, Graph.ofJson, project_object, shopNodes, projectFields_cons,
      projectField_sorted rfl rfl rfl rfl hitems]
    rfl
  have hrun' : ((project ⟨.data, "new", true⟩ (.ofJson shop) shopShuffled shopScope).run []).1 =
      .ok shopShownShuffled := by
    rw [shop, Graph.ofJson, project_object, shopShuffled]
    simp only [projectFields_cons]
    rw [projectField_sorted (n := itemsNode _) rfl rfl rfl rfl hitems]
    rfl
  refine ⟨shuffled_shopNodes, distinct_shopNodes, hrun, ?_⟩
  rcases project_shuffled shuffled_shopNodes distinct_shopNodes [] [] with
    ⟨p, q, notes, notes', hp, hq, hpq, hperm⟩ | ⟨e, e', he, -⟩
  · rw [hrun] at hp
    rw [hq] at hrun'
    cases hp
    cases hrun'
    exact ⟨notes', hq, hpq, hperm⟩
  · rw [hrun] at he
    cases he

end Projector

end Facet
