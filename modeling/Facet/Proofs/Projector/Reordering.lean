import Facet.Proofs.Document
import Facet.Proofs.Projector.Outcome
import Mathlib.Data.List.Perm.Basic

/-!
# Orders that are requested

An order that is requested decides in which order the elements of a collection are shown, and
nothing else (`project_unordered`): a projection through a selection succeeds if it does through the
selection without the orders (`Selector.unordered`), and shows the same but for the order of the
elements of arrays (`Projection.Rearranged`). This needs sequences that do not order themselves
(`Graph.NoNativeOrder`), as those of documents (`Graph.noNativeOrder_ofJson`): a sequence that does
may come with any elements.

The proof compares any two selections that differ in orders alone (`Selector.SameFieldsAll`), so
that each may be the one that succeeds.
-/

set_option autoImplicit false

namespace Facet

open Selector (Node OrderDirective)

/-! ## Graphs without orders of their own -/

/-- No sequence in the graph has an order of its own. -/
inductive Graph.NoNativeOrder : Graph → Prop
  | scalar (s : Scalar) : Graph.NoNativeOrder (.scalar s)
  | object {o : Object Graph} (h : ∀ name v, o.attribute? name = some v → Graph.NoNativeOrder v) :
      Graph.NoNativeOrder (.object o)
  | sequence {elements : List Graph} (declared : Option Schema)
      (h : ∀ g ∈ elements, Graph.NoNativeOrder g) :
      Graph.NoNativeOrder (.sequence elements declared none)

/-- Documents have no collections that order themselves. -/
theorem Graph.noNativeOrder_ofJson (v : Json) : (Graph.ofJson v).NoNativeOrder := by
  induction v using Json.induction with
  | plain v hv =>
    obtain ⟨s, hs, -⟩ := exists_scalar hv
    rw [hs]
    exact .scalar s
  | array vs ih =>
    rw [ofJson_array]
    refine .sequence none fun g hg => ?_
    obtain ⟨v, hv, rfl⟩ := List.mem_map.1 hg
    exact ih v hv
  | object ms ih =>
    rw [ofJson_object]
    refine .object fun name g hg => ?_
    obtain ⟨v, hv, rfl⟩ := attribute?_ofMembers_eq_some_iff.1 hg
    exact ih name v (Members.mem_of_get? hv)

/-! ## Selections without orders -/

namespace Selector

mutual

/-- The node without its order and those of the nodes in its braces. -/
def Node.unordered : Node → Node
  | ⟨name, none, _⟩ => ⟨name, none, none⟩
  | ⟨name, some nodes, _⟩ => ⟨name, some (unordered nodes), none⟩

/-- The selection without any order. -/
def unordered : List Node → List Node
  | [] => []
  | n :: ns => n.unordered :: unordered ns

end

mutual

/-- The nodes select the same fields, in whichever orders. -/
inductive SameFields : Node → Node → Prop
  | plain {name : String} {order order' : Option OrderDirective} :
      SameFields ⟨name, none, order⟩ ⟨name, none, order'⟩
  | nested {name : String} {nodes nodes' : List Node} {order order' : Option OrderDirective} :
      SameFieldsAll nodes nodes' → SameFields ⟨name, some nodes, order⟩ ⟨name, some nodes', order'⟩

/-- `SameFields` for selections, node by node. -/
inductive SameFieldsAll : List Node → List Node → Prop
  | nil : SameFieldsAll [] []
  | cons {n n' : Node} {ns ns' : List Node} :
      SameFields n n' → SameFieldsAll ns ns' → SameFieldsAll (n :: ns) (n' :: ns')

end

mutual

theorem SameFields.symm {n n' : Node} : SameFields n n' → SameFields n' n
  | .plain => .plain
  | .nested h => .nested h.symm

theorem SameFieldsAll.symm {ns ns' : List Node} : SameFieldsAll ns ns' → SameFieldsAll ns' ns
  | .nil => .nil
  | .cons h hs => .cons h.symm hs.symm

end

mutual

theorem sameFields_unordered : ∀ n : Node, SameFields n n.unordered
  | ⟨_, none, _⟩ => .plain
  | ⟨_, some nodes, _⟩ => .nested (sameFieldsAll_unordered nodes)

theorem sameFieldsAll_unordered : ∀ ns : List Node, SameFieldsAll ns (unordered ns)
  | [] => .nil
  | n :: ns => .cons (sameFields_unordered n) (sameFieldsAll_unordered ns)

end

theorem SameFields.name_eq {n n' : Node} (h : SameFields n n') : n.name = n'.name := by
  cases h <;> rfl

end Selector

/-! ## Projections that differ in the order of elements -/

mutual

/-- The projections are equal but for the order of the elements of arrays. -/
inductive Projection.Rearranged : Projection → Projection → Prop
  | scalar (s : Scalar) : Projection.Rearranged (.scalar s) (.scalar s)
  | object {ms ms' : Members Projection} :
      Projection.RearrangedMembers ms ms' → Projection.Rearranged (.object ms) (.object ms')
  | array {ps qs qs' : List Projection} : Projection.RearrangedItems ps qs' → qs'.Perm qs →
      Projection.Rearranged (.array ps) (.array qs)

/-- `Projection.Rearranged` element by element. -/
inductive Projection.RearrangedItems : List Projection → List Projection → Prop
  | nil : Projection.RearrangedItems [] []
  | cons {p q : Projection} {ps qs : List Projection} :
      Projection.Rearranged p q → Projection.RearrangedItems ps qs →
      Projection.RearrangedItems (p :: ps) (q :: qs)

/-- The members have the same keys in the same order, and their values are rearranged. -/
inductive Projection.RearrangedMembers : Members Projection → Members Projection → Prop
  | nil : Projection.RearrangedMembers [] []
  | cons {k : String} {p q : Projection} {ms ms' : Members Projection} :
      Projection.Rearranged p q → Projection.RearrangedMembers ms ms' →
      Projection.RearrangedMembers ((k, p) :: ms) ((k, q) :: ms')

end

namespace Projection

mutual

theorem Rearranged.refl : ∀ p : Projection, p.Rearranged p
  | .object ms => .object (RearrangedMembers.refl ms)
  | .array ps => .array (RearrangedItems.refl ps) (.refl ps)
  | .scalar s => .scalar s

theorem RearrangedItems.refl : ∀ ps : List Projection, RearrangedItems ps ps
  | [] => .nil
  | p :: ps => .cons (Rearranged.refl p) (RearrangedItems.refl ps)

theorem RearrangedMembers.refl : ∀ ms : List (String × Projection), RearrangedMembers ms ms
  | [] => .nil
  | (_, p) :: ms => .cons (Rearranged.refl p) (RearrangedMembers.refl ms)

end

theorem RearrangedMembers.insert {ms ms' : Members Projection} {p q : Projection}
    (h : RearrangedMembers ms ms') (key : String) (hpq : p.Rearranged q) :
    RearrangedMembers (ms.insert key p) (ms'.insert key q) := by
  induction ms generalizing ms' with
  | nil =>
    cases h
    exact .cons hpq .nil
  | cons m ms ih =>
    cases h with
    | @cons k _ _ _ _ hm h =>
      by_cases hk : k = key
      · rw [Members.insert, Members.insert, if_pos hk, if_pos hk]
        exact .cons hpq h
      · rw [Members.insert, Members.insert, if_neg hk, if_neg hk]
        exact .cons hm (ih h)

end Projection

namespace Projector

open Selector (SameFields SameFieldsAll unordered)
open Projection (Rearranged RearrangedItems RearrangedMembers)
open Run (Follows Returns)

variable {config : ProjectorConfig} {scope : Scope} {nodes nodes' : List Node}

/-! ## Walks over rearranged elements -/

section
variable {rule rule' : Path → Object Graph → Run Projection}

/-- If each element is sure to be projected, so are all, in whatever places. -/
theorem rearranged_walkAll_pure {gs : List Graph} {qs : List Projection}
    (h : List.Forall₂ (fun g q => ∀ path, Follows Rearranged (walk rule path g) (pure q)) gs qs)
    (path : Path) (i : Nat) : Follows RearrangedItems (walkAll rule path i gs) (pure qs) := by
  induction h generalizing i with
  | nil => exact .pure .nil
  | @cons g q gs qs hq _ ih =>
    show Follows RearrangedItems (walkAll rule path i (g :: gs))
      (pure q >>= fun q => pure qs >>= fun qs => pure (q :: qs))
    rw [walkAll]
    exact (hq (path.index i)).bind fun p q hpq => (ih (i + 1)).bind fun ps qs hps =>
      .pure (.cons hpq hps)

/-- A walk over elements follows a walk over the elements in another order. -/
theorem rearranged_walkAll {gs hs : List Graph} (hperm : gs.Perm hs)
    (h : ∀ g ∈ hs, ∀ path path', Follows Rearranged (walk rule path g) (walk rule' path' g))
    (path path' : Path) (i i' : Nat) :
    Follows (fun ps qs => ∃ qs', RearrangedItems ps qs' ∧ qs'.Perm qs) (walkAll rule path i gs)
      (walkAll rule' path' i' hs) := by
  rw [Run.follows_iff]
  intro qs hqs
  -- where one walk projects all elements, the other is sure to, wherever it meets them
  have hsure : List.Forall₂
      (fun g q => ∀ path, Follows Rearranged (walk rule path g) (pure q)) hs qs := by
    refine forall₂_imp_of_mem (returns_walkAll hqs) fun g hg q hq path => ?_
    obtain ⟨path', hq⟩ := hq
    exact Run.follows_iff.1 (h g hg path path') q hq
  obtain ⟨qs', hqs', hperm'⟩ := List.perm_comp_forall₂ hperm hsure
  intro ds es _ he
  cases he
  obtain ⟨ps, hps, hrel⟩ := rearranged_walkAll_pure hqs' path i ds es qs' rfl
  exact ⟨ps, hps, qs', hrel, hperm'⟩

theorem rearranged_walk_sequence {gs hs : List Graph} (hperm : gs.Perm hs)
    (h : ∀ g ∈ hs, ∀ path path', Follows Rearranged (walk rule path g) (walk rule' path' g))
    (declared declared' : Option Schema) (path path' : Path) :
    Follows Rearranged (walk rule path (.sequence gs declared none))
      (walk rule' path' (.sequence hs declared' none)) := by
  rw [walk, walk]
  refine (rearranged_walkAll hperm h path path' 0 0).map fun ps qs hpq => ?_
  obtain ⟨qs', hrel, hperm'⟩ := hpq
  exact .array hrel hperm'

variable (h : ∀ o : Object Graph, Graph.NoNativeOrder (.object o) → ∀ path path',
  Follows Rearranged (rule path o) (rule' path' o))
include h

/-- A walk follows another if its rule for objects does. -/
theorem rearranged_walk {g : Graph} (hg : g.NoNativeOrder) (path path' : Path) :
    Follows Rearranged (walk rule path g) (walk rule' path' g) := by
  induction hg generalizing path path' with
  | scalar s => exact .pure (Rearranged.refl .emptyObject)
  | @object o ho => exact h o (.object ho) path path'
  | sequence declared _ ih =>
    exact rearranged_walk_sequence (.refl _) ih declared declared path path'

/-- The same holds if either puts the elements in an order first. -/
theorem rearranged_walk_ordered {g : Graph} (hg : g.NoNativeOrder)
    (order order' : Option OrderDirective) (path path' : Path) :
    Follows Rearranged (walk rule path (ordered config order g))
      (walk rule' path' (ordered config order' g)) := by
  have hwalk : ∀ {g : Graph}, g.NoNativeOrder → ∀ path path',
      Follows Rearranged (walk rule path g) (walk rule' path' g) := fun hg => rearranged_walk h hg
  cases hg with
  | scalar s =>
    rw [ordered_of_not_sequence rfl, ordered_of_not_sequence rfl]
    exact hwalk (.scalar s) path path'
  | object ho =>
    rw [ordered_of_not_sequence rfl, ordered_of_not_sequence rfl]
    exact hwalk (.object ho) path path'
  | @sequence elements declared hs =>
    obtain ⟨gs, declared₁, hgs, hg⟩ := exists_ordered_map config order id elements declared
    obtain ⟨gs', declared₂, hgs', hg'⟩ := exists_ordered_map config order' id elements declared
    rw [List.map_id] at hg hg'
    rw [hg, hg', List.map_id, List.map_id]
    have hperm : gs.Perm gs' := hgs.trans hgs'.symm
    refine rearranged_walk_sequence hperm (fun g hg => ?_) declared₁ declared₂ path path'
    exact hwalk (hs g (hgs'.subset hg))

end

/-! ## Projections side by side -/

theorem follows_noteDenied (path path' : Path) :
    Follows (fun _ _ => True) (noteDenied config path) (noteDenied config path') := by
  unfold noteDenied
  split <;> exact fun _ _ _ _ => ⟨(), rfl, trivial⟩

theorem follows_inOrder (value : Graph) (order order' : Option OrderDirective) (path path' : Path) :
    Follows (fun v v' => v = ordered config order value ∧ v' = ordered config order' value)
      (inOrder config path order value) (inOrder config path' order' value) := by
  rw [Run.follows_iff]
  intro v hv ds es _ he
  cases he
  exact ⟨_, by rw [run_inOrder], rfl, returns_inOrder hv⟩

theorem rearrangedMembers_settle {done done' : Members Projection} {r r' : Option Projection}
    (h : RearrangedMembers done done') (name : String) (hr : Option.Rel Rearranged r r') :
    RearrangedMembers (settle done name r) (settle done' name r') := by
  cases hr with
  | none => exact h
  | some hpq => exact h.insert name hpq

/-- Objects are projected side by side if their members are. -/
theorem rearranged_projectObject
    (h : ∀ o : Object Graph, Graph.NoNativeOrder (.object o) → ∀ path path',
      Follows RearrangedMembers (projectFields config scope path o [] nodes)
        (projectFields config scope path' o [] nodes'))
    (o : Object Graph) (ho : Graph.NoNativeOrder (.object o)) (path path' : Path) :
    Follows Rearranged (projectObject config nodes scope path o)
      (projectObject config nodes' scope path' o) :=
  (h o ho path path').map fun _ _ hms => .object hms

mutual

/-- The value of a field, whichever orders are requested for it and within it. -/
theorem rearranged_projectField (config : ProjectorConfig) {o : Object Graph}
    (ho : Graph.NoNativeOrder (.object o)) (scope : Scope) (path path' : Path) :
    ∀ {n n' : Node}, SameFields n n' → Follows (Option.Rel Rearranged)
      (projectField config scope path o n) (projectField config scope path' o n')
  | n, n', h => by
    by_cases hp : scope.permits n.name = true
    · have hp' : scope.permits n'.name = true := h.name_eq ▸ hp
      cases ha : o.attribute? n.name with
      | none =>
        rw [projectField_missing hp' (h.name_eq ▸ ha)]
        exact .throw _ _
      | some v =>
        have ha' : o.attribute? n'.name = some v := h.name_eq ▸ ha
        have hv : v.NoNativeOrder := by
          cases ho with
          | object hv => exact hv n.name v ha
        cases h with
        | plain =>
          rw [projectField_plain hp ha rfl, projectField_plain hp' ha' rfl]
          exact .pure (.some (Rearranged.refl _))
        | @nested name nodes nodes' order order' hs =>
          rw [projectField_nested hp ha rfl, projectField_nested hp' ha' rfl]
          have hfields := rearranged_projectObject fun o ho path path' =>
            rearranged_projectFields config (o := o) ho (scope.under name) path path' hs .nil
          refine (follows_inOrder v order order' _ _).bind fun w w' hw => ?_
          obtain ⟨rfl, rfl⟩ := hw
          exact (rearranged_walk_ordered hfields hv order order' _ _).map fun _ _ hpq => .some hpq
    · have hp' : ¬scope.permits n'.name = true := h.name_eq ▸ hp
      rw [projectField_denied hp, projectField_denied hp']
      exact (follows_noteDenied _ _).bind fun _ _ _ => .pure .none

/-- The members of an object, after those that are there before. -/
theorem rearranged_projectFields (config : ProjectorConfig) {o : Object Graph}
    (ho : Graph.NoNativeOrder (.object o)) (scope : Scope) (path path' : Path) :
    ∀ {ns ns' : List Node}, SameFieldsAll ns ns' → ∀ {done done' : Members Projection},
      RearrangedMembers done done' → Follows RearrangedMembers
        (projectFields config scope path o done ns) (projectFields config scope path' o done' ns')
  | _, _, .nil, _, _, hdone => .pure hdone
  | n :: _, _, .cons h hs, _, _, hdone => by
    rw [projectFields_cons, projectFields_cons, ← h.name_eq]
    refine (rearranged_projectField config ho scope path path' h).bind fun r r' hr => ?_
    have hsettled := rearrangedMembers_settle hdone n.name hr
    exact rearranged_projectFields config ho scope path path' hs hsettled

end

variable {target : Graph}

theorem rearranged_project (ht : target.NoNativeOrder) (h : SameFieldsAll nodes nodes') :
    Follows Rearranged (project config target nodes scope)
      (project config target nodes' scope) := by
  have hfields := rearranged_projectObject fun o ho path path' =>
    rearranged_projectFields config (o := o) ho scope path path' h .nil
  refine (rearranged_walk hfields ht [] []).map fun p q hpq => ?_
  unfold wrap
  split
  · exact .object (.cons hpq .nil)
  · exact hpq

/-- **Orders only permute.** A projection and the projection without the orders that are requested
both succeed, and are equal but for the order of the elements of arrays, or both fail. -/
theorem project_unordered (ht : target.NoNativeOrder) (ds es : Diagnostics) :
    (∃ p q, ((project config target nodes scope).run ds).1 = .ok p ∧
      ((project config target (unordered nodes) scope).run es).1 = .ok q ∧ p.Rearranged q) ∨
    ∃ e e', ((project config target nodes scope).run ds).1 = .error e ∧
      ((project config target (unordered nodes) scope).run es).1 = .error e' := by
  have hsame := Selector.sameFieldsAll_unordered nodes
  cases hq : ((project config target (unordered nodes) scope).run es).1 with
  | ok q =>
    obtain ⟨p, hp, hpq⟩ := rearranged_project ht hsame ds es q hq
    exact .inl ⟨p, q, hp, rfl, hpq⟩
  | error e' =>
    cases hp : ((project config target nodes scope).run ds).1 with
    | error e => exact .inr ⟨e, e', rfl, rfl⟩
    | ok p =>
      obtain ⟨q, hq', -⟩ := rearranged_project ht hsame.symm es ds p hp
      rw [hq] at hq'
      cases hq'

/-- A post with its time. -/
def timedPost (time : Json.Number) (text : String) : Json :=
  .object [("at", .number time), ("text", .string text)]

/-- A thread with two posts, the later one last. -/
def firstThread : Json := .object [("at", .number (.integer 1 rfl)),
  ("posts", .array [timedPost (.integer 5 rfl) "a", timedPost (.integer 7 rfl) "b"])]

/-- A later thread without posts. -/
def lastThread : Json := .object [("at", .number (.integer 2 rfl)), ("posts", .array [])]

/-- The threads; the later one comes last. -/
def threads : Json := .object [("threads", .array [firstThread, lastThread])]

/-- The threads with their posts, each in order, and an order on a time that means nothing. -/
def threadsFields : List Node :=
  [⟨"threads", some [⟨"posts", some [⟨"text", none, none⟩], some .chronological⟩,
    ⟨"at", none, some (.invalid "up")⟩], some .chronological⟩]

/-- The latest thread first, and in each the latest post. -/
def threadsInOrder : Projection := .object [("threads", .array [
  .object [("posts", .array []), ("at", .scalar (.int 2))],
  .object [("posts", .array [.object [("text", .scalar (.string "b"))],
    .object [("text", .scalar (.string "a"))]]), ("at", .scalar (.int 1))]])]

/-- The threads and posts as they come. -/
def threadsAsTheyCome : Projection := .object [("threads", .array [
  .object [("posts", .array [.object [("text", .scalar (.string "a"))],
    .object [("text", .scalar (.string "b"))]]), ("at", .scalar (.int 1))],
  .object [("posts", .array []), ("at", .scalar (.int 2))]])]

theorem project_unordered_threads : (Graph.ofJson threads).NoNativeOrder ∧
    ((project ⟨.data, "at", true⟩ (.ofJson threads) threadsFields .unrestricted).run []).1 =
      .ok threadsInOrder ∧
    ((project ⟨.data, "at", true⟩ (.ofJson threads) (unordered threadsFields) .unrestricted).run
      []).1 = .ok threadsAsTheyCome ∧
    threadsInOrder.Rearranged threadsAsTheyCome := by
  have ht := Graph.noNativeOrder_ofJson threads
  have hthreads : Arrangement.sorted "at" .asc [.ofJson firstThread, .ofJson lastThread] =
      .ok [.ofJson lastThread, .ofJson firstThread] :=
    Arrangement.sorted_swap rfl rfl rfl
  have hposts : Arrangement.sorted "at" .asc
      [.ofJson (timedPost (.integer 5 rfl) "a"), .ofJson (timedPost (.integer 7 rfl) "b")] =
      .ok [.ofJson (timedPost (.integer 7 rfl) "b"), .ofJson (timedPost (.integer 5 rfl) "a")] :=
    Arrangement.sorted_swap rfl rfl rfl
  have hp : ((project ⟨.data, "at", true⟩ (.ofJson threads) threadsFields .unrestricted).run []).1 =
      .ok threadsInOrder := by
    -- first the threads change places, then the posts in the one that is now the second
    rw [threads, Graph.ofJson_object, project_object, threadsFields, projectFields_cons,
      projectField_sorted rfl rfl rfl rfl hthreads]
    rw [Graph.plainSequence, walk, walkAll, walkAll, firstThread, Graph.ofJson_object, walk,
      projectObject, projectFields_cons, projectField_sorted rfl rfl rfl rfl hposts]
    decide +kernel
  have hq : ((project ⟨.data, "at", true⟩ (.ofJson threads) (unordered threadsFields)
      .unrestricted).run []).1 = .ok threadsAsTheyCome := by rfl
  refine ⟨ht, hp, hq, ?_⟩
  rcases project_unordered ht [] [] with ⟨p, q, hp', hq', hpq⟩ | ⟨e, e', he, -⟩
  · rw [hp] at hp'
    rw [hq] at hq'
    cases hp'
    cases hq'
    exact hpq
  · rw [hp] at he
    cases he

end Projector

end Facet
