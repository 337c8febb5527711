import Facet.Proofs.Arrangement
import Facet.Proofs.Document
import Facet.Proofs.Projector.Steps

/-!
# What a projection depends on

`Json.Agree` relates two documents that agree on what a selection reads of them within a scope, and
on the member that collections are ordered by: nothing is said of members that are denied or not
selected. Projecting either gives the same outcome and the same diagnostics (`project_agree`). The
proof takes the documents apart as the agreement does: at each place the graphs are `Alike`, so the
projector does the same with both, ordering included.
-/

set_option autoImplicit false

namespace Facet

open Selector (Node OrderDirective)

/-! ## Agreement of documents -/

mutual

/-- The documents agree on what the selection reads within the scope: they have the same shape, and
where both are objects, the fields that are selected and permitted agree, and the members under the
order key are equal. -/
inductive Json.Agree (orderKey : String) : List Node → Scope → Json → Json → Prop
  | plain {nodes : List Node} {scope : Scope} {v : Json} :
      v.isPlain = true → Json.Agree orderKey nodes scope v v
  | array {nodes : List Node} {scope : Scope} {vs ws : List Json} :
      Json.AgreeAll orderKey nodes scope vs ws →
      Json.Agree orderKey nodes scope (.array vs) (.array ws)
  | object {nodes : List Node} {scope : Scope} {ms ms' : Members Json} :
      (∀ n ∈ nodes, scope.permits n.name = true →
        Json.AgreeUnder orderKey scope n (Members.get? n.name ms) (Members.get? n.name ms')) →
      Members.get? orderKey ms = Members.get? orderKey ms' →
      Json.Agree orderKey nodes scope (.object ms) (.object ms')

/-- `Json.Agree` for arrays, element by element. -/
inductive Json.AgreeAll (orderKey : String) : List Node → Scope → List Json → List Json → Prop
  | nil {nodes : List Node} {scope : Scope} : Json.AgreeAll orderKey nodes scope [] []
  | cons {nodes : List Node} {scope : Scope} {v w : Json} {vs ws : List Json} :
      Json.Agree orderKey nodes scope v w → Json.AgreeAll orderKey nodes scope vs ws →
      Json.AgreeAll orderKey nodes scope (v :: vs) (w :: ws)

/-- The members under the name of a selected field agree: there are none, or they are equal, or with
braces after the name they agree on what is in the braces. -/
inductive Json.AgreeUnder (orderKey : String) : Scope → Node → Option Json → Option Json → Prop
  | absent {scope : Scope} {n : Node} : Json.AgreeUnder orderKey scope n none none
  | plain {scope : Scope} {name : String} {order : Option OrderDirective} {v : Json} :
      Json.AgreeUnder orderKey scope ⟨name, none, order⟩ (some v) (some v)
  | nested {scope : Scope} {name : String} {nodes : List Node} {order : Option OrderDirective}
      {v w : Json} : Json.Agree orderKey nodes (scope.under name) v w →
      Json.AgreeUnder orderKey scope ⟨name, some nodes, order⟩ (some v) (some w)

end

namespace Projector

variable {config : ProjectorConfig} {nodes : List Node} {scope : Scope} {path : Path}

/-! ## Graphs that are projected alike -/

section
variable (config) (rule : Path → Object Graph → Run Projection)

/-- The graphs are walked alike, in whichever order, and sorted alike as elements of a sequence. -/
structure Alike (g h : Graph) : Prop where
  isSequence : g.isSequence = h.isSequence
  sortKey : ∀ i, g.sortKey config.orderKey i = h.sortKey config.orderKey i
  walk : ∀ path order, inOrder config path order g >>= walk rule path =
    inOrder config path order h >>= walk rule path

end

variable {rule : Path → Object Graph → Run Projection} {g h : Graph} {gs hs : List Graph}

theorem Alike.refl (g : Graph) : Alike config rule g g := ⟨rfl, fun _ => rfl, fun _ _ => rfl⟩

theorem Alike.walk_eq (ha : Alike config rule g h) (path : Path) :
    Projector.walk rule path g = Projector.walk rule path h := by
  have := ha.walk path none
  simpa [inOrder] using this

theorem walkAll_congr (ha : List.Forall₂ (Alike config rule) gs hs) (path : Path) (i : Nat) :
    walkAll rule path i gs = walkAll rule path i hs := by
  induction ha generalizing i with
  | nil => rfl
  | cons hg _ ih => rw [walkAll, walkAll, hg.walk_eq, ih]

theorem Alike.object {o o' : Object Graph} (ht : o.typeName = o'.typeName)
    (hk : o.attribute? config.orderKey = o'.attribute? config.orderKey)
    (hr : ∀ path, rule path o = rule path o') : Alike config rule (.object o) (.object o') := by
  refine ⟨rfl, fun i => ?_, fun path order => ?_⟩
  · simp only [Graph.sortKey, hk]
  · cases order with
    | none => simp [inOrder, Projector.walk, hr]
    | some d =>
      cases hd : d.direction? <;> simp [inOrder, hd, Graph.kindName, ht, Projector.walk, hr]

/-- A plain sequence in order, or as it is with a note of the reason. -/
theorem inOrder_plainSequence {d : OrderDirective} {direction : Direction}
    (hd : d.direction? = some direction) :
    inOrder config path (some d) (.plainSequence gs) =
      match Arrangement.sorted config.orderKey direction gs with
      | .ok gs' => pure (.plainSequence gs')
      | .error fault =>
        note fault.kind ("Cannot order " ++ placeText path ++ " by " ++ config.orderKey ++ ": " ++
          fault.reason) >>= fun _ => pure (.plainSequence gs) := by
  simp only [inOrder, hd, Graph.plainSequence, Arrangement.arrange, Arrangement.arranged]
  cases Arrangement.sorted config.orderKey direction gs <;> rfl

theorem walk_plainSequence_congr (ha : List.Forall₂ (Alike config rule) gs hs) (path : Path) :
    walk rule path (.plainSequence gs) = walk rule path (.plainSequence hs) := by
  simp only [Graph.plainSequence, walk, walkAll_congr ha]

theorem Alike.sequence (ha : List.Forall₂ (Alike config rule) gs hs) :
    Alike config rule (.plainSequence gs) (.plainSequence hs) := by
  refine ⟨rfl, fun i => rfl, fun path order => ?_⟩
  cases order with
  | none => simpa [inOrder] using walk_plainSequence_congr ha path
  | some d =>
    cases hd : d.direction? with
    | none => simp [inOrder, hd, walk_plainSequence_congr ha]
    | some direction =>
      rw [inOrder_plainSequence hd, inOrder_plainSequence hd]
      -- the keys decide the order, so both sides are sorted by one permutation or fail alike
      rcases Arrangement.sorted_related direction (fun _ _ ha => ha.sortKey) ha with
        ⟨fault, hg, hh⟩ | ⟨gs', hs', hg, hh, ha'⟩
      · simp [hg, hh, walk_plainSequence_congr ha]
      · simp [hg, hh, walk_plainSequence_congr ha']

/-! ## Fields -/

/-- Fields that are projected alike one by one are projected alike together. -/
theorem projectFields_congr {o o' : Object Graph} {done : Members Projection} {ns : List Node}
    (h : ∀ n ∈ ns, projectField config scope path o n = projectField config scope path o' n) :
    projectFields config scope path o done ns = projectFields config scope path o' done ns := by
  induction ns generalizing done with
  | nil => rfl
  | cons n ns ih =>
    rw [projectFields_cons, projectFields_cons, h n (.head _)]
    congr 1
    funext v
    exact ih fun m hm => h m (.tail _ hm)

/-! ## Agreeing documents are projected alike -/

mutual

theorem alike_of_agree {nodes : List Node} {scope : Scope} {v w : Json} :
    Json.Agree config.orderKey nodes scope v w →
      Alike config (projectObject config nodes scope) (.ofJson v) (.ofJson w)
  | .plain _ => .refl _
  | .array hs => by
    rw [Graph.ofJson_array, Graph.ofJson_array]
    exact .sequence (alike_of_agreeAll hs)
  | @Json.Agree.object _ _ _ ms ms' hf hk => by
    have hkey : (Object.ofMembers ms).attribute? config.orderKey =
        (Object.ofMembers ms').attribute? config.orderKey := by
      rw [Graph.attribute?_ofMembers, Graph.attribute?_ofMembers, hk]
    refine Alike.object rfl hkey fun path => congrArg (Projection.object <$> ·) ?_
    refine projectFields_congr fun n hn => ?_
    -- a denied field is not looked up: what the objects have there does not matter
    by_cases hp : scope.permits n.name = true
    · have ho := Graph.attribute?_ofMembers ms n.name
      have ho' := Graph.attribute?_ofMembers ms' n.name
      exact projectField_of_agreeUnder (hf n hn hp) hp ho ho' rfl path
    · rw [projectField_denied hp, projectField_denied hp]

theorem alike_of_agreeAll {nodes : List Node} {scope : Scope} {vs ws : List Json} :
    Json.AgreeAll config.orderKey nodes scope vs ws →
      List.Forall₂ (Alike config (projectObject config nodes scope)) (vs.map .ofJson)
        (ws.map .ofJson)
  | .nil => .nil
  | .cons h hs => .cons (alike_of_agree h) (alike_of_agreeAll hs)

theorem projectField_of_agreeUnder {scope : Scope} {n : Node} {x y : Option Json}
    {o o' : Object Graph} :
    Json.AgreeUnder config.orderKey scope n x y → scope.permits n.name = true →
      o.attribute? n.name = x.map .ofJson → o'.attribute? n.name = y.map .ofJson →
      o.typeName = o'.typeName →
      ∀ path, projectField config scope path o n = projectField config scope path o' n
  | .absent, hp, ho, ho', ht, path => by
    rw [projectField_missing hp ho, projectField_missing hp ho', ht]
  | .plain, hp, ho, ho', ht, path => by
    rw [projectField_plain hp ho rfl, projectField_plain hp ho' rfl]
  | .nested h, hp, ho, ho', ht, path => by
    rw [projectField_nested hp ho rfl, projectField_nested hp ho' rfl]
    rw [← map_bind, ← map_bind, (alike_of_agree h).walk]

end

/-- **Noninterference**: documents that agree on what a selection reads within a scope have the same
outcome, be it a projection or an error, and the same diagnostics are recorded. -/
theorem project_agree {d d' : Json} (h : d.Agree config.orderKey nodes scope d')
    (ds : Diagnostics) :
    (project config (.ofJson d) nodes scope).run ds =
      (project config (.ofJson d') nodes scope).run ds := by
  have ha := alike_of_agree h
  have hwrap : wrap config (.ofJson d) = wrap config (.ofJson d') := by
    funext p
    simp only [wrap, ha.isSequence]
  rw [project, project, hwrap, ha.walk_eq]

/-- A post with a title, a date and whatever else it has. -/
def post (title date : String) (rest : Members Json) : Json :=
  .object (("title", .string title) :: ("created_at", .string date) :: rest)

/-- Posts, one of them a draft, and a token beside them. -/
def blog : Json :=
  .object [("token", .string "s3cret"),
    ("posts", .array [post "a" "2024-01" [("draft", .bool true)], post "b" "2024-02" []])]

/-- The posts without a token or a sign of a draft. -/
def publicBlog : Json :=
  .object [("posts", .array [post "a" "2024-01" [], post "b" "2024-02" []])]

/-- The token, and the titles of the posts in order. -/
def blogFields : List Node :=
  [⟨"token", none, none⟩, ⟨"posts", some [⟨"title", none, none⟩], some .chronological⟩]

/-- Permits the titles of the posts. -/
def titlesOnly : Scope := .restricted [.scoped "posts" [.leaf "title"]]

theorem project_agree_blog : blog.Agree "created_at" blogFields titlesOnly publicBlog ∧
    (project .default (.ofJson blog) blogFields titlesOnly).run [] =
      (project .default (.ofJson publicBlog) blogFields titlesOnly).run [] := by
  have hpost (title date : String) (rest rest' : Members Json) :
      (post title date rest).Agree "created_at" [⟨"title", none, none⟩]
        (.restricted [.leaf "title"]) (post title date rest') := by
    refine .object (fun n hn _ => ?_) rfl
    obtain rfl := List.mem_singleton.1 hn
    exact .plain
  have h : blog.Agree "created_at" blogFields titlesOnly publicBlog := by
    refine .object (fun n hn hp => ?_) rfl
    rcases List.mem_cons.1 hn with rfl | hn
    · exact absurd hp (by decide)
    · obtain rfl := List.mem_singleton.1 hn
      exact .nested (.array (.cons (hpost ..) (.cons (hpost ..) .nil)))
  exact ⟨h, project_agree h []⟩

end Projector

end Facet
