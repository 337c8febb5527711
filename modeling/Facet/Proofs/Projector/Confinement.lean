import Facet.Graph.OfJson
import Facet.Proofs.Projection
import Facet.Proofs.Projector.Outcome
import Facet.Proofs.Scope

/-!
# What a projection reveals

The chains of keys in a successful projection are read off the selection, the scope and the graph
(`chain_walk`, `ShownPlain.chain`): down a selection in braces each key is checked against the scope,
but a value that is selected without braces shows its declared fields unchecked. So an allow-list
confines the projection exactly if every value that is shown plainly declares no more than the scope
under its field permits (`confined_iff`). Without that condition it does not: a bare name in the allow-list lets out
the fields of the object under it (`not_always_confined`).
-/

set_option autoImplicit false

namespace Facet

open Selector (Node Final)

/-- The keys lead down from the root of the projection, through arrays as well. -/
inductive Projection.Chain : Projection → List String → Prop
  | root (p : Projection) : Chain p []
  | member {members : List (String × Projection)} {k : String} {p : Projection} {ks : List String} :
      (k, p) ∈ members → Chain p ks → Chain (.object members) (k :: ks)
  | item {items : List Projection} {p : Projection} {ks : List String} :
      p ∈ items → Chain p ks → Chain (.array items) ks

/-- The fields lead down from the value, each declared by the object before it. -/
inductive Graph.Declares : Graph → List String → Prop
  | root (g : Graph) : Declares g []
  | field {o : Object Graph} {k : String} {v : Graph} {ks : List String} :
      k ∈ o.schema.fields → o.attribute? k = some v → Declares v ks → Declares (.object o) (k :: ks)
  | element {elements : List Graph} {declared : Option Schema}
      {native : Option (List ((String × Direction) × List Graph))} {g : Graph} {ks : List String} :
      g ∈ elements → Declares g ks → Declares (.sequence elements declared native) ks

namespace Projector

section
variable (config : ProjectorConfig)

/-- The selection leads down permitted fields to a value that is selected without braces. -/
inductive ShownPlain : List Node → Scope → Graph → List String → Graph → Prop
  | field {nodes : List Node} {scope : Scope} {o : Object Graph} {n : Node} {v : Graph} :
      Final n nodes → scope.permits n.name = true → o.attribute? n.name = some v →
      n.children = none → ShownPlain nodes scope (.object o) [n.name] v
  | nested {nodes inner : List Node} {scope : Scope} {o : Object Graph} {n : Node} {v w : Graph}
      {ks : List String} :
      Final n nodes → scope.permits n.name = true → o.attribute? n.name = some v →
      n.children = some inner →
      ShownPlain inner (scope.under n.name) (ordered config n.order v) ks w →
      ShownPlain nodes scope (.object o) (n.name :: ks) w
  | element {nodes : List Node} {scope : Scope} {elements : List Graph} {declared : Option Schema}
      {native : Option (List ((String × Direction) × List Graph))} {g w : Graph}
      {ks : List String} :
      g ∈ elements → ShownPlain nodes scope g ks w →
      ShownPlain nodes scope (.sequence elements declared native) ks w

end

/-! ## Plain values -/

/-- The keys in a plain value are the fields that it declares. -/
theorem chain_leaf_iff {v : Graph} {ks : List String} :
    (Projection.leaf v).Chain ks ↔ v.Declares ks := by
  constructor
  · generalize hp : Projection.leaf v = p
    intro h
    induction h generalizing v with
    | root => exact .root v
    | member hm hc ih =>
      cases v with
      | scalar s => cases hp
      | sequence elements declared native => cases hp
      | object o =>
        cases hp
        obtain ⟨hk, w, hw, he⟩ := Projection.mem_leaf_object.1 hm
        exact .field hk hw (ih he)
    | item hm hc ih =>
      cases v with
      | scalar s => cases hp
      | object o => cases hp
      | sequence elements declared native =>
        cases hp
        rw [Projection.leafItems_eq] at hm
        obtain ⟨g, hg, he⟩ := List.mem_map.1 hm
        exact .element hg (ih he)
  · intro h
    induction h with
    | root => exact .root _
    | field hk hv hd ih => exact .member (Projection.mem_leaf_object.2 ⟨hk, _, hv, rfl⟩) ih
    | element hg hd ih =>
      refine .item ?_ ih
      rw [Projection.leafItems_eq]
      exact List.mem_map_of_mem hg

/-! ## Confinement -/

theorem ShownPlain.permitsChain {config : ProjectorConfig} {nodes : List Node} {scope : Scope}
    {g w : Graph} {ks : List String} (h : ShownPlain config nodes scope g ks w) :
    scope.permitsChain ks = true := by
  induction h with
  | field _ hp _ _ => exact Scope.permitsChain_cons.2 ⟨hp, rfl⟩
  | nested _ hp _ _ _ ih => exact Scope.permitsChain_cons.2 ⟨hp, ih⟩
  | element _ _ ih => exact ih

/-- A chain of keys in a successful walk is permitted, or goes on from a permitted one through the
fields that a plain value declares. -/
theorem chain_walk {config : ProjectorConfig} {nodes : List Node} {scope : Scope} {path : Path}
    {g : Graph} {p : Projection} {ks : List String}
    (hr : Run.Returns (walk (projectObject config nodes scope) path g) p) (h : p.Chain ks) :
    scope.permitsChain ks = true ∨
      ∃ js v is, ks = js ++ is ∧ ShownPlain config nodes scope g js v ∧ v.Declares is := by
  induction h generalizing nodes scope path g with
  | root p => exact .inl rfl
  | @member members k p ks hm hc ih =>
    cases g with
    | scalar s => cases returns_walk_scalar hr; cases hm
    | sequence elements declared native =>
      obtain ⟨ps, he, -⟩ := returns_walk_sequence hr
      cases he
    | object o =>
      obtain ⟨ms, he, hr⟩ := returns_walk_object hr
      cases he
      obtain ⟨hback, -, -⟩ := returns_projectFields Members.nodup_keys_nil hr
      rcases hback k p hm with ⟨n, hn, rfl, hp, hr⟩ | ⟨hm, -⟩
      · obtain ⟨v, q, hv, he, ⟨hc', rfl⟩ | ⟨inner, path', hc', hr⟩⟩ := returns_projectField hp hr
        · cases he
          exact .inr ⟨[n.name], v, ks, rfl, .field hn hp hv hc', chain_leaf_iff.1 hc⟩
        · cases he
          rcases ih hr with hs | ⟨js, w, is, rfl, hs, hd⟩
          · exact .inl (Scope.permitsChain_cons.2 ⟨hp, hs⟩)
          · exact .inr ⟨n.name :: js, w, is, rfl, .nested hn hp hv hc' hs, hd⟩
      · cases hm
  | @item items p ks hm hc ih =>
    cases g with
    | scalar s => cases returns_walk_scalar hr
    | object o =>
      obtain ⟨ms, he, -⟩ := returns_walk_object hr
      cases he
    | sequence elements declared native =>
      obtain ⟨ps, he, hr⟩ := returns_walk_sequence hr
      cases he
      obtain ⟨g, hg, path', hr⟩ := exists_left_of_mem hr hm
      rcases ih hr with hs | ⟨js, w, is, rfl, hs, hd⟩
      · exact .inl hs
      · exact .inr ⟨js, w, is, rfl, .element hg hs, hd⟩

/-- The fields that a plain value declares are in the projection. -/
theorem ShownPlain.chain {config : ProjectorConfig} {nodes : List Node} {scope : Scope}
    {path : Path} {g v : Graph} {p : Projection} {js is : List String}
    (h : ShownPlain config nodes scope g js v) (hd : v.Declares is)
    (hr : Run.Returns (walk (projectObject config nodes scope) path g) p) : p.Chain (js ++ is) := by
  induction h generalizing path p with
  | @field nodes scope o n v hn hp hv hc =>
    obtain ⟨ms, rfl, hms⟩ := returns_walk_object hr
    exact .member (mem_leaf_of_final hms hn hp hv hc) (chain_leaf_iff.2 hd)
  | @nested nodes inner scope o n v w ks hn hp hv hc _ ih =>
    obtain ⟨ms, rfl, hms⟩ := returns_walk_object hr
    obtain ⟨q, hq, path', hw⟩ := exists_mem_of_final hms hn hp hv hc
    exact .member hq (ih hd hw)
  | @element nodes scope elements declared native g w ks hg _ ih =>
    obtain ⟨ps, rfl, hps⟩ := returns_walk_sequence hr
    obtain ⟨q, hq, path', hw⟩ := exists_right_of_mem hps hg
    exact .item hq (ih hd hw)

/-- What is projected, without the wrapping of a sequence at the root. -/
def unwrapped (config : ProjectorConfig) (target : Graph) (p : Projection) : Projection :=
  if target.isSequence ∧ config.wrapping = .data then (p.get? "data").getD p else p

theorem unwrapped_wrap (config : ProjectorConfig) (target : Graph) (p : Projection) :
    unwrapped config target (wrap config target p) = p := by
  unfold unwrapped wrap
  split <;> rfl

/-- **When the allow-list bounds what is revealed**: every chain of keys in a projection is permitted
exactly if every value that is shown plainly declares no chain of fields that the scope under its
field denies. -/
theorem confined_iff {config : ProjectorConfig} {target : Graph} {nodes : List Node} {scope : Scope}
    {ds : Diagnostics} {p : Projection}
    (h : ((project config target nodes scope).run ds).1 = .ok p) :
    (∀ ks, (unwrapped config target p).Chain ks → scope.permitsChain ks = true) ↔
      ∀ ks v js, ShownPlain config nodes scope target ks v → v.Declares js →
        (scope.underAll ks).permitsChain js = true := by
  obtain ⟨q, hq, rfl⟩ := Run.Returns.of_map
    (x := walk (projectObject config nodes scope) [] target) ⟨ds, h⟩
  rw [unwrapped_wrap]
  constructor
  · intro hc ks v js hs hd
    exact (Scope.permitsChain_append.1 (hc _ (hs.chain hd hq))).2
  · intro hp ks hc
    rcases chain_walk hq hc with hks | ⟨js, v, is, rfl, hs, hd⟩
    · exact hks
    · exact Scope.permitsChain_append.2 ⟨hs.permitsChain, hp js v is hs hd⟩

/-- A document with an author who has a name. -/
def authored : Graph := .ofJson (.object [("author", .object [("name", .string "Ada")])])

/-- An author whose name is permitted may be selected without braces. -/
theorem confined_authored :
    ((project .default authored [⟨"author", none, none⟩]
        (.restricted [.scoped "author" [.leaf "name"]])).run []).1 =
      .ok (.object [("author", .object [("name", .scalar (.string "Ada"))])]) ∧
    ∀ ks, (unwrapped .default authored
        (.object [("author", .object [("name", .scalar (.string "Ada"))])])).Chain ks →
      (Scope.restricted [.scoped "author" [.leaf "name"]]).permitsChain ks = true := by
  have hr : ((project .default authored [⟨"author", none, none⟩]
      (.restricted [.scoped "author" [.leaf "name"]])).run []).1 =
        .ok (.object [("author", .object [("name", .scalar (.string "Ada"))])]) := rfl
  refine ⟨hr, (confined_iff hr).2 fun ks v js hs hd => ?_⟩
  -- the only plain value is the author, and the only field that it declares is the name
  cases hs with
  | field hn _ hv _ =>
    obtain ⟨rfl, -⟩ | hn := hn
    · cases hv
      cases hd with
      | root => rfl
      | field hk hv hd =>
        obtain rfl := List.mem_singleton.1 hk
        cases hv
        cases hd
        decide
    · exact hn.elim
  | nested hn _ _ hc _ =>
    obtain ⟨rfl, -⟩ | hn := hn
    · cases hc
    · exact hn.elim

/-- **An allow-list does not confine every projection**: a bare name lets out the fields of the
object under it. -/
theorem not_always_confined :
    ¬∀ (config : ProjectorConfig) (target : Graph) (nodes : List Node) (entries : List Entry)
      (ds : Diagnostics) (p : Projection),
      ((project config target nodes (.restricted entries)).run ds).1 = .ok p →
      ∀ ks, (unwrapped config target p).Chain ks →
        (Scope.restricted entries).permitsChain ks = true := by
  intro h
  have hr : ((project .default authored [⟨"author", none, none⟩]
      (.restricted [.leaf "author"])).run []).1 =
        .ok (.object [("author", .object [("name", .scalar (.string "Ada"))])]) := rfl
  have hc := h _ _ _ _ _ _ hr ["author", "name"]
    (.member (.head _) (.member (.head _) (.root _)))
  exact absurd hc (by decide)

end Projector

end Facet
