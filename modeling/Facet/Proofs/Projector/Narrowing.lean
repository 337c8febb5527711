import Facet.Graph.OfJson
import Facet.Proofs.Projector.Outcome
import Facet.Proofs.Scope

/-!
# Narrower allow-lists

Within a narrower scope a projection reveals a part of what it reveals within a wider one, and it
does not fail where the wider one does not (`project_narrowed`). `Projection.Narrowed scope nodes p q`
says which part `p` is of `q`: of each object the fields that the scope permits, in the same order,
and of each of these the value that is shown without braces as it is, and one that is projected
through braces narrowed in turn.
-/

set_option autoImplicit false

namespace Facet

open Selector (Node OrderDirective Final)

/-! ## Parts of a projection -/

mutual

/-- The first projection, through a selection in braces, is what the scope leaves of the second. -/
inductive Projection.Narrowed : Scope → List Node → Projection → Projection → Prop
  | object {scope : Scope} {nodes : List Node} {ms ms' : Members Projection} :
      Projection.NarrowedMembers scope nodes ms ms' →
      Projection.Narrowed scope nodes (.object ms) (.object ms')
  | array {scope : Scope} {nodes : List Node} {ps qs : List Projection} :
      Projection.NarrowedItems scope nodes ps qs →
      Projection.Narrowed scope nodes (.array ps) (.array qs)

/-- `Projection.Narrowed` for arrays, element by element. -/
inductive Projection.NarrowedItems : Scope → List Node → List Projection → List Projection → Prop
  | nil {scope : Scope} {nodes : List Node} : Projection.NarrowedItems scope nodes [] []
  | cons {scope : Scope} {nodes : List Node} {p q : Projection} {ps qs : List Projection} :
      Projection.Narrowed scope nodes p q → Projection.NarrowedItems scope nodes ps qs →
      Projection.NarrowedItems scope nodes (p :: ps) (q :: qs)

/-- The members in their order: those of names that the scope denies are withheld, the others shown
with the value of the node that counts. -/
inductive Projection.NarrowedMembers :
    Scope → List Node → Members Projection → Members Projection → Prop
  | nil {scope : Scope} {nodes : List Node} : Projection.NarrowedMembers scope nodes [] []
  | withheld {scope : Scope} {nodes : List Node} {k : String} {q : Projection}
      {ms ms' : Members Projection} :
      ¬scope.permits k = true → Projection.NarrowedMembers scope nodes ms ms' →
      Projection.NarrowedMembers scope nodes ms ((k, q) :: ms')
  | shown {scope : Scope} {nodes : List Node} {n : Node} {p q : Projection}
      {ms ms' : Members Projection} :
      Final n nodes → scope.permits n.name = true → Projection.NarrowedValue scope n p q →
      Projection.NarrowedMembers scope nodes ms ms' →
      Projection.NarrowedMembers scope nodes ((n.name, p) :: ms) ((n.name, q) :: ms')

/-- The values of a field: equal without braces, narrowed with them. -/
inductive Projection.NarrowedValue : Scope → Node → Projection → Projection → Prop
  | plain {scope : Scope} {name : String} {order : Option OrderDirective} {p : Projection} :
      Projection.NarrowedValue scope ⟨name, none, order⟩ p p
  | nested {scope : Scope} {name : String} {nodes : List Node} {order : Option OrderDirective}
      {p q : Projection} : Projection.Narrowed (scope.under name) nodes p q →
      Projection.NarrowedValue scope ⟨name, some nodes, order⟩ p q

end

/-! ## Nodes that count -/

namespace Selector

theorem Final.append {n m : Node} {ns : List Node} (h : Final n ns) (hne : m.name ≠ n.name) :
    Final n (ns ++ [m]) := by
  induction ns with
  | nil => exact h.elim
  | cons l ls ih =>
    rcases h with ⟨rfl, hl⟩ | h
    · refine .inl ⟨rfl, fun k hk => ?_⟩
      rcases List.mem_append.1 hk with hk | hk
      · exact hl k hk
      · rw [List.mem_singleton.1 hk]
        exact hne
    · exact .inr (ih h)

theorem final_append_self (m : Node) (ns : List Node) : Final m (ns ++ [m]) := by
  induction ns with
  | nil => exact .inl ⟨rfl, List.forall_mem_nil _⟩
  | cons l ls ih => exact .inr ih

end Selector

/-! ## Members side by side -/

namespace Projection.NarrowedMembers

variable {scope : Scope} {nodes : List Node} {ms ms' : Members Projection} {m : Node}
  {p q : Projection}

/-- What is left are the members of the permitted names. -/
theorem keys_eq (h : NarrowedMembers scope nodes ms ms') :
    ms.keys = ms'.keys.filter fun k => scope.permits k := by
  induction ms' generalizing ms with
  | nil => cases h; rfl
  | cons m' ms' ih =>
    cases h with
    | withheld hk h => rw [Members.keys_cons, List.filter_cons_of_neg hk, ih h]
    | shown hn hk hv h =>
      rw [Members.keys_cons, Members.keys_cons, List.filter_cons_of_pos hk, ih h]

theorem permits_of_mem (h : NarrowedMembers scope nodes ms ms') {k : String} (hk : k ∈ ms.keys) :
    scope.permits k = true := by
  rw [h.keys_eq] at hk
  exact (List.mem_filter.1 hk).2

/-- A further node of a new name leaves the members as they are. -/
theorem append (h : NarrowedMembers scope nodes ms ms') (hm : m.name ∉ ms.keys) :
    NarrowedMembers scope (nodes ++ [m]) ms ms' := by
  induction ms' generalizing ms with
  | nil => cases h; exact .nil
  | cons m' ms' ih =>
    cases h with
    | withheld hk h => exact .withheld hk (ih h hm)
    | shown hn hk hv h =>
      rw [Members.keys_cons, List.mem_cons, not_or] at hm
      exact .shown (hn.append hm.1) hk hv (ih h hm.2)

/-- The value of a denied name may be replaced. -/
theorem insert_denied (h : NarrowedMembers scope nodes ms ms') {k : String}
    (hk : ¬scope.permits k = true) : NarrowedMembers scope nodes ms (ms'.insert k q) := by
  induction ms' generalizing ms with
  | nil => cases h; exact .withheld hk .nil
  | cons m' ms' ih =>
    cases h with
    | @withheld _ _ l _ _ _ hl h =>
      by_cases he : l = k
      · rw [Members.insert, if_pos he]
        exact .withheld hl h
      · rw [Members.insert, if_neg he]
        exact .withheld hl (ih h)
    | @shown _ _ n _ _ _ _ hn hp hv h =>
      have he : n.name ≠ k := fun he => hk (he ▸ hp)
      rw [Members.insert, if_neg he]
      exact .shown hn hp hv (ih h)

/-- The value of a permitted name is replaced on both sides, in one place. -/
theorem insert (h : NarrowedMembers scope nodes ms ms') (hd : ms.keys.Nodup)
    (hp : scope.permits m.name = true) (hv : NarrowedValue scope m p q) :
    NarrowedMembers scope (nodes ++ [m]) (ms.insert m.name p) (ms'.insert m.name q) := by
  induction ms' generalizing ms with
  | nil =>
    cases h
    exact .shown (Selector.final_append_self m nodes) hp hv .nil
  | cons m' ms' ih =>
    cases h with
    | @withheld _ _ l _ _ _ hl h =>
      have he : l ≠ m.name := fun he => hl (he ▸ hp)
      rw [Members.insert, if_neg he]
      exact .withheld hl (ih h hd)
    | @shown _ _ n _ _ ms _ hn hpn hvn h =>
      rw [Members.keys_cons, List.nodup_cons] at hd
      obtain ⟨hnot, hd⟩ := hd
      by_cases he : n.name = m.name
      · -- the keys are distinct, so the rest does not have the name
        rw [Members.insert, Members.insert, if_pos he, if_pos he]
        exact he ▸ .shown (Selector.final_append_self m nodes) hp hv (h.append (he ▸ hnot))
      · rw [Members.insert, Members.insert, if_neg he, if_neg he]
        exact .shown (hn.append (Ne.symm he)) hpn hvn (ih h hd)

end Projection.NarrowedMembers

namespace Projector

open Run (Follows)

variable {config : ProjectorConfig} {narrow wide : Scope} {nodes : List Node} {n : Node}

/-! ## Steps -/

/-- A field that is denied yields nothing and does not fail. -/
theorem follows_projectField_denied {β : Type} {path : Path} {o : Object Graph} (y : Run β)
    (hp : ¬narrow.permits n.name = true) :
    Follows (fun r _ => r = none) (projectField config narrow path o n) y := by
  intro ds es b _
  refine ⟨none, ?_, rfl⟩
  rw [projectField_denied hp, noteDenied]
  split <;> rfl

section
variable {rule rule' : Path → Object Graph → Run Projection}

mutual

/-- A walk follows another if its rule for objects does. -/
theorem follows_walk
    (h : ∀ path o, Follows (Projection.Narrowed narrow nodes) (rule path o) (rule' path o)) :
    ∀ (path : Path) (g : Graph),
      Follows (Projection.Narrowed narrow nodes) (walk rule path g) (walk rule' path g)
  | _, .scalar _ => .pure (.object .nil)
  | path, .object o => h path o
  | path, .sequence elements _ _ => (follows_walkAll h path 0 elements).map fun _ _ hs => .array hs

theorem follows_walkAll
    (h : ∀ path o, Follows (Projection.Narrowed narrow nodes) (rule path o) (rule' path o)) :
    ∀ (path : Path) (i : Nat) (gs : List Graph),
      Follows (Projection.NarrowedItems narrow nodes) (walkAll rule path i gs)
        (walkAll rule' path i gs)
  | _, _, [] => .pure .nil
  | path, i, g :: gs =>
    (follows_walk h (path.index i) g).bind fun _ _ hp =>
      (follows_walkAll h path (i + 1) gs).bind fun _ _ hps => .pure (.cons hp hps)

end

end

theorem follows_walk_projectObject
    (h : ∀ path o, Follows (Projection.NarrowedMembers narrow nodes)
      (projectFields config narrow path o [] nodes) (projectFields config wide path o [] nodes))
    (path : Path) (g : Graph) :
    Follows (Projection.Narrowed narrow nodes) (walk (projectObject config nodes narrow) path g)
      (walk (projectObject config nodes wide) path g) :=
  follows_walk (fun path o => (h path o).map fun _ _ hs => .object hs) path g

/-! ## Projections -/

mutual

/-- The value of a field that the narrower scope permits. -/
theorem follows_projectField (config : ProjectorConfig) {narrow wide : Scope}
    (hle : narrow.AtMost wide) (path : Path) (o : Object Graph) :
    ∀ n : Node, narrow.permits n.name = true →
      Follows (fun r r' => ∃ p q, r = some p ∧ r' = some q ∧ Projection.NarrowedValue narrow n p q)
        (projectField config narrow path o n) (projectField config wide path o n)
  | ⟨name, children, order⟩, hp => by
    have hp' := hle.permits hp
    cases ha : o.attribute? name with
    | none =>
      rw [projectField_missing hp' ha]
      exact .throw _ _
    | some v =>
      cases children with
      | none =>
        rw [projectField_plain hp ha rfl, projectField_plain hp' ha rfl]
        exact .pure ⟨_, _, rfl, rfl, .plain⟩
      | some nodes =>
        rw [projectField_nested hp ha rfl, projectField_nested hp' ha rfl]
        -- the order of a collection does not depend on the scope
        refine (steady_inOrder ..).follows.bind fun w w' hw => ?_
        subst hw
        have hfields := fun p o =>
          follows_projectFields config (hle.under hp) p o [] nodes .nil Members.nodup_keys_nil
        exact (follows_walk_projectObject hfields (path.key name) w).map fun p q hpq =>
          ⟨p, q, rfl, rfl, .nested hpq⟩

/-- The members of an object, given those of the nodes before. -/
theorem follows_projectFields (config : ProjectorConfig) {narrow wide : Scope}
    (hle : narrow.AtMost wide) (path : Path) (o : Object Graph) :
    ∀ (before ns : List Node) {done done' : Members Projection},
      Projection.NarrowedMembers narrow before done done' → done.keys.Nodup →
      Follows (Projection.NarrowedMembers narrow (before ++ ns))
        (projectFields config narrow path o done ns) (projectFields config wide path o done' ns)
  | before, [], _, _, h, _ => by
    rw [List.append_nil]
    exact .pure h
  | before, n :: ns, done, done', h, hd => by
    rw [projectFields_cons, projectFields_cons, List.append_cons]
    by_cases hp : narrow.permits n.name = true
    · refine (follows_projectField config hle path o n hp).bind fun r r' hr => ?_
      obtain ⟨p, q, rfl, rfl, hv⟩ := hr
      exact follows_projectFields config hle path o _ ns (h.insert hd hp hv)
        (Members.nodup_keys_insert n.name p hd)
    · -- the wider scope may set the member here; the narrower one never shows its name
      refine (follows_projectField_denied _ hp).bind fun r r' hr => ?_
      subst hr
      have hn : n.name ∉ done.keys := fun hm => hp (h.permits_of_mem hm)
      cases r' with
      | none => exact follows_projectFields config hle path o _ ns (h.append hn) hd
      | some q =>
        exact follows_projectFields config hle path o _ ns ((h.append hn).insert_denied hp) hd

end

/-- **Monotonicity in the allow-list**: where a projection succeeds within a scope, it succeeds
within any scope that permits no more, and yields the part of it that the narrower scope leaves. -/
theorem project_narrowed {target : Graph} {ds : Diagnostics} {q : Projection}
    (hle : narrow.AtMost wide) (h : ((project config target nodes wide).run ds).1 = .ok q) :
    ∃ p q', q = wrap config target q' ∧
      ((project config target nodes narrow).run ds).1 = .ok (wrap config target p) ∧
      Projection.Narrowed narrow nodes p q' := by
  have hwalk : Follows (Projection.Narrowed narrow nodes)
      (walk (projectObject config nodes narrow) [] target)
      (walk (projectObject config nodes wide) [] target) :=
    follows_walk_projectObject (fun p o =>
      follows_projectFields config hle p o [] nodes .nil Members.nodup_keys_nil) [] target
  have hproject : Follows (fun p q => ∃ p' q', p = wrap config target p' ∧
      q = wrap config target q' ∧ Projection.Narrowed narrow nodes p' q')
      (project config target nodes narrow) (project config target nodes wide) :=
    hwalk.map fun p' q' hpq => ⟨p', q', rfl, rfl, hpq⟩
  obtain ⟨_, hp, p, q', rfl, rfl, hpq⟩ := hproject ds ds q h
  exact ⟨p, q', rfl, hp, hpq⟩

/-- A post with a token and comments. -/
def discussion : Graph := .ofJson (.object [("token", .string "s3cret"), ("title", .string "Hello"),
  ("comments", .array [.object [("text", .string "Hi"), ("ip", .string "::1")]])])

/-- The token twice, and the comments before the title. -/
def discussionFields : List Node :=
  [⟨"token", none, none⟩, ⟨"comments", some [⟨"ip", none, none⟩, ⟨"text", none, none⟩], none⟩,
    ⟨"title", none, none⟩, ⟨"token", none, none⟩]

/-- Permits the title, and of the comments the text. -/
def readers : Scope := .restricted [.leaf "title", .scoped "comments" [.leaf "text"]]

/-- The discussion as a reader without restrictions sees it. -/
def discussionInFull : Projection := .object [("token", .scalar (.string "s3cret")),
  ("comments", .array [.object [("ip", .scalar (.string "::1")),
    ("text", .scalar (.string "Hi"))]]),
  ("title", .scalar (.string "Hello"))]

theorem project_narrowed_discussion : readers.AtMost .unrestricted ∧
    ((project .default discussion discussionFields .unrestricted).run []).1 =
      .ok discussionInFull ∧
    ∃ p q', discussionInFull = wrap .default discussion q' ∧
      ((project .default discussion discussionFields readers).run []).1 =
        .ok (wrap .default discussion p) ∧
      Projection.Narrowed readers discussionFields p q' := by
  have hr : ((project .default discussion discussionFields .unrestricted).run []).1 =
      .ok discussionInFull := rfl
  exact ⟨Scope.atMost_unrestricted readers, hr,
    project_narrowed (Scope.atMost_unrestricted readers) hr⟩

end Projector

end Facet
