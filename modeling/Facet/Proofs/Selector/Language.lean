import Facet.Proofs.Selector.Reading

/-!
# The language of selectors

The grammar as the author of a selector knows it:

    selection := field (',' field)*
    field     := W name W ['{' selection '}' W] ['.' W 'order' W '(' token [')' W]]

Here an order is its token without the blanks around it, and any directive written with that token
will do. `IsSelection` has the same texts and one directive for each token, the one that the reader
makes of it. The reader accepts exactly the texts of this grammar, and their nodes are those that it
gives, up to directives of one token (`parse_iff_derives`); so a text has one reading
(`Derives.unique`).
-/

set_option autoImplicit false

namespace Facet.Selector

open Text (Blank trim trimmed)

/-! ## Nodes with the same tokens -/

mutual

/-- The nodes differ at most in directives that have the same token. -/
inductive Node.Alike : Node → Node → Prop
  | leaf {name : String} {order order' : Option OrderDirective} :
      order.map OrderDirective.token = order'.map OrderDirective.token →
      Node.Alike ⟨name, none, order⟩ ⟨name, none, order'⟩
  | nested {name : String} {ms ns : List Node} {order order' : Option OrderDirective} :
      AlikeAll ms ns → order.map OrderDirective.token = order'.map OrderDirective.token →
      Node.Alike ⟨name, some ms, order⟩ ⟨name, some ns, order'⟩

/-- `Node.Alike` for selections, node by node. -/
inductive AlikeAll : List Node → List Node → Prop
  | nil : AlikeAll [] []
  | cons {m n : Node} {ms ns : List Node} :
      m.Alike n → AlikeAll ms ns → AlikeAll (m :: ms) (n :: ns)

end

mutual

theorem Node.Alike.symm {m n : Node} : m.Alike n → n.Alike m
  | .leaf ho => .leaf ho.symm
  | .nested h ho => .nested h.symm ho.symm

theorem AlikeAll.symm {ms ns : List Node} : AlikeAll ms ns → AlikeAll ns ms
  | .nil => .nil
  | .cons h hs => .cons h.symm hs.symm

end

mutual

theorem Node.Alike.trans {l m n : Node} : l.Alike m → m.Alike n → l.Alike n
  | .leaf ho, .leaf ho' => .leaf (ho.trans ho')
  | .nested h ho, .nested h' ho' => .nested (h.trans h') (ho.trans ho')

theorem AlikeAll.trans {ls ms ns : List Node} : AlikeAll ls ms → AlikeAll ms ns → AlikeAll ls ns
  | .nil, .nil => .nil
  | .cons h hs, .cons h' hs' => .cons (h.trans h') (hs.trans hs')

end

/-! ## The grammar -/

/-- What follows the name or the block of a field: blanks, or an order with a token that is allowed
there. -/
inductive DerivesOrder (Allowed : List Char → Prop) : List Char → Option OrderDirective → Prop
  | absent {s : List Char} : Blank s → DerivesOrder Allowed s none
  | order {s token t : List Char} {d : OrderDirective} :
      OpensOrder s → Allowed token → ClosesOrder token t → d.token.toList = trim token →
      DerivesOrder Allowed (s ++ token ++ t) (some d)

mutual

/-- The text derives the nodes as a selection. -/
inductive Derives : List Char → List Node → Prop
  | last {s : List Char} {n : Node} : DerivesField s n → Derives s [n]
  | more {s t : List Char} {n : Node} {ns : List Node} :
      DerivesField s n → Derives t ns → Derives (s ++ ',' :: t) (n :: ns)

/-- The text derives the node as a field. -/
inductive DerivesField : List Char → Node → Prop
  | plain {u v s : List Char} {name : String} {order : Option OrderDirective} :
      Blank u → IsName name → Blank v → DerivesOrder Plain s order →
      DerivesField (u ++ name.toList ++ v ++ s) ⟨name, none, order⟩
  | block {u v s t : List Char} {name : String} {ns : List Node} {order : Option OrderDirective} :
      Blank u → IsName name → Blank v → Derives t ns → DerivesOrder Enclosed s order →
      DerivesField (u ++ name.toList ++ v ++ '{' :: t ++ '}' :: s) ⟨name, some ns, order⟩

end

/-! ## The directives that the reader makes of tokens -/

variable {s : List Char} {order order' : Option OrderDirective} {Allowed : List Char → Prop}

theorem token_ofToken (text : String) : (OrderDirective.ofToken text).token = trimmed text := by
  simp only [OrderDirective.ofToken]
  split
  · next h => exact h.symm
  · split
    · next h => exact h.symm
    · rfl

theorem toList_token_ofToken (token : List Char) :
    (OrderDirective.ofToken (String.ofList token)).token.toList = trim token := by
  rw [token_ofToken, trimmed, String.toList_ofList, String.toList_ofList]

theorem IsOrder.derives (h : IsOrder Allowed s order)
    (ho : order.map OrderDirective.token = order'.map OrderDirective.token) :
    DerivesOrder Allowed s order' := by
  cases h with
  | absent hs =>
    have : order' = none := by simpa using ho.symm
    subst this
    exact .absent hs
  | @order _ token _ hs htok ht =>
    obtain ⟨d, rfl, hd⟩ := Option.map_eq_some_iff.1 ho.symm
    exact .order hs htok ht (by rw [hd, toList_token_ofToken])

theorem DerivesOrder.isOrder (h : DerivesOrder Allowed s order) :
    ∃ order', IsOrder Allowed s order' ∧
      order'.map OrderDirective.token = order.map OrderDirective.token := by
  cases h with
  | absent hs => exact ⟨none, .absent hs, rfl⟩
  | @order _ token _ d hs htok ht hd =>
    refine ⟨_, .order hs htok ht, congrArg some (String.toList_inj.1 ?_)⟩
    rw [toList_token_ofToken, hd]

/-! ## The two grammars -/

mutual

/-- What is read is derived, and so is everything that is alike. -/
theorem IsSelection.derives {s : List Char} {ms ns : List Node} :
    IsSelection s ms → AlikeAll ms ns → Derives s ns
  | .last h, .cons ha .nil => .last (h.derives ha)
  | .more h hs, .cons ha has => .more (h.derives ha) (hs.derives has)

theorem IsField.derives {s : List Char} {m n : Node} : IsField s m → m.Alike n → DerivesField s n
  | .plain hu hn hv ho, .leaf he => .plain hu hn hv (ho.derives he)
  | .block hu hn hv ht ho, .nested ha he => .block hu hn hv (ht.derives ha) (ho.derives he)

end

mutual

/-- What is derived is alike to something that is read. -/
theorem Derives.isSelection {s : List Char} {ns : List Node} :
    Derives s ns → ∃ ms, IsSelection s ms ∧ AlikeAll ms ns
  | .last h => by
    obtain ⟨m, hm, ha⟩ := h.isField
    exact ⟨[m], .last hm, .cons ha .nil⟩
  | .more h hs => by
    obtain ⟨m, hm, ha⟩ := h.isField
    obtain ⟨ms, hms, has⟩ := hs.isSelection
    exact ⟨m :: ms, .more hm hms, .cons ha has⟩

theorem DerivesField.isField {s : List Char} {n : Node} :
    DerivesField s n → ∃ m, IsField s m ∧ m.Alike n
  | .plain hu hn hv ho => by
    obtain ⟨order, ho, he⟩ := ho.isOrder
    exact ⟨_, .plain hu hn hv ho, .leaf he⟩
  | .block hu hn hv ht ho => by
    obtain ⟨ms, hms, ha⟩ := ht.isSelection
    obtain ⟨order, ho, he⟩ := ho.isOrder
    exact ⟨_, .block hu hn hv hms ho, .nested ha he⟩

end

/-- A text derives one selection, up to directives of one token. -/
theorem Derives.unique {ms ns : List Node} (h : Derives s ms) (h' : Derives s ns) :
    AlikeAll ms ns := by
  obtain ⟨ks, hks, ha⟩ := h.isSelection
  obtain ⟨ls, hls, ha'⟩ := h'.isSelection
  have hk : parse (String.ofList s) = .ok ks :=
    parse_of_isSelection (by rwa [String.toList_ofList])
  have hl : parse (String.ofList s) = .ok ls :=
    parse_of_isSelection (by rwa [String.toList_ofList])
  obtain rfl : ks = ls := Except.ok.inj (hk.symm.trans hl)
  exact ha.symm.trans ha'

/-- **The accepted language**: a selector is accepted with some nodes exactly if the grammar derives
them from it, directives being told apart by their tokens. -/
theorem parse_iff_derives (selector : String) (ns : List Node) :
    (∃ ms, parse selector = .ok ms ∧ AlikeAll ms ns) ↔ Derives selector.toList ns := by
  refine ⟨fun h => ?_, fun h => ?_⟩
  · obtain ⟨ms, hms, ha⟩ := h
    exact (isSelection_of_parse hms).derives ha
  · obtain ⟨ms, hms, ha⟩ := h.isSelection
    exact ⟨ms, parse_of_isSelection hms, ha⟩

end Facet.Selector
