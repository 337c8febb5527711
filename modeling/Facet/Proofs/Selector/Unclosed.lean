import Facet.Proofs.Projector.Steps
import Facet.Proofs.Selector.Language
import Facet.Proofs.Selector.RoundTrip

/-!
# Orders that are not closed

The closing parenthesis of an order may be missing. The token is then what stands behind the opening
one, to the end of the field, and it is looked up like any other (`unclosed_order`): it names no order,
so that the collection is left as it is, exactly if it is not one of the two known tokens without the
blanks around it. A known token orders the collection whether or not it is closed
(`not_always_invalid`).

The fields of a selector, at any depth, are followed through its derivation: `SelectionHas` gives for
each the node and the suffix, which is what follows the name or the block.
-/

set_option autoImplicit false

namespace Facet.Selector

open Text (Blank trimmed)

variable {s t suffix token : List Char} {m n : Node} {ns : List Node} {selector : String}

/-! ## Fields at any depth -/

/-- The node is one of a selection or of a selection nested in it. -/
inductive Node.Occurs (m : Node) : List Node → Prop
  | here {ns : List Node} : m ∈ ns → Occurs m ns
  | under {n : Node} {ns children : List Node} :
      n ∈ ns → n.children = some children → Occurs m children → Occurs m ns

mutual

/-- A field with the suffix and the node is in the selection, at some depth. -/
inductive SelectionHas (suffix : List Char) (m : Node) : List Char → List Node → Prop
  | last {s : List Char} {n : Node} : FieldHas suffix m s n → SelectionHas suffix m s [n]
  | first {s t : List Char} {n : Node} {ns : List Node} :
      FieldHas suffix m s n → IsSelection t ns → SelectionHas suffix m (s ++ ',' :: t) (n :: ns)
  | later {s t : List Char} {n : Node} {ns : List Node} :
      IsField s n → SelectionHas suffix m t ns → SelectionHas suffix m (s ++ ',' :: t) (n :: ns)

/-- The field itself has the suffix and the node, or one in its block does. -/
inductive FieldHas (suffix : List Char) (m : Node) : List Char → Node → Prop
  | plain {u v : List Char} {name : String} {order : Option OrderDirective} :
      Blank u → IsName name → Blank v → IsOrder Plain suffix order → m = ⟨name, none, order⟩ →
      FieldHas suffix m (u ++ name.toList ++ v ++ suffix) m
  | block {u v t : List Char} {name : String} {ns : List Node} {order : Option OrderDirective} :
      Blank u → IsName name → Blank v → IsSelection t ns → IsOrder Enclosed suffix order →
      m = ⟨name, some ns, order⟩ →
      FieldHas suffix m (u ++ name.toList ++ v ++ '{' :: t ++ '}' :: suffix) m
  | inner {u v s t : List Char} {name : String} {ns : List Node} {order : Option OrderDirective} :
      Blank u → IsName name → Blank v → SelectionHas suffix m t ns → IsOrder Enclosed s order →
      FieldHas suffix m (u ++ name.toList ++ v ++ '{' :: t ++ '}' :: s) ⟨name, some ns, order⟩

end

/-! ## The fields of a derivation -/

theorem Node.occurs_cons : m.Occurs (n :: ns) ↔
    (m = n ∨ ∃ children, n.children = some children ∧ m.Occurs children) ∨ m.Occurs ns := by
  constructor
  · rintro (hm | ⟨hn, hc, h⟩)
    · rcases List.mem_cons.1 hm with hm | hm
      · exact .inl (.inl hm)
      · exact .inr (.here hm)
    · rcases List.mem_cons.1 hn with rfl | hn
      · exact .inl (.inr ⟨_, hc, h⟩)
      · exact .inr (.under hn hc h)
  · rintro ((rfl | ⟨_, hc, h⟩) | (hm | ⟨hn, hc, h⟩))
    · exact .here (.head ns)
    · exact .under (.head ns) hc h
    · exact .here (.tail n hm)
    · exact .under (.tail n hn) hc h

theorem Node.not_occurs_nil : ¬m.Occurs [] := by
  rintro (hm | ⟨hn, -, -⟩)
  · exact List.not_mem_nil hm
  · exact List.not_mem_nil hn

mutual

/-- Each node of a derived selection, at any depth, is that of a field in it. -/
theorem IsSelection.exists_selectionHas {s : List Char} {ns : List Node} :
    IsSelection s ns → m.Occurs ns → ∃ suffix, SelectionHas suffix m s ns
  | .last h, hm => by
    obtain hm | hm := Node.occurs_cons.1 hm
    · obtain ⟨suffix, hf⟩ := h.exists_fieldHas hm
      exact ⟨suffix, .last hf⟩
    · exact absurd hm Node.not_occurs_nil
  | .more h hs, hm => by
    obtain hm | hm := Node.occurs_cons.1 hm
    · obtain ⟨suffix, hf⟩ := h.exists_fieldHas hm
      exact ⟨suffix, .first hf hs⟩
    · obtain ⟨suffix, hf⟩ := hs.exists_selectionHas hm
      exact ⟨suffix, .later h hf⟩

theorem IsField.exists_fieldHas {s : List Char} {n : Node} :
    IsField s n → (m = n ∨ ∃ children, n.children = some children ∧ m.Occurs children) →
      ∃ suffix, FieldHas suffix m s n
  | .plain (s := s) hu hn hv ho, hm => by
    obtain rfl | ⟨_, hc, -⟩ := hm
    · exact ⟨s, .plain hu hn hv ho rfl⟩
    · cases hc
  | .block (s := s) hu hn hv ht ho, hm => by
    obtain rfl | ⟨_, hc, hm⟩ := hm
    · exact ⟨s, .block hu hn hv ht ho rfl⟩
    · cases hc
      obtain ⟨suffix, hf⟩ := ht.exists_selectionHas hm
      exact ⟨suffix, .inner hu hn hv hf ho⟩

end

mutual

theorem SelectionHas.occurs {s : List Char} {ns : List Node} :
    SelectionHas suffix m s ns → m.Occurs ns
  | .last h | .first h _ => Node.occurs_cons.2 (.inl h.occurs)
  | .later _ h => Node.occurs_cons.2 (.inr h.occurs)

theorem FieldHas.occurs {s : List Char} {n : Node} : FieldHas suffix m s n →
    (m = n ∨ ∃ children, n.children = some children ∧ m.Occurs children)
  | .plain _ _ _ _ _ | .block _ _ _ _ _ _ => .inl rfl
  | .inner _ _ _ h _ => .inr ⟨_, rfl, h.occurs⟩

end

mutual

/-- The order of a node is that of the suffix of its field. -/
theorem SelectionHas.isOrder {s : List Char} {ns : List Node} :
    SelectionHas suffix m s ns → IsOrder (fun _ => True) suffix m.order
  | .last h | .first h _ => h.isOrder
  | .later _ h => h.isOrder

theorem FieldHas.isOrder {s : List Char} {n : Node} :
    FieldHas suffix m s n → IsOrder (fun _ => True) suffix m.order
  | .plain _ _ _ ho hm => by
    subst hm
    exact (isOrder_plain_iff.1 ho).1
  | .block _ _ _ _ ho hm => by
    subst hm
    exact (isOrder_enclosed_iff.1 ho).1
  | .inner _ _ _ h _ => h.isOrder

end

/-! ## Tokens -/

/-- A token that names one of the two orders. -/
def IsKnown (token : String) : Prop :=
  token = "chronological" ∨ token = "reverse_chronological"

theorem ofToken_eq_invalid_iff_not_known {text : String} :
    OrderDirective.ofToken text = .invalid (trimmed text) ↔ ¬IsKnown (trimmed text) := by
  rw [ofToken_eq_invalid_iff, IsKnown, not_or]
  simp

/-- Only a directive that keeps its token as written has no direction. -/
theorem direction?_ofToken_eq_none_iff {text : String} :
    (OrderDirective.ofToken text).direction? = none ↔ ¬IsKnown (trimmed text) := by
  rw [← ofToken_eq_invalid_iff_not_known]
  have htoken := token_ofToken text
  cases hd : OrderDirective.ofToken text with
  | chronological => simp [OrderDirective.direction?]
  | reverseChronological => simp [OrderDirective.direction?]
  | invalid raw =>
    rw [hd] at htoken
    exact iff_of_true rfl (congrArg OrderDirective.invalid htoken)

/-- The suffix opens an order for the token and does not close it. -/
def LeavesOpen (token suffix : List Char) : Prop :=
  ∃ opener, OpensOrder opener ∧ ')' ∉ token ∧ suffix = opener ++ token

/-- What follows a field is read as one order. -/
theorem IsOrder.eq_of_leavesOpen {Allowed : List Char → Prop} {order : Option OrderDirective}
    (h : IsOrder Allowed suffix order) (hopen : LeavesOpen token suffix) :
    order = some (.ofToken (String.ofList token)) := by
  obtain ⟨opener, hopener, hparen, hsuffix⟩ := hopen
  have horder : IsOrder (fun _ => True) (opener ++ token ++ [])
      (some (.ofToken (String.ofList token))) := .order hopener trivial (.inl ⟨rfl, hparen⟩)
  rw [List.append_nil, ← hsuffix] at horder
  have hread : fieldOrder 0 suffix = .ok order := fieldOrder_of_isOrder h
  rw [fieldOrder_of_isOrder horder] at hread
  exact (Except.ok.inj hread).symm

/-! ## The directives of unclosed orders -/

/-- A collection for which an order without a direction is requested is left as it is. -/
theorem run_inOrder_of_direction?_eq_none {d : OrderDirective} (h : d.direction? = none)
    (config : ProjectorConfig) (path : Path) (value : Graph) (ds : Diagnostics) :
    (Projector.inOrder config path (some d) value).run ds =
      (.ok value, ds ++ Projector.orderNotes config path (some d) value) := by
  rw [Projector.run_inOrder]
  simp only [Projector.ordered, Option.bind_some, h]

/-- **Unclosed orders**: of every field of a selector whose order is not closed, the directive is the
one that the text behind the parenthesis means. It is kept as written, has no direction and leaves
collections as they are exactly if that text is no known token. -/
theorem unclosed_order (h : parse selector = .ok ns) :
    (∀ m : Node, m.Occurs ns ↔ ∃ suffix, SelectionHas suffix m selector.toList ns) ∧
    ∀ m suffix token, SelectionHas suffix m selector.toList ns → LeavesOpen token suffix →
      ∃ d, m.order = some d ∧ d.token = trimmed (String.ofList token) ∧
        (d = .invalid (trimmed (String.ofList token)) ↔
          ¬IsKnown (trimmed (String.ofList token))) ∧
        (d.direction? = none ↔ ¬IsKnown (trimmed (String.ofList token))) ∧
        (¬IsKnown (trimmed (String.ofList token)) → ∀ config path value ds,
          (Projector.inOrder config path m.order value).run ds =
            (.ok value, ds ++ Projector.orderNotes config path m.order value)) := by
  refine ⟨fun m => ⟨(isSelection_of_parse h).exists_selectionHas, ?_⟩, ?_⟩
  · rintro ⟨suffix, hm⟩
    exact hm.occurs
  · intro m suffix token hm hopen
    have horder := hm.isOrder.eq_of_leavesOpen hopen
    refine ⟨_, horder, token_ofToken _, ofToken_eq_invalid_iff_not_known,
      direction?_ofToken_eq_none_iff, fun hunknown => ?_⟩
    rw [horder]
    exact run_inOrder_of_direction?_eq_none (direction?_ofToken_eq_none_iff.2 hunknown)

/-! ### Two unclosed orders -/

theorem leavesOpen_order (hparen : ')' ∉ token) : LeavesOpen token (".order(".toList ++ token) :=
  ⟨".order(".toList, opensOrder_order, hparen, rfl⟩

theorem isOrder_unclosed {Allowed : List Char → Prop} (htoken : Allowed token)
    (hparen : ')' ∉ token) :
    IsOrder Allowed (".order(".toList ++ token) (some (.ofToken (String.ofList token))) := by
  have horder := IsOrder.order opensOrder_order htoken (.inl ⟨rfl, hparen⟩)
  rwa [List.append_nil] at horder

def newest : Node := ⟨"content", none, some (.invalid "newest")⟩

def reversed : Node := ⟨"posts", some [newest], some .reverseChronological⟩

/-- The order in the block has a token of its own, the order of the block a known one. -/
def unclosed : String := "posts{ content.order( newest }.order(reverse_chronological\n"

theorem selectionHas_newest :
    SelectionHas ".order( newest ".toList newest " content.order( newest ".toList [newest] := by
  have hname : IsName "content" := isName_of_fieldName rfl
  have horder : IsOrder Plain (".order(".toList ++ " newest ".toList)
      (some (.ofToken " newest ")) :=
    isOrder_unclosed (by unfold Plain; decide) (by decide)
  have hblank : Blank [' '] := Text.trim_eq_nil_iff.1 rfl
  exact .last (.plain hblank hname Text.blank_nil horder (by decide))

/-- The token in the block is kept without its blanks. -/
theorem unclosed_order_newest :
    parse unclosed = .ok [reversed] ∧
    SelectionHas ".order( newest ".toList newest unclosed.toList [reversed] ∧
    LeavesOpen " newest ".toList ".order( newest ".toList ∧
    ∃ d, newest.order = some d ∧ d = .invalid "newest" ∧ d.direction? = none := by
  have hparse : parse unclosed = .ok [reversed] := by decide +kernel
  have hname : IsName "posts" := isName_of_fieldName rfl
  have horder : IsOrder Enclosed (".order(".toList ++ "reverse_chronological\n".toList)
      (some (.ofToken "reverse_chronological\n")) :=
    isOrder_unclosed (Plain.enclosed (by unfold Plain; decide)) (by decide)
  have hfield : SelectionHas ".order( newest ".toList newest unclosed.toList [reversed] :=
    .last (.inner Text.blank_nil hname Text.blank_nil selectionHas_newest horder)
  have hopen : LeavesOpen " newest ".toList ".order( newest ".toList := leavesOpen_order (by decide)
  obtain ⟨d, hd, -, hinvalid, hdirection, -⟩ :=
    (unclosed_order hparse).2 newest _ _ hfield hopen
  have hunknown : ¬IsKnown (trimmed (String.ofList " newest ".toList)) := by
    unfold IsKnown
    decide
  exact ⟨hparse, hfield, hopen, d, hd, hinvalid.2 hunknown, hdirection.2 hunknown⟩

/-- **An unclosed order is not always invalid**: a known token orders without its parenthesis. -/
theorem not_always_invalid :
    ¬∀ (selector : String) (ns : List Node) (m : Node) (suffix token : List Char),
      parse selector = .ok ns → SelectionHas suffix m selector.toList ns →
      LeavesOpen token suffix → m.order = some (.invalid (trimmed (String.ofList token))) := by
  intro h
  have hname : IsName "field" := isName_of_fieldName rfl
  have horder : IsOrder Plain (".order(".toList ++ "chronological".toList)
      (some (.ofToken "chronological")) :=
    isOrder_unclosed (by unfold Plain; decide) (by decide)
  have hfield : SelectionHas ".order(chronological".toList ⟨"field", none, some .chronological⟩
      "field.order(chronological".toList [⟨"field", none, some .chronological⟩] :=
    .last (.plain Text.blank_nil hname Text.blank_nil horder (by decide))
  have hinvalid := h "field.order(chronological" _ _ _ _ (by decide +kernel) hfield
    (leavesOpen_order (by decide))
  exact absurd hinvalid (by decide)

end Facet.Selector
