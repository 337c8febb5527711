import Facet.Proofs.Selector.Braces
import Facet.Proofs.Text.Trim

/-!
# The grammar of selectors

    selection := field (',' field)*
    field     := W name W ['{' selection '}' W] ['.' W 'order' W '(' token [')' W]]

where `W` is blank text. A token is any text, with two restrictions. It is `Plain` after a field
without a block and `Enclosed` after a block, or else it would not be in that field; and if its
closing parenthesis is missing it has none of its own. Every text of a field stays outside braces
(`IsField.leads`), so the commas of the grammar are those that the scan for commas finds.
-/

set_option autoImplicit false

namespace Facet.Selector

open Text (Blank)

/-! ## Derivations -/

/-- A name that a field can have. -/
def IsName (name : String) : Prop :=
  name ≠ "" ∧ ∀ c ∈ name.toList, Text.isBlank c = false ∧ c ∉ ['{', '}', '(', ')', ',', '.']

/-- What stands in front of the token of an order. -/
def OpensOrder (s : List Char) : Prop :=
  ∃ u v w, Blank u ∧ Blank v ∧ Blank w ∧ s = u ++ '.' :: v ++ "order".toList ++ w ++ ['(']

/-- What stands behind the token of an order. -/
def ClosesOrder (token s : List Char) : Prop :=
  (s = [] ∧ ')' ∉ token) ∨ ∃ u, Blank u ∧ s = ')' :: u

/-- What follows the name or the block of a field, with a restriction on tokens. -/
inductive IsOrder (Allowed : List Char → Prop) : List Char → Option OrderDirective → Prop
  | absent {s : List Char} : Blank s → IsOrder Allowed s none
  | order {s token t : List Char} : OpensOrder s → Allowed token → ClosesOrder token t →
      IsOrder Allowed (s ++ token ++ t) (some (.ofToken (String.ofList token)))

mutual

/-- The text is a selection with these nodes. -/
inductive IsSelection : List Char → List Node → Prop
  | last {s : List Char} {n : Node} : IsField s n → IsSelection s [n]
  | more {s t : List Char} {n : Node} {ns : List Node} :
      IsField s n → IsSelection t ns → IsSelection (s ++ ',' :: t) (n :: ns)

/-- The text is a field with this node. -/
inductive IsField : List Char → Node → Prop
  | plain {u v s : List Char} {name : String} {order : Option OrderDirective} :
      Blank u → IsName name → Blank v → IsOrder Plain s order →
      IsField (u ++ name.toList ++ v ++ s) ⟨name, none, order⟩
  | block {u v s t : List Char} {name : String} {ns : List Node} {order : Option OrderDirective} :
      Blank u → IsName name → Blank v → IsSelection t ns → IsOrder Enclosed s order →
      IsField (u ++ name.toList ++ v ++ '{' :: t ++ '}' :: s) ⟨name, some ns, order⟩

end

/-! ## Depths of derived texts -/

variable {s t token : List Char} {name : String} {order : Option OrderDirective}

theorem IsName.not_reserved (h : IsName name) {c : Char}
    (hc : c ∈ ['{', '}', '(', ')', ',', '.']) : c ∉ name.toList := fun hn => (h.2 c hn).2 hc

theorem IsName.plain (h : IsName name) : Plain name.toList := by
  refine ⟨?_, ?_, ?_⟩
  all_goals exact h.not_reserved (by decide)

theorem plain_of_blank (h : Blank s) : Plain s := by
  refine ⟨?_, ?_, ?_⟩
  all_goals exact h.not_mem (by decide)

theorem leads_trim : Leads 0 (Text.trim s) 0 ↔ Leads 0 s 0 := by
  obtain ⟨u, v, hu, hv, hs⟩ := Text.exists_trim s
  conv_rhs => rw [hs]
  exact (leads_between (plain_of_blank hu) (plain_of_blank hv)).symm

theorem IsName.plain_padded {u v : List Char} (h : IsName name) (hu : Blank u) (hv : Blank v) :
    Plain (u ++ name.toList ++ v) :=
  plain_append.2 ⟨plain_append.2 ⟨plain_of_blank hu, h.plain⟩, plain_of_blank hv⟩

theorem OpensOrder.plain (h : OpensOrder s) : Plain s := by
  obtain ⟨u, v, w, hu, hv, hw, rfl⟩ := h
  simp only [plain_append, plain_cons]
  exact ⟨⟨⟨⟨plain_of_blank hu, by decide, plain_of_blank hv⟩, by simp [Plain]⟩,
    plain_of_blank hw⟩, by simp [Plain]⟩

theorem ClosesOrder.plain (h : ClosesOrder token s) : Plain s := by
  rcases h with ⟨rfl, -⟩ | ⟨u, hu, rfl⟩
  · simp [Plain]
  · exact plain_cons.2 ⟨by decide, plain_of_blank hu⟩

/-- The restriction may be on the whole text or on the token. -/
theorem isOrder_plain_iff : IsOrder Plain s order ↔ IsOrder (fun _ => True) s order ∧ Plain s := by
  refine ⟨fun h => ?_, fun h => ?_⟩
  · rcases h with hs | ⟨hs, htok, ht⟩
    · exact ⟨.absent hs, plain_of_blank hs⟩
    · exact ⟨.order hs trivial ht,
        plain_append.2 ⟨plain_append.2 ⟨hs.plain, htok⟩, ht.plain⟩⟩
  · obtain ⟨hs | ⟨hs, -, ht⟩, hp⟩ := h
    · exact .absent hs
    · exact .order hs (plain_append.1 (plain_append.1 hp).1).2 ht

theorem isOrder_enclosed_iff :
    IsOrder Enclosed s order ↔ IsOrder (fun _ => True) s order ∧ Leads 0 s 0 := by
  refine ⟨fun he => ?_, fun he => ?_⟩
  · rcases he with hs | ⟨hs, htok, ht⟩
    · exact ⟨.absent hs, (plain_of_blank hs).leads 0⟩
    · exact ⟨.order hs trivial ht, (leads_between hs.plain ht.plain).2 (enclosed_iff_leads.1 htok)⟩
  · obtain ⟨hs | ⟨hs, -, ht⟩, h⟩ := he
    · exact .absent hs
    · exact .order hs (enclosed_iff_leads.2 ((leads_between hs.plain ht.plain).1 h)) ht

mutual

theorem IsSelection.balanced {s : List Char} {ns : List Node} :
    IsSelection s ns → textDepth? 0 s = some 0
  | .last h => h.leads.textDepth?
  | .more h hs => by
    rw [textDepth?_append h.leads.textDepth?]
    exact hs.balanced

/-- No comma outside braces divides a field. -/
theorem IsField.leads {s : List Char} {n : Node} : IsField s n → Leads 0 s 0
  | .plain hu hn hv ho =>
    ((hn.plain_padded hu hv).leads 0).append ((isOrder_plain_iff.1 ho).2.leads 0)
  | .block hu hn hv ht ho => by
    have := ((hn.plain_padded hu hv).leads 0).append
      ((leads_block ht.balanced).append (isOrder_enclosed_iff.1 ho).2)
    simpa using this

end

end Facet.Selector
