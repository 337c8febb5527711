import Facet.Proofs.Selector.Reading
import Facet.Selector.Printer

/-!
# Selections that come back

A selection is read back from its canonical text exactly if it is well formed (`parse_render_iff`).
One half is that the reader only gives well-formed selections (`wellFormed_of_parse`), the other that
the canonical text of a well-formed selection has a derivation (`parse_render`). Together they make
the canonical text of an accepted selector a normal form (`render_normal`).
-/

set_option autoImplicit false

namespace Facet.Selector

open Text (Blank trim trimmed)

variable {s : List Char} {token name : String} {order : Option OrderDirective} {n : Node}
  {ns : List Node}

/-! ## Well-formed selections -/

/-- A token that names no known order and is read as it is written. -/
structure IsToken (token : String) : Prop where
  trimmed : trimmed token = token
  ne_chronological : token ≠ "chronological"
  ne_reverse : token ≠ "reverse_chronological"
  enclosed : Enclosed token.toList

/-- A node that is read as it is written. Without a block a token with braces would be taken for
one. -/
inductive Node.WellFormed : Node → Prop
  | leaf {name : String} {order : Option OrderDirective} : IsName name →
      (∀ t, order = some (.invalid t) → IsToken t ∧ '{' ∉ t.toList ∧ '}' ∉ t.toList) →
      WellFormed ⟨name, none, order⟩
  | nested {name : String} {children : List Node} {order : Option OrderDirective} : IsName name →
      children ≠ [] → (∀ n ∈ children, n.WellFormed) →
      (∀ t, order = some (.invalid t) → IsToken t) →
      WellFormed ⟨name, some children, order⟩

/-- A selection that is read as it is written. -/
def WellFormed (ns : List Node) : Prop := ns ≠ [] ∧ ∀ n ∈ ns, n.WellFormed

/-! ## Tokens -/

theorem Plain.enclosed (h : Plain s) : Enclosed s := enclosed_iff_leads.2 (h.leads 0)

theorem Plain.trim (h : Plain s) : Plain (trim s) :=
  have hs := Text.trim_subset s
  ⟨fun hm => h.1 (hs hm), fun hm => h.2.1 (hs hm), fun hm => h.2.2 (hs hm)⟩

theorem Enclosed.trim (h : Enclosed s) : Enclosed (trim s) :=
  enclosed_iff_leads.2 (leads_trim.2 (enclosed_iff_leads.1 h))

/-- An enclosed text without braces is plain. -/
theorem Enclosed.plain (h : Enclosed s) (hs : '{' ∉ s) : Plain s :=
  ((enclosed_iff_leads.1 h).plain hs).1

theorem ofToken_eq_invalid_iff {t : String} : OrderDirective.ofToken token = .invalid t ↔
    t = trimmed token ∧ t ≠ "chronological" ∧ t ≠ "reverse_chronological" := by
  simp only [OrderDirective.ofToken]
  split
  · next h =>
    simp only [reduceCtorEq, false_iff]
    intro he
    obtain ⟨rfl, hne, -⟩ := he
    exact hne h
  · split
    · next h =>
      simp only [reduceCtorEq, false_iff]
      intro he
      obtain ⟨rfl, -, hne⟩ := he
      exact hne h
    · next h₁ h₂ =>
      simp only [OrderDirective.invalid.injEq]
      refine ⟨fun he => ?_, fun he => ?_⟩
      · subst he
        exact ⟨rfl, h₁, h₂⟩
      · obtain ⟨rfl, -, -⟩ := he
        rfl

theorem isToken_of_ofToken {t : String} (h : OrderDirective.ofToken (String.ofList s) = .invalid t)
    (hs : Enclosed s) : IsToken t ∧ t.toList = trim s := by
  obtain ⟨rfl, h₁, h₂⟩ := ofToken_eq_invalid_iff.1 h
  have ht : (trimmed (String.ofList s)).toList = trim s := by
    rw [trimmed, String.toList_ofList, String.toList_ofList]
  exact ⟨⟨Text.trimmed_trimmed _, h₁, h₂, ht ▸ hs.trim⟩, ht⟩

theorem IsToken.ofToken (h : IsToken token) : OrderDirective.ofToken token = .invalid token :=
  ofToken_eq_invalid_iff.2 ⟨h.trimmed.symm, h.ne_chronological, h.ne_reverse⟩

/-! ## The reader gives well-formed selections -/

mutual

theorem IsSelection.wellFormed {s : List Char} {ns : List Node} :
    IsSelection s ns → WellFormed ns
  | .last h => ⟨List.cons_ne_nil _ _, by simpa using h.wellFormed⟩
  | .more h hs => ⟨List.cons_ne_nil _ _, by simpa using ⟨h.wellFormed, hs.wellFormed.2⟩⟩

theorem IsField.wellFormed {s : List Char} {n : Node} : IsField s n → n.WellFormed
  | .plain _ hn _ ho => .leaf hn fun t he => by
    rcases ho with _ | ⟨-, htok, -⟩
    · cases he
    · obtain ⟨ht, hs⟩ := isToken_of_ofToken (Option.some.inj he) htok.enclosed
      rw [hs]
      exact ⟨ht, htok.trim.1, htok.trim.2.1⟩
  | .block _ hn _ hs ho => .nested hn hs.wellFormed.1 hs.wellFormed.2 fun t he => by
    rcases ho with _ | ⟨-, htok, -⟩
    · cases he
    · exact (isToken_of_ofToken (Option.some.inj he) htok).1

end

theorem wellFormed_of_parse {selector : String} (h : parse selector = .ok ns) : WellFormed ns :=
  (isSelection_of_parse h).wellFormed

/-! ## The text of a well-formed selection has a derivation -/

theorem opensOrder_order : OpensOrder ".order(".toList :=
  ⟨[], [], [], Text.blank_nil, Text.blank_nil, Text.blank_nil, rfl⟩

theorem isOrder_orderText {Allowed : List Char → Prop} (hp : ∀ s, Plain s → Allowed s)
    (h : ∀ t, order = some (.invalid t) → IsToken t ∧ Allowed t.toList) :
    IsOrder Allowed (orderText order) order := by
  cases order with
  | none => exact .absent Text.blank_nil
  | some d =>
    have hd : OrderDirective.ofToken d.token = d ∧ Allowed d.token.toList := by
      cases d with
      | chronological => exact ⟨by decide, hp _ (by simp [Plain, OrderDirective.token])⟩
      | reverseChronological => exact ⟨by decide, hp _ (by simp [Plain, OrderDirective.token])⟩
      | invalid t => exact ⟨(h t rfl).1.ofToken, (h t rfl).2⟩
    have := IsOrder.order opensOrder_order hd.2 (.inr ⟨[], Text.blank_nil, rfl⟩)
    rwa [String.ofList_toList, hd.1] at this

theorem isSelection_nodesText (hne : ns ≠ []) (h : ∀ n ∈ ns, IsField (nodeText n) n) :
    IsSelection (nodesText ns) ns := by
  induction ns with
  | nil => exact absurd rfl hne
  | cons n ns ih =>
    have hn := h n (by simp)
    cases ns with
    | nil => rw [nodesText]; exact .last hn
    | cons m ms =>
      rw [nodesText]
      exact .more hn (ih (List.cons_ne_nil m ms) fun l hl => h l (by simp [hl]))

theorem Node.WellFormed.isField (h : n.WellFormed) : IsField (nodeText n) n := by
  induction h with
  | leaf hn ht =>
    have ho := isOrder_orderText (fun _ => id) fun t he =>
      ⟨(ht t he).1, (ht t he).1.enclosed.plain (ht t he).2.1⟩
    simpa [nodeText] using IsField.plain Text.blank_nil hn Text.blank_nil ho
  | nested hn hne _ ht ih =>
    have ho := isOrder_orderText (fun _ => Plain.enclosed) fun t he => ⟨ht t he, (ht t he).enclosed⟩
    simpa [nodeText] using
      IsField.block Text.blank_nil hn Text.blank_nil (isSelection_nodesText hne ih) ho

theorem parse_render (h : WellFormed ns) : parse (render ns) = .ok ns := by
  refine parse_of_isSelection ?_
  rw [render, String.toList_ofList]
  exact isSelection_nodesText h.1 fun n hn => (h.2 n hn).isField

instance (ns : List Node) : Decidable (WellFormed ns) :=
  decidable_of_iff (parse (render ns) = .ok ns) ⟨wellFormed_of_parse, parse_render⟩

/-! ## Round trips -/

/-- **Round trip**: a selection is read back from its canonical text exactly if it is well formed. -/
theorem parse_render_iff (ns : List Node) : parse (render ns) = .ok ns ↔ WellFormed ns :=
  ⟨wellFormed_of_parse, parse_render⟩

-- A closing parenthesis in a token does no harm, a brace does unless there is a block before it.
example : WellFormed [⟨"a", none, some (.invalid "b) (c.d")⟩] ∧
    WellFormed [⟨"a", some [⟨"b", none, none⟩], some (.invalid "{c,d}")⟩] ∧
    ¬ WellFormed [⟨"a", none, some (.invalid "{c,d}")⟩] ∧ ¬ WellFormed [⟨"a", some [], none⟩] := by
  decide +kernel

/-- **Normal form**: the canonical text of what an accepted selector selects is read as the same
nodes, and writing those again changes nothing. -/
theorem render_normal {selector : String} (h : parse selector = .ok ns) :
    parse (render ns) = .ok ns ∧ (parse (render ns)).map render = .ok (render ns) := by
  have hp := parse_render (wellFormed_of_parse h)
  exact ⟨hp, by rw [hp]; rfl⟩

/-- What is selected by a text with blanks of several kinds, parentheses, braces and commas in its
tokens, and an order that is not closed. -/
def posts : List Node :=
  [⟨"posts", some [⟨"title", none, none⟩, ⟨"tags", none, some (.invalid ":)(:")⟩],
    some (.invalid "{a,b} (c")⟩]

theorem render_normal_posts :
    parse "\u2003posts { title , tags.order( :)(: ) }\n.order ({a,b} (c\t" = .ok posts ∧
      parse (render posts) = .ok posts ∧ (parse (render posts)).map render = .ok (render posts) := by
  have h : parse "\u2003posts { title , tags.order( :)(: ) }\n.order ({a,b} (c\t" = .ok posts := by
    decide +kernel
  exact ⟨h, render_normal h⟩

end Facet.Selector
