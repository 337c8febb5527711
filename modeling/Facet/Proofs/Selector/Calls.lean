import Facet.Proofs.Selector.Balance
import Facet.Proofs.Selector.Concatenation
import Mathlib.Logic.Relation

/-!
# Calls of the readers

Reading a selector is a tree of calls (`Call.Makes`): a selection is cut into its pieces, and a field
is read at each of them; a field with a block has the selection in its block read. Whatever is wrong
with a selector is found by one of these calls (`exists_finds`).

The braces of the selector as a whole are checked in the first call. If they are balanced, so are
those of the text of every call after it: what lies between commas outside braces, and what lies
within a block, is balanced again (`Call.Sound`). So none of these calls can find a fault of braces
(`Call.Sound.settled`): a scan for commas comes to the end of its text, and a scan for the end of a
block comes to it before the count of open braces is below zero.

Main statement: `parse_braces`. A fault of braces is reported if and only if the braces of the whole
selector are not balanced, whatever else is wrong with it.
-/

set_option autoImplicit false

namespace Facet.Selector

open Relation (ReflTransGen TransGen)
open Text (isBlank trim byteLength)

/-! ## Calls -/

/-- A call of a reader on a text that starts at a position. -/
inductive Call where
  | selection (position : Nat) (text : List Char)
  | field (position : Nat) (text : List Char)

/-- The position behind texts, each with a comma after it. -/
def behind (position : Nat) : List (List Char) → Nat
  | [] => position
  | p :: ps => behind (position + byteLength p + 1) ps

namespace Call

def text : Call → List Char
  | .selection _ text | .field _ text => text

/-- A call makes another one while it reads its text. That a fault in an earlier field keeps it from
being made is left out of account. -/
inductive Makes : Call → Call → Prop
  | field {position : Nat} {s p : List Char} {before after : List (List Char)} :
      braceFault? 0 position s = none → pieces s = before ++ p :: after →
      Makes (.selection position s) (.field (behind position before) p)
  | selection {position : Nat} {text name inner suffix : List Char} :
      parts? (trim text) = some ⟨name, some inner, suffix⟩ →
      Makes (.field position text)
        (.selection (position + byteLength (text.takeWhile isBlank) + byteLength name + 1) inner)

/-- What a call finds to be wrong by itself, apart from the calls that it makes. -/
inductive Finds : Call → Fault → Prop
  | braces {position : Nat} {s : List Char} {fault : Fault} :
      braceFault? 0 position s = some fault → Finds (.selection position s) fault
  | blank {position : Nat} {text : List Char} : trim text = [] →
      Finds (.field position text) ⟨position + byteLength (text.takeWhile isBlank), .emptyField⟩
  | uncut {position : Nat} {text : List Char} : trim text ≠ [] → parts? (trim text) = none →
      Finds (.field position text) ⟨position + byteLength (text.takeWhile isBlank) +
        byteLength ((trim text).takeWhile (· ≠ '{')), .unclosedOpen⟩
  | name {position p : Nat} {text : List Char} {parts : Parts} {fault : Fault} :
      parts? (trim text) = some parts → fieldName p parts.name = .error fault →
      Finds (.field position text) fault
  | order {position p : Nat} {text : List Char} {parts : Parts} {fault : Fault} :
      parts? (trim text) = some parts → fieldOrder p parts.suffix = .error fault →
      Finds (.field position text) fault

end Call

variable {s t text name inner suffix : List Char} {position q : Nat} {fault : Fault}
  {call call' : Call}

/-! ## Every fault is found by a call -/

theorem finds_of_field_plain (h : field position text = .error fault) (hne : trim text ≠ [])
    (hp : parts? (trim text) = some ⟨name, none, suffix⟩) :
    Call.Finds (.field position text) fault := by
  rw [field_plain hne hp] at h
  rcases bind_eq_error_iff.1 h with h | ⟨fname, -, h⟩
  · exact .name hp h
  rcases bind_eq_error_iff.1 h with h | ⟨order, -, h⟩
  · exact .order hp h
  · cases h

/-- What is wrong with a field with a block is found in its selection or in the field itself. -/
theorem finds_of_field_block (h : field position text = .error fault) (hne : trim text ≠ [])
    (hp : parts? (trim text) = some ⟨name, some inner, suffix⟩) :
    selection (position + byteLength (text.takeWhile isBlank) + byteLength name + 1) inner =
      .error fault ∨ Call.Finds (.field position text) fault := by
  rw [field_block hne hp] at h
  rcases bind_eq_error_iff.1 h with h | ⟨children, -, h⟩
  · exact .inl h
  rcases bind_eq_error_iff.1 h with h | ⟨fname, -, h⟩
  · exact .inr (.name hp h)
  rcases bind_eq_error_iff.1 h with h | ⟨order, -, h⟩
  · exact .inr (.order hp h)
  · cases h

/-- From a call that fails with a fault there is a way to one that finds it. -/
theorem exists_finds :
    (∀ position s fault, selection position s = .error fault →
      ∃ call, ReflTransGen Call.Makes (.selection position s) call ∧ call.Finds fault) ∧
    (∀ position ps fault, fields position ps = .error fault →
      ∃ before p after, ps = before ++ p :: after ∧ ∃ call,
        ReflTransGen Call.Makes (.field (behind position before) p) call ∧ call.Finds fault) ∧
    (∀ position text fault, field position text = .error fault →
      ∃ call, ReflTransGen Call.Makes (.field position text) call ∧ call.Finds fault) := by
  apply selection.mutual_induct
    (fun position s => ∀ fault, selection position s = .error fault →
      ∃ call, ReflTransGen Call.Makes (.selection position s) call ∧ call.Finds fault)
    (fun position ps => ∀ fault, fields position ps = .error fault →
      ∃ before p after, ps = before ++ p :: after ∧ ∃ call,
        ReflTransGen Call.Makes (.field (behind position before) p) call ∧ call.Finds fault)
    (fun position text => ∀ fault, field position text = .error fault →
      ∃ call, ReflTransGen Call.Makes (.field position text) call ∧ call.Finds fault)
  · intro position s f hf fault h
    rw [selection, hf] at h
    cases h
    exact ⟨_, .refl, .braces hf⟩
  · intro position s hf ih fault h
    rw [selection, hf] at h
    obtain ⟨before, p, after, hps, call, hcall, hfinds⟩ := ih fault h
    exact ⟨call, .head (.field hf hps) hcall, hfinds⟩
  · intro position fault h
    rw [fields] at h
    cases h
  · intro position p ps ihp ihps fault h
    rcases fields_cons_eq_error_iff.1 h with h | ⟨h, -⟩
    · exact ⟨[], p, ps, rfl, ihp fault h⟩
    · obtain ⟨before, q, after, rfl, hcall⟩ := ihps fault h
      exact ⟨p :: before, q, after, rfl, hcall⟩
  · intro position text hblank fault h
    have hb := List.isEmpty_iff.1 hblank
    rw [field_blank hb] at h
    cases h
    exact ⟨_, .refl, .blank hb⟩
  · intro position text hne hp fault h
    have hne : trim text ≠ [] := by simpa using hne
    rw [field_uncut hne hp] at h
    cases h
    exact ⟨_, .refl, .uncut hne hp⟩
  · intro position text hne name suffix hp fault h
    exact ⟨_, .refl, finds_of_field_plain h (by simpa using hne) hp⟩
  · intro position text start hne name inner suffix hp ih fault h
    rcases finds_of_field_block h (by simpa using hne) hp with h | h
    · obtain ⟨call, hcall, hfinds⟩ := ih fault h
      exact ⟨call, .head (.selection hp) hcall, hfinds⟩
    · exact ⟨_, .refl, h⟩

/-! ## The braces of calls -/

/-- From the brace in front of the text up to the one behind it the count of open braces is above
zero, and that one brings it back to zero. -/
structure Closes (inner : List Char) : Prop where
  above : ∀ p, p <+: inner → 0 < excess ('{' :: p)
  zero : excess ('{' :: inner ++ ['}']) = 0

theorem Balanced.closes (h : Balanced inner) : Closes inner := by
  refine ⟨fun p hp => ?_, ?_⟩
  · have := h.prefixes p hp
    rw [excess_open]
    omega
  · have hclose : excess ['}'] = -1 := rfl
    rw [excess_append, excess_open, h.total, hclose]
    rfl

namespace Call

/-- The braces of the text are balanced; that of a field has no comma outside them. -/
def Sound : Call → Prop
  | .selection _ s => textDepth? 0 s = some 0
  | .field _ text => Leads 0 text 0

/-- A call makes calls on texts with balanced braces, if those of its own text are. -/
theorem Makes.sound (h : Makes call call') (hs : call.Sound) : call'.Sound := by
  cases h with
  | field _ hps => exact leads_pieces hs _ (by simp [hps])
  | selection hp => exact (parts?_block_iff.1 hp).2.1

theorem Sound.of_reaches (hs : call.Sound) (h : ReflTransGen Makes call call') :
    call'.Sound := by
  induction h with
  | refl => exact hs
  | tail _ hmakes ih => exact hmakes.sound ih

/-- The scans for braces of a call come to their ends. That of a selection finds no fault. A field is
cut into its parts, and if there is a brace in it, the one that closes its first block is found. -/
def Settled : Call → Prop
  | .selection position s => braceFault? 0 position s = none
  | .field _ text => parts? (trim text) ≠ none ∧
      ('{' ∈ trim text → ∃ name inner suffix, trim text = name ++ '{' :: inner ++ '}' :: suffix ∧
        '{' ∉ name ∧ Closes inner ∧ parts? (trim text) = some ⟨name, some inner, suffix⟩)

theorem Sound.settled (h : call.Sound) : call.Settled := by
  cases call with
  | selection position s => exact (braceFault?_eq_none_iff position).2 h
  | field position text =>
    have hcut := parts?_ne_none (leads_trim.2 h)
    refine ⟨hcut, fun hbrace => ?_⟩
    cases hp : parts? (trim text) with
    | none => exact absurd hp hcut
    | some parts =>
      obtain ⟨name, _ | inner, suffix⟩ := parts
      · exact absurd hbrace (eq_of_parts?_plain hp).1
      · obtain ⟨hname, hinner, htext⟩ := parts?_block_iff.1 hp
        exact ⟨name, inner, suffix, htext, hname, (balanced_iff_textDepth?.2 hinner).closes, rfl⟩

end Call

/-! ## The lengths of calls -/

theorem length_lt_joinedLength {ps : List (List Char)} (h : s ∈ ps) :
    s.length < joinedLength ps := by
  induction ps with
  | nil => cases h
  | cons p ps ih =>
    unfold joinedLength
    rcases List.mem_cons.1 h with rfl | h
    · omega
    · have := ih h
      omega

namespace Call

/-- No call makes one on a longer text. -/
theorem Makes.length_le (h : Makes call call') : call'.text.length ≤ call.text.length := by
  cases h with
  | @field _ s p _ _ _ hps =>
    have hlt : p.length < joinedLength (pieces s) := length_lt_joinedLength (by simp [hps])
    rw [joinedLength_pieces] at hlt
    exact Nat.lt_succ_iff.1 hlt
  | @selection _ text _ inner _ hp =>
    have h₁ := length_of_parts? hp
    have h₂ := Text.trim_length_le text
    show inner.length ≤ text.length
    omega

theorem length_le_of_reaches (h : ReflTransGen Makes call call') :
    call'.text.length ≤ call.text.length := by
  induction h with
  | refl => exact Nat.le_refl _
  | tail _ hmakes ih => exact Nat.le_trans hmakes.length_le ih

/-- A selection that is read within another one is shorter, by the braces around it. -/
theorem length_lt_of_transGen
    (h : TransGen Makes (.selection position s) (.selection q t)) : t.length < s.length := by
  obtain ⟨call, hreaches, hmakes⟩ := TransGen.tail'_iff.1 h
  cases hmakes with
  | @selection _ text _ _ _ hp =>
    have h₁ := length_of_parts? hp
    have h₂ := Text.trim_length_le text
    have h₃ : text.length ≤ s.length := length_le_of_reaches hreaches
    omega

end Call

/-! ## Faults of braces -/

theorem isBraceFault_of_fieldName (h : fieldName position text = .error fault) :
    fault.kind.isBraceFault = false := by
  rw [fieldName] at h
  split at h
  · cases h
    rfl
  · split at h
    · cases h
      rfl
    · cases h

theorem isBraceFault_of_fieldOrder (h : fieldOrder position text = .error fault) :
    fault.kind.isBraceFault = false := by
  rw [fieldOrder] at h
  split at h
  · cases h
  · split at h
    · cases h
      rfl
    · split at h
      · cases h
      · split at h
        · cases h
        · cases h
          rfl

/-- Where the scans for braces come to their ends, no fault of braces is found. -/
theorem Call.Settled.isBraceFault (hs : call.Settled) (h : call.Finds fault) :
    fault.kind.isBraceFault = false := by
  cases h with
  | braces hf => cases hs.symm.trans hf
  | blank _ => rfl
  | uncut _ hp => exact absurd hp hs.1
  | name _ h => exact isBraceFault_of_fieldName h
  | order _ h => exact isBraceFault_of_fieldOrder h

/-- The faults of braces are those that the first scan finds. -/
theorem selection_eq_braceFault_iff :
    selection position s = .error fault ∧ fault.kind.isBraceFault = true ↔
      braceFault? 0 position s = some fault := by
  constructor
  · rintro ⟨h, hk⟩
    cases hf : braceFault? 0 position s with
    | some f =>
      rw [selection, hf] at h
      cases h
      rfl
    | none =>
      have hsound : (Call.selection position s).Sound := (braceFault?_eq_none_iff position).1 hf
      obtain ⟨call, hcall, hfinds⟩ := exists_finds.1 position s fault h
      rw [(hsound.of_reaches hcall).settled.isBraceFault hfinds] at hk
      cases hk
  · intro hf
    refine ⟨?_, isBraceFault_of_braceFault? hf⟩
    rw [selection, hf]

/-! ## Selectors -/

section

variable {selector : String} {k : Nat}

theorem parse_eq_braceFault_iff (hk : fault.kind.isBraceFault = true) :
    parse selector = .error fault ↔ braceFault? 0 0 selector.toList = some fault := by
  rw [← selection_eq_braceFault_iff, and_iff_left hk]
  rfl

theorem exists_parse_eq_braceFault_iff :
    (∃ fault, parse selector = .error fault ∧ fault.kind.isBraceFault = true) ↔
      ¬Balanced selector.toList := by
  rw [balanced_iff_braceFault? 0, ← ne_eq, Option.ne_none_iff_exists']
  exact exists_congr fun fault => selection_eq_braceFault_iff

theorem parse_eq_unexpectedClose_iff :
    parse selector = .error ⟨k, .unexpectedClose⟩ ↔ ∃ before after : String,
      selector = before ++ "\x7d" ++ after ∧ Balanced before.toList ∧ before.utf8ByteSize = k := by
  rw [parse_eq_braceFault_iff rfl, braceFault?_eq_some_iff]
  constructor
  · rintro (⟨before, after, hs, hb, hf⟩ | ⟨-, hf⟩)
    · refine ⟨String.ofList before, String.ofList after, ?_, ?_, ?_⟩
      · rw [← String.toList_inj, hs]
        simp
      · rwa [String.toList_ofList]
      · cases hf
        rw [← Text.byteLength_eq_utf8ByteSize, Nat.zero_add]
    · cases hf
  · rintro ⟨before, after, rfl, hb, rfl⟩
    refine .inl ⟨before.toList, after.toList, by simp, hb, ?_⟩
    rw [Text.byteLength_toList, Nat.zero_add]

theorem parse_eq_unclosedOpen_iff :
    parse selector = .error ⟨k, .unclosedOpen⟩ ↔
      Unclosed selector.toList ∧ selector.utf8ByteSize = k := by
  rw [parse_eq_braceFault_iff rfl, braceFault?_eq_some_iff, Text.byteLength_toList, Nat.zero_add]
  constructor
  · rintro (⟨_, _, -, -, hf⟩ | ⟨hu, hf⟩)
    · cases hf
    · cases hf
      exact ⟨hu, rfl⟩
  · rintro ⟨hu, rfl⟩
    exact .inr ⟨hu, rfl⟩

theorem settled_of_balanced (h : Balanced s)
    (hcall : ReflTransGen Call.Makes (.selection position s) call) : call.Settled := by
  have hsound : (Call.selection position s).Sound := balanced_iff_textDepth?.1 h
  exact (hsound.of_reaches hcall).settled

end

/-- **Only the braces of the whole selector matter.** A selector has a fault of braces if and only if
its braces are not balanced. The fault is at the first closing brace without a partner, that is the
one behind a balanced text, or else at the end of a selector that leaves braces open. If the braces
are balanced, every call that the reader comes to, at any depth, gets to the ends of its scans: a
selection has no fault in its braces, and a field with a block is cut at the brace that closes it, up
to which the count of open braces stays above zero. And a selection within another is shorter. -/
theorem parse_braces (selector : String) :
    ((∃ fault, parse selector = .error fault ∧ fault.kind.isBraceFault = true) ↔
      ¬Balanced selector.toList) ∧
    (∀ k, parse selector = .error ⟨k, .unexpectedClose⟩ ↔ ∃ before after : String,
      selector = before ++ "\x7d" ++ after ∧ Balanced before.toList ∧ before.utf8ByteSize = k) ∧
    (∀ k, parse selector = .error ⟨k, .unclosedOpen⟩ ↔
      Unclosed selector.toList ∧ selector.utf8ByteSize = k) ∧
    (FaultKind.unexpectedClose.reason = "unexpected '\x7d'" ∧
      FaultKind.unclosedOpen.reason = "unclosed '\x7b'") ∧
    (Balanced selector.toList → ∀ call,
      ReflTransGen Call.Makes (.selection 0 selector.toList) call → call.Settled) ∧
    ∀ position s q t, TransGen Call.Makes (.selection position s) (.selection q t) →
      t.length < s.length :=
  ⟨exists_parse_eq_braceFault_iff, fun _ => parse_eq_unexpectedClose_iff,
    fun _ => parse_eq_unclosedOpen_iff, ⟨rfl, rfl⟩, fun h _ hcall => settled_of_balanced h hcall,
    fun _ _ _ _ h => Call.length_lt_of_transGen h⟩

/-! ### Two selectors -/

/-- A name with a blank, then a brace that closes nothing, then one that nothing closes. -/
def torn : String := " x y,é\x7d\x7b"

/-- A block in a block, and a name with a blank in the inner one. -/
def nested : String := "a\x7bb,é \x7bc d\x7d\x7d"

theorem reaches_nested : TransGen Call.Makes (.selection 0 nested.toList)
    (.selection 8 "c d".toList) := by
  have h₁ : Call.Makes (.selection 0 nested.toList) (.field 0 nested.toList) :=
    @Call.Makes.field 0 _ _ [] [] (by decide) (by decide)
  have h₂ : Call.Makes (.field 0 nested.toList) (.selection 2 "b,é \x7bc d\x7d".toList) :=
    @Call.Makes.selection 0 _ "a".toList _ [] rfl
  have h₃ : Call.Makes (.selection 2 "b,é \x7bc d\x7d".toList) (.field 4 "é \x7bc d\x7d".toList) :=
    @Call.Makes.field 2 _ _ ["b".toList] [] (by decide) (by decide)
  have h₄ : Call.Makes (.field 4 "é \x7bc d\x7d".toList) (.selection 8 "c d".toList) :=
    @Call.Makes.selection 4 _ "é ".toList _ [] rfl
  exact .head h₁ (.head h₂ (.head h₃ (.single h₄)))

/-- The brace is reported, not the blank in front of it. In the other selector a call comes to the
inner block, finds its braces in order and its text shorter. -/
theorem parse_braces_torn :
    parse torn = .error ⟨7, .unexpectedClose⟩ ∧
    Balanced nested.toList ∧
    ReflTransGen Call.Makes (.selection 0 nested.toList) (.selection 8 "c d".toList) ∧
    (Call.selection 8 "c d".toList).Settled ∧ "c d".toList.length < nested.toList.length := by
  have hfront : Balanced " x y,é".toList := balanced_iff_textDepth?.2 (by decide)
  have hnested : Balanced nested.toList := balanced_iff_textDepth?.2 (by decide)
  obtain ⟨-, hclose, -, -, -, -⟩ := parse_braces torn
  obtain ⟨-, -, -, -, hsettled, hshorter⟩ := parse_braces nested
  have hreaches := reaches_nested
  exact ⟨(hclose 7).2 ⟨" x y,é", "\x7b", rfl, hfront, rfl⟩, hnested, hreaches.to_reflTransGen,
    hsettled hnested _ hreaches.to_reflTransGen, hshorter _ _ _ _ hreaches⟩

end Facet.Selector
