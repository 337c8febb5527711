import Facet.Text.Blank
import Mathlib.Data.List.DropRight
import Mathlib.Data.List.TakeWhile

/-!
# Trimming

`trim` takes a text out of the blanks around it. A text is blanks, its `trim` and blanks
(`exists_trim`), more blanks around it make no difference (`trim_append`), and a character that is
not blank keeps what is on its other side from being trimmed (`trimStart_cons`, `trimEnd_append_cons`).
-/

set_option autoImplicit false

namespace Facet.Text

/-- Nothing but white space. -/
def Blank (s : List Char) : Prop := ∀ c ∈ s, isBlank c = true

variable {c : Char} {s t u v : List Char}

theorem blank_nil : Blank [] := by simp [Blank]

theorem blank_append : Blank (u ++ v) ↔ Blank u ∧ Blank v := by simp [Blank, or_imp, forall_and]

theorem Blank.not_mem (h : Blank s) (hc : isBlank c = false) : c ∉ s := by
  intro hm
  rw [h c hm] at hc
  cases hc

/-! ## The two ends -/

theorem trimStart_append (hu : Blank u) : trimStart (u ++ s) = trimStart s :=
  List.dropWhile_append_of_pos hu

theorem trimStart_cons (hc : isBlank c = false) : trimStart (c :: s) = c :: s :=
  List.dropWhile_cons_of_neg (by simp [hc])

theorem exists_trimStart (s : List Char) : ∃ u, Blank u ∧ s = u ++ trimStart s :=
  ⟨s.takeWhile isBlank, fun _ hc => List.mem_takeWhile_imp hc,
    List.takeWhile_append_dropWhile.symm⟩

theorem trimStart_eq_self_iff : trimStart s = s ↔ s.takeWhile isBlank = [] := by
  rw [trimStart, List.dropWhile_eq_self_iff, List.takeWhile_eq_nil_iff]
  rfl

theorem trimStart_eq_nil_iff : trimStart s = [] ↔ Blank s := List.dropWhile_eq_nil_iff

theorem not_blank_of_trimStart_eq_cons (h : trimStart s = c :: t) : isBlank c = false := by
  have := List.head?_dropWhile_not isBlank s
  rw [← trimStart, h] at this
  exact this

theorem trimEnd_append (hv : Blank v) : trimEnd (s ++ v) = trimEnd s := by
  rw [trimEnd, trimEnd, List.reverse_append,
    List.dropWhile_append_of_pos fun c hc => hv c (List.mem_reverse.1 hc)]

theorem exists_trimEnd (s : List Char) : ∃ v, Blank v ∧ s = trimEnd s ++ v :=
  ⟨s.rtakeWhile isBlank, fun _ hc => List.mem_rtakeWhile_imp hc,
    List.rdropWhile_append_rtakeWhile.symm⟩

theorem trimEnd_eq_nil_iff : trimEnd s = [] ↔ Blank s := List.rdropWhile_eq_nil_iff

theorem trimEnd_append_cons (hc : isBlank c = false) : trimEnd (s ++ c :: t) = s ++ c :: trimEnd t := by
  have h : (s ++ c :: t).reverse = t.reverse ++ c :: s.reverse := by simp
  rw [trimEnd, h, List.dropWhile_append]
  split
  · next he =>
    have ht : trimEnd t = [] := by rw [trimEnd, List.isEmpty_iff.1 he, List.reverse_nil]
    rw [List.dropWhile_cons_of_neg (by simp [hc]), ht]
    simp
  · rw [List.reverse_append, ← trimEnd]
    simp

/-! ## Both ends -/

/-- A text is what `trim` leaves of it between blanks. -/
theorem exists_trim (s : List Char) : ∃ u v, Blank u ∧ Blank v ∧ s = u ++ trim s ++ v := by
  obtain ⟨u, hu, hs⟩ := exists_trimStart s
  obtain ⟨v, hv, ht⟩ := exists_trimEnd (trimStart s)
  refine ⟨u, v, hu, hv, ?_⟩
  rw [List.append_assoc, trim, ← ht, ← hs]

/-- The blanks in front are all that the text starts with. -/
theorem exists_takeWhile_append_trim (s : List Char) :
    ∃ v, Blank v ∧ s = s.takeWhile isBlank ++ trim s ++ v := by
  obtain ⟨v, hv, ht⟩ := exists_trimEnd (trimStart s)
  refine ⟨v, hv, ?_⟩
  rw [List.append_assoc, trim, ← ht]
  exact List.takeWhile_append_dropWhile.symm

theorem not_blank_of_trim_eq_cons (h : trim s = c :: t) : isBlank c = false := by
  obtain ⟨v, -, hv⟩ := exists_trimEnd (trimStart s)
  rw [← trim, h, List.cons_append] at hv
  exact not_blank_of_trimStart_eq_cons hv

/-- What is between the blanks of a text stands behind those it starts with. -/
theorem trim_prefix_trimStart_append (hne : trim s ≠ []) (t : List Char) :
    trim s <+: trimStart (s ++ t) := by
  obtain ⟨u, v, hu, -, hs⟩ := exists_trim s
  cases ht : trim s with
  | nil => exact absurd ht hne
  | cons c r =>
    have hc := not_blank_of_trim_eq_cons ht
    rw [hs, ht, List.append_assoc, List.append_assoc, trimStart_append hu, List.cons_append,
      trimStart_cons hc]
    exact List.prefix_append (c :: r) (v ++ t)

theorem trim_subset (s : List Char) : trim s ⊆ s := fun _ hc =>
  (List.dropWhile_suffix isBlank).subset ((List.rdropWhile_prefix isBlank (trimStart s)).subset hc)

theorem trim_eq_nil_iff : trim s = [] ↔ Blank s := by
  refine ⟨fun h => ?_, fun h => ?_⟩
  · obtain ⟨u, v, hu, hv, hs⟩ := exists_trim s
    rw [hs, h, List.append_nil]
    exact blank_append.2 ⟨hu, hv⟩
  · rw [trim, trimStart_eq_nil_iff.2 h]
    rfl

theorem trim_append_left (hu : Blank u) : trim (u ++ s) = trim s := by
  rw [trim, trimStart_append hu, trim]

theorem trim_append_right (hv : Blank v) : trim (s ++ v) = trim s := by
  obtain ⟨u, hu, hs⟩ := exists_trimStart s
  cases hr : trimStart s with
  | nil =>
    have hb := trimStart_eq_nil_iff.1 hr
    rw [trim_eq_nil_iff.2 hb, trim_eq_nil_iff.2 (blank_append.2 ⟨hb, hv⟩)]
  | cons c r =>
    have hc := not_blank_of_trimStart_eq_cons hr
    rw [hs, hr, List.append_assoc, trim_append_left hu, trim_append_left hu, trim, List.cons_append,
      trimStart_cons hc, ← List.cons_append, trimEnd_append hv, trim, trimStart_cons hc]

/-- Blanks around a text make no difference. -/
theorem trim_append (hu : Blank u) (hv : Blank v) : trim (u ++ s ++ v) = trim s := by
  rw [trim_append_right hv, trim_append_left hu]

theorem trim_trim (s : List Char) : trim (trim s) = trim s := by
  obtain ⟨u, v, hu, hv, hs⟩ := exists_trim s
  conv_rhs => rw [hs, trim_append hu hv]

theorem trim_trimEnd (s : List Char) : trim (trimEnd s) = trim s := by
  obtain ⟨v, hv, hs⟩ := exists_trimEnd s
  conv_rhs => rw [hs, trim_append_right hv]

/-- A text between two characters that are not blank stays in place. -/
theorem trim_cons_append_cons {d : Char} (hc : isBlank c = false) (hd : isBlank d = false) :
    trim (c :: s ++ d :: t) = c :: s ++ d :: trimEnd t := by
  rw [trim, List.cons_append, trimStart_cons hc, ← List.cons_append, trimEnd_append_cons hd]

theorem trim_eq_self (h : ∀ c ∈ s, isBlank c = false) : trim s = s := by
  have hb : trimStart s = s :=
    List.dropWhile_eq_self_iff.2 fun hl => by simp [h _ (List.getElem_mem hl)]
  rw [trim, hb]
  exact List.rdropWhile_eq_self_iff.2 fun hl => by simp [h _ (List.getLast_mem hl)]

theorem trimmed_trimmed (s : String) : trimmed (trimmed s) = trimmed s := by
  rw [trimmed, trimmed, String.toList_ofList, trim_trim]

end Facet.Text
