/-!
# Computations that may fail

A computation in steps succeeds if each of its steps does (`bind_eq_ok_iff`), and fails with the
first step that does (`bind_eq_error_iff`). A change of errors goes to the steps (`mapError_bind`).
-/

set_option autoImplicit false

namespace Facet

theorem bind_eq_ok_iff {ε α β : Type} {x : Except ε α} {f : α → Except ε β} {b : β} :
    x >>= f = .ok b ↔ ∃ a, x = .ok a ∧ f a = .ok b := by
  cases x <;> simp [bind, Except.bind]

theorem bind_eq_error_iff {ε α β : Type} {x : Except ε α} {f : α → Except ε β} {e : ε} :
    x >>= f = .error e ↔ x = .error e ∨ ∃ a, x = .ok a ∧ f a = .error e := by
  cases x <;> simp [bind, Except.bind]

/-! ## Changed errors -/

section

variable {ε ε' ε'' α β : Type} {x : Except ε α} {g : ε → ε'}

theorem mapError_ok (g : ε → ε') (a : α) : (Except.ok a).mapError g = .ok a := rfl

theorem mapError_error (g : ε → ε') (e : ε) :
    (Except.error e : Except ε α).mapError g = .error (g e) := rfl

theorem mapError_bind (f : α → Except ε β) :
    (x >>= f).mapError g = x.mapError g >>= fun a => (f a).mapError g := by
  cases x <;> rfl

theorem mapError_mapError (g' : ε' → ε'') :
    (x.mapError g).mapError g' = x.mapError (g' ∘ g) := by
  cases x <;> rfl

/-- If the errors are not changed, nothing is. -/
theorem mapError_eq_self {g : ε → ε} (h : ∀ e, x = .error e → g e = e) : x.mapError g = x := by
  cases x with
  | ok a => rfl
  | error e => rw [mapError_error, h e rfl]

end

end Facet
