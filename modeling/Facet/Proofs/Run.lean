import Facet.Projector

/-!
# Runs

What the steps of a `Run` do to the diagnostics recorded before them, and six ways to speak of
whole runs:

* `Run.Agree counts x y`: `x` and `y` have the same outcome and record the same diagnostics among
  those that count; it passes from the parts of runs to the whole (`Agree.bind`).
* `Run.Steady x`: `x` has one outcome and one list of diagnostics to add, whatever was recorded
  before it (`Steady.run_eq`); this passes from parts to the whole (`Steady.bind`).
* `Run.Returns x a`: `x` succeeds with `a`; then its parts succeed (`Returns.of_bind`), and if they
  do and are steady, the whole does (`returns_bind_iff`).
* `Run.Follows R x y`: where `y` succeeds `x` does, with a value that `R` relates to that of `y`;
  this too passes from parts to the whole (`Follows.bind`).
* `Run.Concur R x y`: where both succeed, `R` relates their values (`Concur.bind`).
* `Run.Sifted counts x y`: `x` and `y` have the same outcome, and `y` adds those of the diagnostics
  that `x` adds that count (`Sifted.bind`).

A relation that passes from the parts of runs to the whole is a `Run.Congruence`; `Agree`, `Sifted`,
equality and steadiness are.
-/

set_option autoImplicit false

namespace Facet.Run

variable {α β : Type}

/-! ## Single steps -/

theorem run_pure (a : α) (ds : Diagnostics) : (pure a : Run α).run ds = (.ok a, ds) := rfl

theorem run_note (kind : DiagnosticKind) (message : String) (ds : Diagnostics) :
    (Projector.note kind message).run ds = (.ok (), ds ++ [⟨kind, message⟩]) := rfl

theorem run_bind (x : Run α) (f : α → Run β) (ds : Diagnostics) :
    (x >>= f).run ds = match x.run ds with
      | (.ok a, es) => (f a).run es
      | (.error e, es) => (.error e, es) := by
  show (match x.run ds with | (r, es) => (ExceptT.bindCont f r).run es) = _
  rcases x.run ds with ⟨_ | _, es⟩ <;> rfl

theorem run_map (f : α → β) (x : Run α) (ds : Diagnostics) :
    (f <$> x).run ds = ((x.run ds).1.map f, (x.run ds).2) := by
  show (x >>= fun a => pure (f a)).run ds = _
  rw [run_bind]
  rcases x.run ds with ⟨_ | _, _⟩ <;> rfl

/-! ## Runs side by side -/

/-- `x` and `y` have the same outcome and record the same diagnostics among those that count, if
those recorded before them are the same. -/
def Agree (counts : Diagnostic → Bool) (x y : Run α) : Prop :=
  ∀ ds es : Diagnostics, ds.filter counts = es.filter counts →
    (x.run ds).1 = (y.run es).1 ∧ (x.run ds).2.filter counts = (y.run es).2.filter counts

namespace Agree

variable {counts : Diagnostic → Bool}

theorem pure (a : α) : Agree counts (pure a) (pure a) := fun _ _ h => ⟨rfl, h⟩

theorem throw (e : Error) : Agree (α := α) counts (throw e) (throw e) := fun _ _ h => ⟨rfl, h⟩

/-- A diagnostic that does not count may be left out. -/
theorem note_pure {kind : DiagnosticKind} {message : String} (h : counts ⟨kind, message⟩ = false) :
    Agree counts (Projector.note kind message) (Pure.pure ()) := by
  intro ds es he
  refine ⟨rfl, ?_⟩
  rw [run_note, run_pure, List.filter_append, he]
  simp [h]

theorem bind {x y : Run α} {f g : α → Run β} (h : Agree counts x y)
    (hf : ∀ a, Agree counts (f a) (g a)) : Agree counts (x >>= f) (y >>= g) := by
  intro ds es he
  obtain ⟨hr, hd⟩ := h ds es he
  rw [run_bind, run_bind]
  rcases hx : x.run ds with ⟨_ | a, ds'⟩ <;> rcases hy : y.run es with ⟨_ | b, es'⟩ <;>
    simp only [hx, hy, Except.error.injEq, Except.ok.injEq, reduceCtorEq] at hr hd
  · subst hr
    exact ⟨rfl, hd⟩
  · subst hr
    exact hf a ds' es' hd

theorem map {x y : Run α} (f : α → β) (h : Agree counts x y) : Agree counts (f <$> x) (f <$> y) :=
  h.bind fun a => .pure (f a)

end Agree

/-- `x` has one outcome and adds one list of diagnostics, whatever was recorded before it. -/
def Steady (x : Run α) : Prop :=
  ∃ (r : Except Error α) (notes : Diagnostics), ∀ ds, x.run ds = (r, ds ++ notes)

theorem Steady.agree {x : Run α} (h : Steady x) (counts : Diagnostic → Bool) : Agree counts x x := by
  obtain ⟨r, notes, hx⟩ := h
  intro ds es he
  simp only [hx, List.filter_append, he, and_self]

/-! ## Successful runs -/

/-- `x` succeeds with `a`. -/
def Returns (x : Run α) (a : α) : Prop := ∃ ds, (x.run ds).1 = .ok a

theorem returns_pure {a b : α} : Returns (pure a) b ↔ a = b :=
  ⟨fun ⟨_, h⟩ => Except.ok.inj h, fun h => ⟨[], h ▸ rfl⟩⟩

theorem not_returns_throw {e : Error} {a : α} : ¬Returns (throw e) a := fun ⟨_, h⟩ => nomatch h

theorem Returns.of_bind {x : Run α} {f : α → Run β} {b : β} (h : Returns (x >>= f) b) :
    ∃ a, Returns x a ∧ Returns (f a) b := by
  obtain ⟨ds, h⟩ := h
  rw [run_bind] at h
  rcases hx : x.run ds with ⟨_ | a, es⟩ <;> rw [hx] at h
  · cases h
  · exact ⟨a, ⟨ds, by rw [hx]⟩, es, h⟩

theorem Returns.of_map {x : Run α} {f : α → β} {b : β} (h : Returns (f <$> x) b) :
    ∃ a, Returns x a ∧ f a = b := by
  obtain ⟨a, ha, hb⟩ := Returns.of_bind h
  exact ⟨a, ha, returns_pure.1 hb⟩

/-! ## One run after the other -/

/-- Where `y` succeeds so does `x`, with a related value, whatever was recorded before each. -/
def Follows (R : α → β → Prop) (x : Run α) (y : Run β) : Prop :=
  ∀ (ds es : Diagnostics) (b : β), (y.run es).1 = .ok b → ∃ a, (x.run ds).1 = .ok a ∧ R a b

namespace Follows

variable {γ δ : Type} {R : α → β → Prop} {S : γ → δ → Prop}

theorem pure {a : α} {b : β} (h : R a b) : Follows R (pure a) (pure b) := by
  intro ds es b' hb
  cases hb
  exact ⟨a, rfl, h⟩

theorem throw (x : Run α) (e : Error) : Follows R x (throw e) := fun _ _ _ h => nomatch h

theorem bind {x : Run α} {y : Run β} {f : α → Run γ} {g : β → Run δ} (h : Follows R x y)
    (hf : ∀ a b, R a b → Follows S (f a) (g b)) : Follows S (x >>= f) (y >>= g) := by
  intro ds es d hd
  rw [run_bind] at hd
  rcases hy : y.run es with ⟨_ | b, es'⟩ <;> rw [hy] at hd
  · cases hd
  · obtain ⟨a, ha, hR⟩ := h ds es b (by rw [hy])
    rcases hx : x.run ds with ⟨_ | a', ds'⟩ <;> rw [hx] at ha <;> cases ha
    obtain ⟨c, hc, hS⟩ := hf a b hR ds' es' d hd
    exact ⟨c, by rw [run_bind, hx]; exact hc, hS⟩

theorem map {x : Run α} {y : Run β} {f : α → γ} {g : β → δ} (h : Follows R x y)
    (hf : ∀ a b, R a b → S (f a) (g b)) : Follows S (f <$> x) (g <$> y) :=
  h.bind fun a b hR => .pure (hf a b hR)

end Follows

/-- To follow a run is to succeed, with a related value, whenever it returns one. -/
theorem follows_iff {R : α → β → Prop} {x : Run α} {y : Run β} :
    Follows R x y ↔ ∀ b, Returns y b → Follows R x (pure b) := by
  constructor
  · intro h b hb ds es b' he
    obtain ⟨es', hb⟩ := hb
    cases he
    exact h ds es' b hb
  · intro h ds es b hb
    exact h b ⟨es, hb⟩ ds es b rfl

theorem Steady.follows {x : Run α} (h : Steady x) : Follows Eq x x := by
  obtain ⟨r, notes, hx⟩ := h
  intro ds es b hb
  rw [hx] at hb
  exact ⟨b, by rw [hx]; exact hb, rfl⟩

/-! ## Steady runs -/

namespace Steady

variable {x : Run α} {f : α → Run β}

theorem pure (a : α) : Steady (pure a) := ⟨.ok a, [], fun ds => by rw [run_pure, List.append_nil]⟩

theorem throw (e : Error) : Steady (α := α) (throw e) :=
  ⟨.error e, [], fun ds => by rw [List.append_nil]; rfl⟩

theorem note (kind : DiagnosticKind) (message : String) : Steady (Projector.note kind message) :=
  ⟨.ok (), [⟨kind, message⟩], fun ds => run_note kind message ds⟩

theorem bind (h : Steady x) (hf : ∀ a, Steady (f a)) : Steady (x >>= f) := by
  obtain ⟨r, notes, hx⟩ := h
  cases r with
  | error e => exact ⟨.error e, notes, fun ds => by rw [run_bind, hx]⟩
  | ok a =>
    obtain ⟨r, notes', hfa⟩ := hf a
    exact ⟨r, notes ++ notes', fun ds => by rw [run_bind, hx]; simp only [hfa, List.append_assoc]⟩

theorem map (g : α → β) (h : Steady x) : Steady (g <$> x) := h.bind fun a => .pure (g a)

/-- What was recorded before is kept, and changes nothing else. -/
theorem run_eq (h : Steady x) (ds : Diagnostics) :
    x.run ds = ((x.run []).1, ds ++ (x.run []).2) := by
  obtain ⟨r, notes, hx⟩ := h
  simp only [hx, List.nil_append]

theorem returns_iff {a : α} (h : Steady x) (ds : Diagnostics) :
    Returns x a ↔ (x.run ds).1 = .ok a := by
  refine ⟨fun ⟨es, hes⟩ => ?_, fun hds => ⟨ds, hds⟩⟩
  rw [h.run_eq] at hes ⊢
  exact hes

end Steady

theorem returns_bind_iff {x : Run α} {f : α → Run β} {b : β} (hf : ∀ a, Steady (f a)) :
    Returns (x >>= f) b ↔ ∃ a, Returns x a ∧ Returns (f a) b := by
  refine ⟨Returns.of_bind, ?_⟩
  rintro ⟨a, ⟨ds, ha⟩, hb⟩
  refine ⟨ds, ?_⟩
  rw [run_bind]
  rcases hx : x.run ds with ⟨r, es⟩
  rw [hx] at ha
  cases ha
  exact ((hf a).returns_iff es).1 hb

theorem returns_map_iff {x : Run α} {f : α → β} {b : β} :
    Returns (f <$> x) b ↔ ∃ a, Returns x a ∧ f a = b := by
  refine ⟨Returns.of_map, ?_⟩
  rintro ⟨a, ⟨ds, ha⟩, rfl⟩
  refine ⟨ds, ?_⟩
  rw [run_map, ha]
  rfl

/-! ## Runs that both succeed -/

/-- Where both runs succeed, their values are related. -/
def Concur (R : α → β → Prop) (x : Run α) (y : Run β) : Prop :=
  ∀ a b, Returns x a → Returns y b → R a b

namespace Concur

variable {γ δ : Type} {R : α → β → Prop} {S : γ → δ → Prop}

theorem pure {a : α} {b : β} (h : R a b) : Concur R (pure a) (pure b) := by
  intro a' b' ha hb
  obtain rfl := returns_pure.1 ha
  obtain rfl := returns_pure.1 hb
  exact h

theorem bind {x : Run α} {y : Run β} {f : α → Run γ} {g : β → Run δ} (h : Concur R x y)
    (hf : ∀ a b, R a b → Concur S (f a) (g b)) : Concur S (x >>= f) (y >>= g) := by
  intro c d hc hd
  obtain ⟨a, ha, hc⟩ := Returns.of_bind hc
  obtain ⟨b, hb, hd⟩ := Returns.of_bind hd
  exact hf a b (h a b ha hb) c d hc hd

theorem map {x : Run α} {y : Run β} {f : α → γ} {g : β → δ} (h : Concur R x y)
    (hf : ∀ a b, R a b → S (f a) (g b)) : Concur S (f <$> x) (g <$> y) :=
  h.bind fun a b hR => .pure (hf a b hR)

end Concur

/-- A steady run returns one value. -/
theorem Steady.concur {x : Run α} (h : Steady x) : Concur Eq x x := by
  intro a b ha hb
  rw [h.returns_iff []] at ha hb
  exact Except.ok.inj (ha.symm.trans hb)

/-! ## Diagnostics left out -/

/-- `x` and `y` have one outcome, and `y` adds those of the diagnostics that `x` adds that count,
whatever was recorded before each. -/
def Sifted (counts : Diagnostic → Bool) (x y : Run α) : Prop :=
  ∃ (r : Except Error α) (notes : Diagnostics),
    ∀ ds, x.run ds = (r, ds ++ notes) ∧ y.run ds = (r, ds ++ notes.filter counts)

namespace Sifted

variable {counts : Diagnostic → Bool} {x y : Run α} {f g : α → Run β}

/-- A steady run is sifted to itself if all that it adds counts. -/
theorem of_steady {r : Except Error α} {notes : Diagnostics} (hx : ∀ ds, x.run ds = (r, ds ++ notes))
    (h : ∀ d ∈ notes, counts d = true) : Sifted counts x x := by
  refine ⟨r, notes, fun ds => ⟨hx ds, ?_⟩⟩
  rw [List.filter_eq_self.2 h]
  exact hx ds

theorem pure (a : α) : Sifted counts (pure a) (pure a) := by
  refine ⟨.ok a, [], fun ds => ?_⟩
  rw [List.filter_nil, List.append_nil, run_pure]
  exact ⟨rfl, rfl⟩

theorem throw (e : Error) : Sifted (α := α) counts (throw e) (throw e) := by
  refine ⟨.error e, [], fun ds => ?_⟩
  rw [List.filter_nil, List.append_nil]
  exact ⟨rfl, rfl⟩

theorem bind (h : Sifted counts x y) (hf : ∀ a, Sifted counts (f a) (g a)) :
    Sifted counts (x >>= f) (y >>= g) := by
  obtain ⟨r, notes, hxy⟩ := h
  cases r with
  | error e =>
    refine ⟨.error e, notes, fun ds => ?_⟩
    obtain ⟨hx, hy⟩ := hxy ds
    rw [run_bind, run_bind, hx, hy]
    exact ⟨rfl, rfl⟩
  | ok a =>
    obtain ⟨r, notes', hfg⟩ := hf a
    refine ⟨r, notes ++ notes', fun ds => ?_⟩
    obtain ⟨hx, hy⟩ := hxy ds
    obtain ⟨hfa, -⟩ := hfg (ds ++ notes)
    obtain ⟨-, hga⟩ := hfg (ds ++ notes.filter counts)
    rw [run_bind, run_bind, hx, hy, List.filter_append, ← List.append_assoc, ← List.append_assoc]
    exact ⟨hfa, hga⟩

end Sifted

/-! ## Congruences -/

/-- The relation passes from the parts of runs to the whole. -/
structure Congruence (R : ∀ {α : Type}, Run α → Run α → Prop) : Prop where
  pure : ∀ {α : Type} (a : α), R (pure a) (pure a)
  throw : ∀ {α : Type} (e : Error), R (α := α) (throw e) (throw e)
  bind : ∀ {α β : Type} {x y : Run α} {f g : α → Run β},
    R x y → (∀ a, R (f a) (g a)) → R (x >>= f) (y >>= g)

theorem Congruence.map {R : ∀ {α : Type}, Run α → Run α → Prop} (hR : Congruence R) {x y : Run α}
    (f : α → β) (h : R x y) : R (f <$> x) (f <$> y) :=
  hR.bind h fun a => hR.pure (f a)

theorem congruence_eq : Congruence Eq where
  pure _ := rfl
  throw _ := rfl
  bind h hf := by rw [h, funext hf]

theorem congruence_agree (counts : Diagnostic → Bool) : Congruence (Agree counts) where
  pure := .pure
  throw := .throw
  bind h hf := h.bind hf

theorem congruence_sifted (counts : Diagnostic → Bool) : Congruence (Sifted counts) where
  pure := .pure
  throw := .throw
  bind h hf := h.bind hf

theorem congruence_steady : Congruence fun x _ => Steady x where
  pure := .pure
  throw := .throw
  bind h hf := h.bind hf

end Facet.Run
