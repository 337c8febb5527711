import Facet.Permission.Scope
import Mathlib.Data.List.Nodup

/-!
# Scopes

`Scope.permitsChain` follows a chain of fields down an allow-list: each field must be permitted in
the scope under those before it. `Scope.AtMost` compares two scopes by the chains that they permit.
Within one scope it is the first entry of a name that counts; where names are distinct that is every
entry (`entry?_of_mem`).
-/

set_option autoImplicit false

namespace Facet.Scope

/-! ## Chains of fields -/

/-- Is each field of the chain permitted in the scope under those before it? -/
def permitsChain (scope : Scope) : List String → Bool
  | [] => true
  | k :: ks => scope.permits k && (scope.under k).permitsChain ks

theorem permitsChain_cons {scope : Scope} {k : String} {ks : List String} :
    scope.permitsChain (k :: ks) = true ↔
      scope.permits k = true ∧ (scope.under k).permitsChain ks = true := by
  rw [permitsChain, Bool.and_eq_true]

theorem underAll_cons (scope : Scope) (k : String) (ks : List String) :
    scope.underAll (k :: ks) = (scope.under k).underAll ks := rfl

/-- A chain within a chain: what follows is permitted in the scope that the first part leads to. -/
theorem permitsChain_append {scope : Scope} {ks js : List String} :
    scope.permitsChain (ks ++ js) = true ↔
      scope.permitsChain ks = true ∧ (scope.underAll ks).permitsChain js = true := by
  induction ks generalizing scope with
  | nil => exact ⟨fun h => ⟨rfl, h⟩, fun h => h.2⟩
  | cons k ks ih =>
    rw [List.cons_append, permitsChain_cons, permitsChain_cons, ih, underAll_cons, and_assoc]

/-! ## Entries -/

section
variable {entries children : List Entry} {e : Entry} {field : String}

theorem entry?_restricted (entries : List Entry) (field : String) :
    entry? field (.restricted entries) = entries.find? fun e => e.name = field := rfl

theorem entry?_restricted_eq_some (h : entry? field (.restricted entries) = some e) :
    e ∈ entries ∧ e.name = field := by
  rw [entry?_restricted] at h
  exact ⟨List.mem_of_find?_eq_some h, by simpa using List.find?_some h⟩

/-- Where names are distinct, every entry is the first of its name. -/
theorem entry?_of_mem (hnames : (entries.map Entry.name).Nodup) (he : e ∈ entries) :
    entry? e.name (.restricted entries) = some e := by
  cases h : entry? e.name (.restricted entries) with
  | none =>
    have hne := List.find?_eq_none.1 h e he
    simp at hne
  | some f =>
    obtain ⟨hf, hname⟩ := entry?_restricted_eq_some h
    rw [List.inj_on_of_nodup_map hnames hf he hname]

theorem permits_restricted_iff :
    (restricted entries).permits field = true ↔ ∃ e ∈ entries, e.name = field := by
  simp [permits, isUnrestricted, entry?_restricted]

theorem under_of_entry? (h : entry? field (.restricted entries) = some (.scoped field children)) :
    (restricted entries).under field = .restricted children := by
  rw [entry?_restricted] at h
  rw [under, h]

end

/-! ## Scopes compared -/

/-- What the first scope permits step by step, the second permits too. -/
def AtMost (narrow wide : Scope) : Prop :=
  ∀ ks, narrow.permitsChain ks = true → wide.permitsChain ks = true

theorem permitsChain_unrestricted (ks : List String) : unrestricted.permitsChain ks = true := by
  induction ks with
  | nil => rfl
  | cons k ks ih => exact permitsChain_cons.2 ⟨rfl, ih⟩

theorem atMost_unrestricted (scope : Scope) : scope.AtMost .unrestricted :=
  fun ks _ => permitsChain_unrestricted ks

variable {narrow wide : Scope} {k : String}

theorem AtMost.permits (h : narrow.AtMost wide) (hk : narrow.permits k = true) :
    wide.permits k = true :=
  (permitsChain_cons.1 (h [k] (permitsChain_cons.2 ⟨hk, rfl⟩))).1

/-- The comparison passes to the scopes under a field, if there is anything to compare there. -/
theorem AtMost.under (h : narrow.AtMost wide) (hk : narrow.permits k = true) :
    (narrow.under k).AtMost (wide.under k) :=
  fun ks hks => (permitsChain_cons.1 (h (k :: ks) (permitsChain_cons.2 ⟨hk, hks⟩))).2

end Facet.Scope
