/-!
# Members in order of arrival

The members of an object are pairs of a key and a value in the order in which the keys first
arrived. Inserting under a key that is present replaces the value and moves nothing
(`keys_insert_of_mem`); a new key comes last (`insert_of_not_mem`). So the keys stay distinct
(`nodup_keys_insert`).
-/

set_option autoImplicit false

namespace Facet

/-- Keyed values in order of arrival; `insert` keeps the keys distinct. -/
abbrev Members (α : Type) := List (String × α)

namespace Members

variable {α : Type}

/-- The value under the key: the first, if there are several. -/
def get? (key : String) (ms : Members α) : Option α := List.lookup key ms

/-- Puts the value under the key: in the place of the old value, or at the end. -/
def insert (key : String) (value : α) : Members α → Members α
  | [] => [(key, value)]
  | (k, v) :: ms => if k = key then (k, value) :: ms else (k, v) :: insert key value ms

/-- Inserts pairs one after the other: a key keeps the place of its first pair and has the value of
its last. -/
def ofPairs (ps : List (String × α)) : Members α :=
  ps.foldl (fun ms p => insert p.1 p.2 ms) []

def keys (ms : Members α) : List String := ms.map Prod.fst

/-! ## Inserting and keys -/

@[simp] theorem keys_cons (key : String) (value : α) (ms : Members α) :
    keys ((key, value) :: ms) = key :: keys ms := rfl

theorem nodup_keys_nil : (keys ([] : Members α)).Nodup := List.nodup_nil

theorem keys_insert_of_mem {key : String} (value : α) {ms : Members α} (h : key ∈ keys ms) :
    keys (insert key value ms) = keys ms := by
  induction ms with
  | nil => cases h
  | cons m ms ih =>
    obtain ⟨k, v⟩ := m
    simp only [insert]
    by_cases hk : k = key
    · rw [if_pos hk]; rfl
    · have hm : key ∈ keys ms := by
        rcases List.mem_cons.1 h with he | hm
        · exact absurd he.symm hk
        · exact hm
      rw [if_neg hk]
      exact congrArg (k :: ·) (ih hm)

theorem insert_of_not_mem {key : String} (value : α) {ms : Members α} (h : key ∉ keys ms) :
    insert key value ms = ms ++ [(key, value)] := by
  induction ms with
  | nil => rfl
  | cons m ms ih =>
    obtain ⟨k, v⟩ := m
    have hk : k ≠ key ∧ key ∉ keys ms := by
      simpa [keys, eq_comm] using h
    rw [insert, if_neg hk.1, ih hk.2]
    rfl

theorem nodup_keys_insert (key : String) (value : α) {ms : Members α} (h : (keys ms).Nodup) :
    (keys (insert key value ms)).Nodup := by
  by_cases hk : key ∈ keys ms
  · rw [keys_insert_of_mem value hk]; exact h
  · rw [insert_of_not_mem value hk]
    simpa [keys, List.nodup_append] using ⟨h, fun a b hb he => hk (he ▸ List.mem_map_of_mem hb)⟩

theorem nodup_keys_ofPairs (ps : List (String × α)) : (keys (ofPairs ps)).Nodup :=
  List.foldlRecOn (motive := fun ms => (keys ms).Nodup) ps _ nodup_keys_nil
    fun _ hms p _ => nodup_keys_insert p.1 p.2 hms

theorem mem_of_mem_insert {key k : String} {value v : α} {ms : Members α}
    (h : (k, v) ∈ insert key value ms) : (k, v) = (key, value) ∨ (k, v) ∈ ms := by
  induction ms with
  | nil => exact .inl (List.mem_singleton.1 h)
  | cons m ms ih =>
    obtain ⟨l, w⟩ := m
    rw [insert] at h
    split at h
    · next he =>
      subst he
      rcases List.mem_cons.1 h with h | h
      · exact .inl h
      · exact .inr (.tail _ h)
    · rcases List.mem_cons.1 h with h | h
      · exact .inr (h ▸ .head _)
      · exact (ih h).imp_right (.tail _)

end Members

end Facet
