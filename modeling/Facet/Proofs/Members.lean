import Facet.Members
import Mathlib.Data.List.Induction

/-!
# Members and their keys

Where keys are distinct, each is looked up with its one value (`get?_of_mem`), and inserting replaces
the value of one key and no other (`mem_insert`). `mem_ofPairs` says what is left of pairs that are
inserted one after the other, if no key comes with two values; their keys are left once each, in the
order in which they come first (`keys_ofPairs`), and pairs of distinct keys are left as they are
(`ofPairs_eq_self`). `put_iff` says where inserting puts a value, and that it leaves all else as it
is.
-/

set_option autoImplicit false

namespace Facet.Members

variable {α β : Type}

/-- A key is looked up among mapped values as it is among the values. -/
theorem get?_map (f : α → β) (key : String) (ms : Members α) :
    get? key (ms.map fun m => (m.1, f m.2)) = (get? key ms).map f := by
  induction ms with
  | nil => rfl
  | cons m ms ih =>
    unfold get? at ih ⊢
    rw [List.map_cons, List.lookup_cons, List.lookup_cons]
    split
    · rfl
    · exact ih

theorem keys_map (f : α → β) (ms : Members α) : keys (ms.map fun m => (m.1, f m.2)) = keys ms := by
  rw [keys, keys, List.map_map]
  rfl

/-- A value that is looked up is among the members. -/
theorem mem_of_get? {key : String} {value : α} {ms : Members α} (h : get? key ms = some value) :
    (key, value) ∈ ms := by
  obtain ⟨before, after, rfl, -⟩ := List.lookup_eq_some_iff.1 h
  exact List.mem_append_cons_self

/-- Where keys are distinct, every value is looked up under its key. -/
theorem get?_of_mem {key : String} {value : α} {ms : Members α} (h : (keys ms).Nodup)
    (hm : (key, value) ∈ ms) : get? key ms = some value := by
  obtain ⟨before, after, rfl⟩ := List.append_of_mem hm
  rw [keys, List.map_append, List.nodup_append] at h
  refine List.lookup_eq_some_iff.2 ⟨before, after, rfl, fun m hm => ?_⟩
  exact bne_iff_ne.2 (h.2.2 m.1 (List.mem_map_of_mem hm) key (.head _)).symm

/-- Where keys are distinct, inserting puts one pair in the place of all pairs of its key. -/
theorem mem_insert {key k : String} {value v : α} {ms : Members α} (h : (keys ms).Nodup) :
    (k, v) ∈ insert key value ms ↔ (k = key ∧ v = value) ∨ (k ≠ key ∧ (k, v) ∈ ms) := by
  induction ms with
  | nil => simp [insert]
  | cons m ms ih =>
    obtain ⟨k₀, v₀⟩ := m
    obtain ⟨hk₀, hms⟩ := List.nodup_cons.1 (show (k₀ :: keys ms).Nodup from h)
    by_cases hk : k₀ = key
    · -- the other pairs have other keys
      subst hk
      have hne : (k, v) ∈ ms → k ≠ k₀ := fun hm he => hk₀ (he ▸ List.mem_map_of_mem hm)
      rw [insert, if_pos rfl]
      simp only [List.mem_cons, Prod.mk.injEq]
      refine ⟨fun hm => ?_, fun hm => ?_⟩
      · rcases hm with hv | hm
        · exact .inl hv
        · exact .inr ⟨hne hm, .inr hm⟩
      · rcases hm with hv | ⟨hk, hv | hm⟩
        · exact .inl hv
        · exact absurd hv.1 hk
        · exact .inr hm
    · rw [insert, if_neg hk]
      simp only [List.mem_cons, Prod.mk.injEq, ih hms]
      refine ⟨fun hm => ?_, fun hm => ?_⟩
      · rcases hm with ⟨rfl, rfl⟩ | hv | ⟨hn, hm⟩
        · exact .inr ⟨hk, .inl ⟨rfl, rfl⟩⟩
        · exact .inl hv
        · exact .inr ⟨hn, .inr hm⟩
      · rcases hm with hv | ⟨hn, hv | hm⟩
        · exact .inr (.inl hv)
        · exact .inl hv
        · exact .inr (.inr ⟨hn, hm⟩)

/-- Pairs inserted one after the other are all there, and so is what was there before them under
other keys, if the key in question comes with one value. -/
theorem mem_foldl_insert {k : String} {v : α} {ps : List (String × α)} {ms : Members α}
    (h : (keys ms).Nodup) (hps : ∀ w, (k, w) ∈ ps → ∀ w', (k, w') ∈ ps → w = w') :
    (k, v) ∈ ps.foldl (fun ms p => insert p.1 p.2 ms) ms ↔
      (k, v) ∈ ps ∨ ((∀ w, (k, w) ∉ ps) ∧ (k, v) ∈ ms) := by
  induction ps generalizing ms with
  | nil => simp
  | cons p ps ih =>
    obtain ⟨k₀, v₀⟩ := p
    rw [List.foldl_cons, ih (nodup_keys_insert k₀ v₀ h)
      (fun w hw w' hw' => hps w (.tail _ hw) w' (.tail _ hw')), mem_insert h]
    refine ⟨fun hm => ?_, fun hm => ?_⟩
    · rcases hm with hm | ⟨hn, ⟨rfl, rfl⟩ | ⟨hk, hm⟩⟩
      · exact .inl (.tail _ hm)
      · exact .inl (.head _)
      · refine .inr ⟨fun w hw => ?_, hm⟩
        rcases List.mem_cons.1 hw with he | hw
        · exact hk (Prod.mk.inj he).1
        · exact hn w hw
    · rcases hm with hm | ⟨hn, hm⟩
      · rcases List.mem_cons.1 hm with he | hm
        · obtain ⟨rfl, rfl⟩ := Prod.mk.inj he
          by_cases hw : ∃ w, (k, w) ∈ ps
          · obtain ⟨w, hw⟩ := hw
            exact .inl (hps v (.head _) w (.tail _ hw) ▸ hw)
          · exact .inr ⟨fun w hw' => hw ⟨w, hw'⟩, .inl ⟨rfl, rfl⟩⟩
        · exact .inl hm
      · refine .inr ⟨fun w hw => hn w (.tail _ hw), .inr ⟨?_, hm⟩⟩
        intro he
        subst he
        exact hn v₀ (.head _)

theorem mem_ofPairs {k : String} {v : α} {ps : List (String × α)}
    (hps : ∀ w, (k, w) ∈ ps → ∀ w', (k, w') ∈ ps → w = w') :
    (k, v) ∈ ofPairs ps ↔ (k, v) ∈ ps := by
  rw [ofPairs, mem_foldl_insert nodup_keys_nil hps]
  simp

theorem ofPairs_append_singleton (ps : List (String × α)) (p : String × α) :
    ofPairs (ps ++ [p]) = insert p.1 p.2 (ofPairs ps) := by
  rw [ofPairs, List.foldl_append]
  rfl

/-- Each key is there once, in the place where it came first. -/
theorem keys_ofPairs (ps : List (String × α)) : keys (ofPairs ps) = (keys ps).eraseDups := by
  induction ps using List.reverseRecOn with
  | nil => rfl
  | append_singleton ps p ih =>
    have hkeys : keys (ps ++ [p]) = keys ps ++ [p.1] := List.map_append
    have hmem : p.1 ∈ keys (ofPairs ps) ↔ p.1 ∈ keys ps := by rw [ih, List.mem_eraseDups]
    rw [ofPairs_append_singleton, hkeys, List.eraseDups_append, ← ih]
    by_cases hp : p.1 ∈ keys ps
    · have hnone : [p.1].removeAll (keys ps) = [] := by simp [List.removeAll, hp]
      rw [keys_insert_of_mem p.2 (hmem.2 hp), hnone, List.eraseDups_nil, List.append_nil]
    · have hone : [p.1].removeAll (keys ps) = [p.1] := by simp [List.removeAll, hp]
      rw [insert_of_not_mem p.2 (mt hmem.1 hp), hone]
      exact List.map_append

/-- Pairs of keys that are new and distinct come after what is there. -/
theorem foldl_insert_eq_append {ps : List (String × α)} {ms : Members α}
    (h : (keys (ms ++ ps)).Nodup) :
    ps.foldl (fun ms p => insert p.1 p.2 ms) ms = ms ++ ps := by
  induction ps generalizing ms with
  | nil => simp
  | cons p ps ih =>
    have hp : p.1 ∉ keys ms := by
      intro hm
      rw [keys, List.map_append, List.nodup_append] at h
      exact h.2.2 _ hm _ (.head _) rfl
    have happ : ms ++ p :: ps = ms ++ [p] ++ ps := by simp
    rw [List.foldl_cons, insert_of_not_mem p.2 hp, happ]
    exact ih (by rwa [← happ])

/-- Pairs of distinct keys are left as they are. -/
theorem ofPairs_eq_self {ps : List (String × α)} (h : (keys ps).Nodup) : ofPairs ps = ps :=
  foldl_insert_eq_append (by simpa using h)

/-! ## The place of a value -/

/-- The second members are the first with the value put under the key: it replaces the first value
there, or it comes last if there is none. All other members are as they were. -/
inductive Put (key : String) (value : α) : Members α → Members α → Prop
  | replaced (before after : Members α) (old : α) (h : key ∉ keys before) :
      Put key value (before ++ (key, old) :: after) (before ++ (key, value) :: after)
  | added (ms : Members α) (h : key ∉ keys ms) : Put key value ms (ms ++ [(key, value)])

theorem Put.cons {key k : String} {value : α} (v : α) {ms ms' : Members α} (hk : k ≠ key)
    (h : Put key value ms ms') : Put key value ((k, v) :: ms) ((k, v) :: ms') := by
  have hnot : ∀ {before : Members α}, key ∉ keys before → key ∉ keys ((k, v) :: before) := by
    intro before hb
    rw [keys_cons, List.mem_cons, not_or]
    exact ⟨hk.symm, hb⟩
  cases h with
  | replaced before after old hb => exact .replaced ((k, v) :: before) after old (hnot hb)
  | added _ hb => exact .added ((k, v) :: ms) (hnot hb)

theorem put_insert (key : String) (value : α) (ms : Members α) :
    Put key value ms (insert key value ms) := by
  induction ms with
  | nil => exact .added [] List.not_mem_nil
  | cons m ms ih =>
    obtain ⟨k, v⟩ := m
    by_cases hk : k = key
    · subst hk
      rw [insert, if_pos rfl]
      exact .replaced [] ms v List.not_mem_nil
    · rw [insert, if_neg hk]
      exact ih.cons v hk

theorem insert_append_cons {key : String} (value old : α) {before : Members α}
    (after : Members α) (h : key ∉ keys before) :
    insert key value (before ++ (key, old) :: after) = before ++ (key, value) :: after := by
  induction before with
  | nil => rw [List.nil_append, insert, if_pos rfl, List.nil_append]
  | cons m before ih =>
    obtain ⟨k, v⟩ := m
    rw [keys_cons, List.mem_cons, not_or] at h
    rw [List.cons_append, insert, if_neg (Ne.symm h.1), ih h.2, List.cons_append]

theorem put_iff {key : String} {value : α} {ms ms' : Members α} :
    Put key value ms ms' ↔ insert key value ms = ms' := by
  constructor
  · intro h
    cases h with
    | replaced before after old hb => exact insert_append_cons value old after hb
    | added _ hb => exact insert_of_not_mem value hb
  · rintro rfl
    exact put_insert key value ms

end Facet.Members
