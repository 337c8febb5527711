import Facet.Json.Reader

/-!
# Documents

An object of a document has a key at most once, at every depth (`Json.DistinctKeys`), and a `Document`
is a value with the proof of that. Whatever is read is a document, however often its text repeats a
key (`Document.ofText?`): the members of an object are inserted one after the other, and inserting
keeps the keys distinct (`Json.DistinctKeys.insert`).
-/

set_option autoImplicit false

namespace Facet

namespace Json

/-- Every object in the value has distinct keys. -/
inductive DistinctKeys : Json → Prop
  | plain (v : Json) (h : v.isPlain = true) : DistinctKeys v
  | array (vs : List Json) (h : ∀ v ∈ vs, DistinctKeys v) : DistinctKeys (.array vs)
  | object (ms : Members Json) (hkeys : ms.keys.Nodup) (h : ∀ k v, (k, v) ∈ ms → DistinctKeys v) :
      DistinctKeys (.object ms)

theorem distinctKeys_array_iff {vs : List Json} :
    DistinctKeys (.array vs) ↔ ∀ v ∈ vs, DistinctKeys v := by
  refine ⟨fun h => ?_, .array vs⟩
  cases h with
  | plain _ h => cases h
  | array _ h => exact h

theorem distinctKeys_object_iff {ms : Members Json} :
    DistinctKeys (.object ms) ↔ ms.keys.Nodup ∧ ∀ k v, (k, v) ∈ ms → DistinctKeys v := by
  refine ⟨fun h => ?_, fun h => .object ms h.1 h.2⟩
  cases h with
  | plain _ h => cases h
  | object _ hkeys h => exact ⟨hkeys, h⟩

/-! ## Keys of what is inserted -/

theorem DistinctKeys.insert {key : String} {value : Json} {ms : Members Json}
    (hms : DistinctKeys (.object ms)) (hvalue : value.DistinctKeys) :
    DistinctKeys (.object (Members.insert key value ms)) := by
  rw [distinctKeys_object_iff] at hms
  refine .object _ (Members.nodup_keys_insert key value hms.1) fun k v hm => ?_
  rcases Members.mem_of_mem_insert hm with he | hm
  · cases he
    exact hvalue
  · exact hms.2 k v hm

theorem distinctKeys_ofPairs {ps : List (String × Json)}
    (h : ∀ k v, (k, v) ∈ ps → v.DistinctKeys) : DistinctKeys (.object (Members.ofPairs ps)) := by
  have hnil : DistinctKeys (.object []) :=
    .object [] Members.nodup_keys_nil fun _ _ hm => (List.not_mem_nil hm).elim
  exact List.foldlRecOn (motive := fun ms => DistinctKeys (.object ms)) ps _ hnil
    fun ms hms p hp => hms.insert (h p.1 p.2 hp)

/-! ## Keys of what is read -/

namespace Written

mutual

theorem distinctKeys_of_value? {depth : Nat} {w : Written} {v : Json}
    (h : value? depth w = some v) : v.DistinctKeys := by
  cases w with
  | null | bool b =>
    rw [value?] at h
    cases h
    exact .plain _ rfl
  | number n | string s =>
    rw [value?] at h
    obtain ⟨a, -, rfl⟩ := Option.map_eq_some_iff.1 h
    exact .plain _ rfl
  | array items =>
    cases depth with
    | zero => rw [value?] at h; cases h
    | succ depth =>
      rw [value?] at h
      obtain ⟨vs, hvs, rfl⟩ := Option.map_eq_some_iff.1 h
      exact .array vs (distinctKeys_of_values? hvs)
  | object members =>
    cases depth with
    | zero => rw [value?] at h; cases h
    | succ depth =>
      rw [value?] at h
      obtain ⟨ps, hps, rfl⟩ := Option.map_eq_some_iff.1 h
      exact distinctKeys_ofPairs (distinctKeys_of_pairs? hps)

theorem distinctKeys_of_values? {depth : Nat} {ws : List Written} {vs : List Json}
    (h : values? depth ws = some vs) : ∀ v ∈ vs, v.DistinctKeys := by
  cases ws with
  | nil =>
    rw [values?] at h
    cases h
    exact fun v hv => (List.not_mem_nil hv).elim
  | cons w ws =>
    simp only [values?, Option.bind_eq_bind, Option.bind_eq_some_iff, Option.some.injEq] at h
    obtain ⟨u, hu, us, hus, rfl⟩ := h
    exact List.forall_mem_cons.2 ⟨distinctKeys_of_value? hu, distinctKeys_of_values? hus⟩

theorem distinctKeys_of_pairs? {depth : Nat} {ws : List (List Glyph × Written)}
    {ps : List (String × Json)} (h : pairs? depth ws = some ps) :
    ∀ k v, (k, v) ∈ ps → v.DistinctKeys := by
  cases ws with
  | nil =>
    rw [pairs?] at h
    cases h
    exact fun k v hm => (List.not_mem_nil hm).elim
  | cons m ws =>
    obtain ⟨s, w⟩ := m
    simp only [pairs?, Option.bind_eq_bind, Option.bind_eq_some_iff, Option.some.injEq] at h
    obtain ⟨key, -, u, hu, us, hus, rfl⟩ := h
    intro k v hm
    rcases List.mem_cons.1 hm with he | hm
    · cases he
      exact distinctKeys_of_value? hu
    · exact distinctKeys_of_pairs? hus k v hm

end

end Written

theorem distinctKeys_of_ofText? {text : String} {v : Json} (h : ofText? text = some v) :
    v.DistinctKeys := by
  obtain ⟨w, -, hv⟩ := Option.bind_eq_some_iff.1 h
  exact Written.distinctKeys_of_value? hv

end Json

/-- A value in which every object has distinct keys. -/
structure Document where
  value : Json
  distinctKeys : value.DistinctKeys

/-- The document that the text writes down. -/
def Document.ofText? (text : String) : Option Document :=
  (Json.ofText? text).pmap Document.mk fun _ => Json.distinctKeys_of_ofText?

end Facet
