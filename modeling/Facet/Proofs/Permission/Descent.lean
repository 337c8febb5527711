import Facet.Proofs.Scope

/-!
# Descending an allow-list

A path of fields leads down an allow-list by scopes, one for each field. Within an allow-list every
scope on the way is restricted (`exists_underAll_eq`), and it permits what a chain of entries says
(`Opens`): each field of the path names a scoped entry, the first of its name among the children of
the entry before, and the last children hold an entry of the name (`permits_underAll_iff`). Where the
path comes to a name without an entry, or whose first entry is a leaf, it is at its end: everything
is denied from there on (`underAll_denyAll`).
-/

set_option autoImplicit false

namespace Facet.Scope

variable {entries children last : List Entry} {e : Entry} {name : String}
  {path : List String}

/-! ## First entries -/

/-- The entry is in the list, and none of its name comes before it. -/
def First (e : Entry) (entries : List Entry) : Prop :=
  ∃ before after, entries = before ++ e :: after ∧ ∀ d ∈ before, d.name ≠ e.name

theorem entry?_eq_some_iff : entry? name (.restricted entries) = some e ↔
    First e entries ∧ e.name = name := by
  rw [entry?_restricted, List.find?_eq_some_iff_append]
  constructor
  · rintro ⟨hname, before, after, rfl, hbefore⟩
    obtain rfl : e.name = name := of_decide_eq_true hname
    refine ⟨⟨before, after, rfl, fun d hd => ?_⟩, rfl⟩
    simpa using hbefore d hd
  · rintro ⟨⟨before, after, rfl, hbefore⟩, rfl⟩
    refine ⟨decide_eq_true rfl, before, after, rfl, fun d hd => ?_⟩
    simpa using hbefore d hd

theorem entry?_eq_none_iff :
    entry? name (.restricted entries) = none ↔ ∀ e ∈ entries, e.name ≠ name := by
  rw [entry?_restricted, List.find?_eq_none]
  simp

/-! ## One step down -/

/-- A step leads to the children of a scoped entry, the first of its name. -/
theorem under_of_first (h : First (.scoped name children) entries) :
    (restricted entries).under name = .restricted children :=
  under_of_entry? (entry?_eq_some_iff.2 ⟨h, rfl⟩)

/-- What ends a path: the name has no entry, or its first entry permits nothing under it. -/
def Ends (name : String) (entries : List Entry) : Prop :=
  (∀ e ∈ entries, e.name ≠ name) ∨ First (.leaf name) entries

theorem under_of_ends (h : Ends name entries) : (restricted entries).under name = denyAll := by
  rcases h with h | h
  · have hnone := entry?_eq_none_iff.2 h
    rw [entry?_restricted] at hnone
    rw [under, hnone]
  · have hleaf : entry? name (.restricted entries) = some (.leaf name) :=
      entry?_eq_some_iff.2 ⟨h, rfl⟩
    rw [entry?_restricted] at hleaf
    rw [under, hleaf]

/-- A name leads on or ends the path. -/
theorem first_or_ends (name : String) (entries : List Entry) :
    (∃ children, First (.scoped name children) entries) ∨ Ends name entries := by
  cases h : entry? name (.restricted entries) with
  | none => exact .inr (.inl (entry?_eq_none_iff.1 h))
  | some e =>
    obtain ⟨hfirst, rfl⟩ := entry?_eq_some_iff.1 h
    rcases e with name | ⟨name, children⟩
    · exact .inr (.inr hfirst)
    · exact .inl ⟨children, hfirst⟩

/-! ## Paths -/

/-- The path opens the children of a chain of scoped entries, each the first of its name among the
children of the one before. -/
inductive Opens : List Entry → List String → List Entry → Prop
  | nil (entries : List Entry) : Opens entries [] entries
  | cons {entries children last : List Entry} {name : String} {path : List String} :
      First (.scoped name children) entries → Opens children path last →
      Opens entries (name :: path) last

theorem underAll_append (scope : Scope) (path path' : List String) :
    scope.underAll (path ++ path') = (scope.underAll path).underAll path' := List.foldl_append

/-- No path leads out of a scope that is its own under every field. -/
theorem underAll_eq_self {scope : Scope} (h : ∀ name, scope.under name = scope)
    (path : List String) : scope.underAll path = scope := by
  induction path with
  | nil => rfl
  | cons name path ih => rw [underAll_cons, h, ih]

theorem underAll_denyAll (path : List String) : denyAll.underAll path = denyAll :=
  underAll_eq_self (fun _ => rfl) path

theorem underAll_unrestricted (path : List String) : unrestricted.underAll path = unrestricted :=
  underAll_eq_self (fun _ => rfl) path

theorem Opens.underAll_eq (h : Opens entries path last) :
    (restricted entries).underAll path = .restricted last := by
  induction h with
  | nil => rfl
  | cons hfirst _ ih => rw [underAll_cons, under_of_first hfirst, ih]

/-- A path opens the entries that it leads to, or it has come to its end. -/
theorem opens_or_denyAll (entries : List Entry) (path : List String) :
    (∃ last, Opens entries path last) ∨ (restricted entries).underAll path = denyAll := by
  induction path generalizing entries with
  | nil => exact .inl ⟨entries, .nil entries⟩
  | cons name path ih =>
    rcases first_or_ends name entries with ⟨children, hfirst⟩ | hends
    · rcases ih children with ⟨last, hopens⟩ | hdeny
      · exact .inl ⟨last, .cons hfirst hopens⟩
      · refine .inr ?_
        rw [underAll_cons, under_of_first hfirst, hdeny]
    · refine .inr ?_
      rw [underAll_cons, under_of_ends hends, underAll_denyAll]

/-- No path leads out of an allow-list. -/
theorem exists_underAll_eq (entries : List Entry) (path : List String) :
    ∃ last, (restricted entries).underAll path = .restricted last := by
  rcases opens_or_denyAll entries path with ⟨last, hopens⟩ | hdeny
  · exact ⟨last, hopens.underAll_eq⟩
  · exact ⟨[], hdeny⟩

theorem permits_denyAll (name : String) : denyAll.permits name = false := rfl

theorem permits_underAll_iff : ((restricted entries).underAll path).permits name = true ↔
    ∃ last, Opens entries path last ∧ ∃ e ∈ last, e.name = name := by
  constructor
  · intro h
    rcases opens_or_denyAll entries path with ⟨last, hopens⟩ | hdeny
    · rw [hopens.underAll_eq] at h
      exact ⟨last, hopens, permits_restricted_iff.1 h⟩
    · rw [hdeny, permits_denyAll] at h
      cases h
  · rintro ⟨last, hopens, h⟩
    rw [hopens.underAll_eq]
    exact permits_restricted_iff.2 h

/-- Behind its end a path leads to nothing. -/
theorem permits_underAll_of_ends (hpath : (restricted entries).underAll path = .restricted last)
    (h : Ends name last) (rest : List String) (field : String) :
    ((restricted entries).underAll (path ++ name :: rest)).permits field = false := by
  rw [underAll_append, hpath, underAll_cons, under_of_ends h, underAll_denyAll, permits_denyAll]

/-- **No path escapes an allow-list.** A path of fields leads from a restricted scope to restricted
scopes only. It leads to one that permits a field exactly if the fields of the path name a chain of
scoped entries, each the first of its name among the children of the one before, and the field names
any of the last children. Once a field of the path has no entry, or a leaf as its first entry, all
longer paths are denied. And an unrestricted scope permits every path. -/
theorem descend_restricted (entries : List Entry) (path : List String) (name : String) :
    (restricted entries).underAll path ≠ .unrestricted ∧
    (((restricted entries).underAll path).permits name = true ↔
      ∃ last, Opens entries path last ∧ ∃ e ∈ last, e.name = name) ∧
    (∀ last, (restricted entries).underAll path = .restricted last → Ends name last →
      ∀ rest field, ((restricted entries).underAll (path ++ name :: rest)).permits field = false) ∧
    (unrestricted.underAll path).permits name = true := by
  refine ⟨?_, permits_underAll_iff, fun last hpath hends rest field => ?_, ?_⟩
  · obtain ⟨last, hlast⟩ := exists_underAll_eq entries path
    rw [hlast]
    exact nofun
  · exact permits_underAll_of_ends hpath hends rest field
  · rw [underAll_unrestricted]
    rfl

/-- Behind a leaf the scoped entry of its name is no way on. Where the scoped entry comes first, its
children are all that counts. -/
theorem descend_restricted_repeated :
    let entries : List Entry :=
      [.leaf "author", .scoped "author" [.leaf "email"],
        .scoped "post" [.scoped "author" [.leaf "name"], .leaf "author"]]
    (restricted entries).underAll ["author"] ≠ .unrestricted ∧
    ((restricted entries).underAll ["post", "author"]).permits "name" = true ∧
    ((restricted entries).underAll ["author"]).permits "email" = false ∧
    (unrestricted.underAll ["post"]).permits "email" = true := by
  intro entries
  have hleaf : First (.leaf "author") entries := ⟨[], _, rfl, nofun⟩
  have hpost : First (.scoped "post" [.scoped "author" [.leaf "name"], .leaf "author"]) entries :=
    ⟨entries.take 2, [], rfl, by decide⟩
  have hauthor : First (.scoped "author" [.leaf "name"])
      [.scoped "author" [.leaf "name"], .leaf "author"] := ⟨[], _, rfl, nofun⟩
  refine ⟨(descend_restricted entries ["author"] "email").1, ?_, ?_,
    (descend_restricted entries ["post"] "email").2.2.2⟩
  · exact (descend_restricted entries ["post", "author"] "name").2.1.2
      ⟨_, .cons hpost (.cons hauthor (.nil _)), .leaf "name", List.mem_singleton_self _, rfl⟩
  · exact (descend_restricted entries [] "author").2.2.1 entries rfl (.inr hleaf) [] "email"

end Facet.Scope
