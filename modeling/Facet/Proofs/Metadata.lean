import Facet.Metadata
import Facet.Permission.Config
import Facet.Proofs.Scope

/-!
# Metadata of an allow-list

Within an allow-list, metadata lists the names of its entries by their kind (`Metadata.Lists`), while
a scope looks only at the first entry of a name. So a name is listed exactly if it is permitted, and
listed at least as what its first entry makes of it; but the two say the same (`Metadata.Agrees`)
exactly if no two entries have one name (`describe_restricted`). Of two entries of one name the
second is listed as well, although it does not count (`not_always_agrees`).
-/

set_option autoImplicit false

namespace Facet.Metadata

/-! ## Names that are listed -/

/-- The names that are listed as fields. -/
def fieldNames (m : Metadata) : List String := m.fields.getD []

/-- The names that are listed as associations. -/
def associationNames (m : Metadata) : List String := m.associations.getD []

theorem getD_category (names : List String) : (category names).getD [] = names := by
  unfold category
  split
  · next h => exact (List.isEmpty_iff.1 h).symm
  · rfl

/-- The metadata lists the names of the entries: those that permit nothing under their field as
fields, the others as associations, and each of them once. -/
structure Lists (m : Metadata) (entries : List Entry) : Prop where
  fields : ∀ name, name ∈ m.fieldNames ↔ .leaf name ∈ entries
  associations : ∀ name, name ∈ m.associationNames ↔ ∃ children, .scoped name children ∈ entries
  names : (m.fieldNames ++ m.associationNames).Perm (entries.map Entry.name)

theorem lists_describe (target : Graph) (entries : List Entry) :
    (describe target (.restricted entries)).Lists entries := by
  have hfields : (describe target (.restricted entries)).fieldNames =
      (entries.filter Entry.isLeaf).map Entry.name := getD_category _
  have hassociations : (describe target (.restricted entries)).associationNames =
      (entries.filter fun e => !e.isLeaf).map Entry.name := getD_category _
  refine ⟨fun name => ?_, fun name => ?_, ?_⟩
  · rw [hfields, List.mem_map]
    constructor
    · rintro ⟨e, he, rfl⟩
      obtain ⟨he, hleaf⟩ := List.mem_filter.1 he
      rcases e with name | ⟨name, children⟩
      · exact he
      · cases hleaf
    · intro h
      exact ⟨_, List.mem_filter.2 ⟨h, rfl⟩, rfl⟩
  · rw [hassociations, List.mem_map]
    constructor
    · rintro ⟨e, he, rfl⟩
      obtain ⟨he, hscoped⟩ := List.mem_filter.1 he
      rcases e with name | ⟨name, children⟩
      · cases hscoped
      · exact ⟨children, he⟩
    · rintro ⟨children, h⟩
      exact ⟨_, List.mem_filter.2 ⟨h, rfl⟩, rfl⟩
  · rw [hfields, hassociations, ← List.map_append]
    exact (List.filter_append_perm Entry.isLeaf entries).map Entry.name

/-! ## Names that count -/

/-- The metadata says of each name what the scope makes of it: it is an association if its first
entry says what is permitted under it, a field if its first entry permits nothing under it, and it is
listed once if it is permitted and not at all if it is not. -/
structure Agrees (m : Metadata) (scope : Scope) : Prop where
  associations : ∀ name, name ∈ m.associationNames ↔ ∃ children,
    scope.entry? name = some (.scoped name children) ∧ scope.under name = .restricted children
  fields : ∀ name, name ∈ m.fieldNames ↔ scope.entry? name = some (.leaf name)
  once : (m.fieldNames ++ m.associationNames).Nodup
  permitted : ∀ name, name ∈ m.fieldNames ∨ name ∈ m.associationNames ↔ scope.permits name = true

namespace Lists

variable {m : Metadata} {entries children : List Entry} {name : String}

theorem permitted (h : m.Lists entries) : name ∈ m.fieldNames ∨ name ∈ m.associationNames ↔
    (Scope.restricted entries).permits name = true := by
  rw [← List.mem_append, h.names.mem_iff, List.mem_map, Scope.permits_restricted_iff]

/-- A name is listed as what its first entry makes of it. -/
theorem field_of_first (h : m.Lists entries)
    (hfirst : Scope.entry? name (.restricted entries) = some (.leaf name)) :
    name ∈ m.fieldNames :=
  (h.fields name).2 (Scope.entry?_restricted_eq_some hfirst).1

theorem association_of_first (h : m.Lists entries)
    (hfirst : Scope.entry? name (.restricted entries) = some (.scoped name children)) :
    name ∈ m.associationNames :=
  (h.associations name).2 ⟨children, (Scope.entry?_restricted_eq_some hfirst).1⟩

/-- Where every entry is the first of its name, names are listed as nothing else. -/
theorem agrees_iff (h : m.Lists entries) :
    m.Agrees (.restricted entries) ↔ (entries.map Entry.name).Nodup := by
  refine ⟨fun ha => h.names.nodup_iff.1 ha.once, fun hnames => ?_⟩
  refine ⟨fun name => ?_, fun name => ?_, h.names.nodup_iff.2 hnames, fun name => h.permitted⟩
  · rw [h.associations]
    constructor
    · rintro ⟨children, hm⟩
      have hfirst := Scope.entry?_of_mem hnames hm
      exact ⟨children, hfirst, Scope.under_of_entry? hfirst⟩
    · rintro ⟨children, hfirst, -⟩
      exact ⟨children, (Scope.entry?_restricted_eq_some hfirst).1⟩
  · rw [h.fields]
    constructor
    · exact fun hm => Scope.entry?_of_mem hnames hm
    · exact fun hfirst => (Scope.entry?_restricted_eq_some hfirst).1

end Lists

/-- **The metadata of an allow-list**: it lists the names of the entries by their kind, each as often
as there are entries of it. So exactly the permitted names are listed, each of them at least as what
its first entry makes of it. The metadata agrees with the allow-list exactly if no two entries have
one name. -/
theorem describe_restricted (target : Graph) (entries : List Entry) :
    (describe target (.restricted entries)).Lists entries ∧
    (∀ name, name ∈ (describe target (.restricted entries)).fieldNames ∨
        name ∈ (describe target (.restricted entries)).associationNames ↔
      (Scope.restricted entries).permits name = true) ∧
    (∀ name, Scope.entry? name (.restricted entries) = some (.leaf name) →
      name ∈ (describe target (.restricted entries)).fieldNames) ∧
    (∀ name children, Scope.entry? name (.restricted entries) = some (.scoped name children) →
      name ∈ (describe target (.restricted entries)).associationNames ∧
      (Scope.restricted entries).under name = .restricted children) ∧
    ((describe target (.restricted entries)).Agrees (.restricted entries) ↔
      (entries.map Entry.name).Nodup) := by
  have h := lists_describe target entries
  refine ⟨h, fun name => h.permitted, fun name hfirst => h.field_of_first hfirst, ?_, h.agrees_iff⟩
  intro name children hfirst
  exact ⟨h.association_of_first hfirst, Scope.under_of_entry? hfirst⟩

/-- A configuration that names the posts twice: first on their own, then with what is permitted under
them. -/
def postsTwice : Json := .array [.string "posts", .object [("posts", .string "content")]]

/-- **Metadata does not always agree with the allow-list**: the posts are listed as an association,
though nothing is permitted under them. -/
theorem not_always_agrees :
    ¬∀ (target : Graph) (config : Json) (entries : List Entry),
      Scope.ofJson config = .ok (.restricted entries) →
      (describe target (.restricted entries)).Agrees (.restricted entries) := by
  intro h
  have hread : Scope.ofJson postsTwice =
      .ok (.restricted [.leaf "posts", .scoped "posts" [.leaf "content"]]) := by decide
  have hagrees := h (.object ⟨"object", ⟨[], []⟩, []⟩) postsTwice _ hread
  obtain ⟨children, hfirst, -⟩ := (hagrees.associations "posts").1 (.head [])
  cases hfirst

end Facet.Metadata
