import Facet.Proofs.Permission.Format

/-!
# Allow-lists written and read back

An allow-list may be built with any names, but the configuration format trims names and has none that
are blank. What is written lists the entries with their names trimmed (`isList_itemsToJson`), unless a
name is blank; there is nothing to check in it but the names (`listSites_itemsToJson`), so that the
first blank one is reported where it stands, entries being counted before those under them. What is
read has names that are trimmed and not blank (`readable_of_isLevel`), so it is written and read
without change. `ofJson_toJson` says all this of whole allow-lists.
-/

set_option autoImplicit false

namespace Facet

namespace Entry

/-! ## Names -/

mutual

/-- The entry with its names trimmed at every depth. -/
def trimmed : Entry → Entry
  | .leaf name => .leaf (Text.trimmed name)
  | .scoped name children => .scoped (Text.trimmed name) (trimmedAll children)

/-- The entries with their names trimmed at every depth. -/
def trimmedAll : List Entry → List Entry
  | [] => []
  | e :: es => e.trimmed :: trimmedAll es

end

mutual

/-- The names in an entry: its own, then those under it. -/
def names : Entry → List String
  | .leaf name => [name]
  | .scoped name children => name :: namesAll children

/-- The names in entries, in order. -/
def namesAll : List Entry → List String
  | [] => []
  | e :: es => e.names ++ namesAll es

end

mutual

/-- The names in an entry, each after the text of the place where it is written. -/
def placedNames (place : String) : Entry → List (String × String)
  | .leaf name => [(place, name)]
  | .scoped name children =>
    (place, name) :: placedNamesFrom (place ++ "." ++ Text.trimmed name) 0 children

/-- The names in a list of entries, the first of which has the index, each after the text of the
place where it is written. -/
def placedNamesFrom (place : String) (i : Nat) : List Entry → List (String × String)
  | [] => []
  | e :: es =>
    e.placedNames (place ++ "[" ++ toString i ++ "]") ++ placedNamesFrom place (i + 1) es

end

/-- The first blank name, with its place. -/
def firstBlank? (names : List (String × String)) : Option (String × String) :=
  names.find? fun p => Text.trimmed p.2 = ""

/-- Is the name one that can be read: trimmed, and not blank? -/
def Readable (name : String) : Prop := name ≠ "" ∧ Text.trimmed name = name

mutual

theorem map_snd_placedNames (place : String) : ∀ e : Entry,
    (e.placedNames place).map Prod.snd = e.names
  | .leaf name => rfl
  | .scoped name children => by
    rw [placedNames, names, List.map_cons, map_snd_placedNamesFrom]

theorem map_snd_placedNamesFrom (place : String) (i : Nat) : ∀ es : List Entry,
    (placedNamesFrom place i es).map Prod.snd = namesAll es
  | [] => rfl
  | e :: es => by
    rw [placedNamesFrom, namesAll, List.map_append, map_snd_placedNames, map_snd_placedNamesFrom]

end

theorem firstBlank?_eq_none_iff {ps : List (String × String)} :
    firstBlank? ps = none ↔ ∀ name ∈ ps.map Prod.snd, Text.trimmed name ≠ "" := by
  rw [firstBlank?, List.find?_eq_none, List.forall_mem_map]
  simp

mutual

theorem trimmed_eq_self_iff : ∀ e : Entry,
    e.trimmed = e ↔ ∀ name ∈ e.names, Text.trimmed name = name
  | .leaf name => by simp [trimmed, names]
  | .scoped name children => by
    simp [trimmed, names, trimmedAll_eq_self_iff children]

theorem trimmedAll_eq_self_iff : ∀ es : List Entry,
    trimmedAll es = es ↔ ∀ name ∈ namesAll es, Text.trimmed name = name
  | [] => by simp [trimmedAll, namesAll]
  | e :: es => by
    simp [trimmedAll, namesAll, trimmed_eq_self_iff e, trimmedAll_eq_self_iff es, or_imp,
      forall_and]

end

/-! ## Reading what was written -/

mutual

theorem isItem_toJson : ∀ e : Entry, (∀ name ∈ e.names, Text.trimmed name ≠ "") →
    IsItem e.toJson [e.trimmed]
  | .leaf name, h => .name (h name (.head _))
  | .scoped name children, h =>
    .mapping (.cons (h name (.head _))
      (.list (isList_itemsToJson children fun n hm => h n (.tail _ hm))) .nil)

/-- Without a blank name, what is written lists the entries with their names trimmed. -/
theorem isList_itemsToJson : ∀ es : List Entry, (∀ name ∈ namesAll es, Text.trimmed name ≠ "") →
    IsList (itemsToJson es) (trimmedAll es)
  | [], _ => .nil
  | e :: es, h => by
    rw [namesAll, List.forall_mem_append] at h
    exact .cons (isItem_toJson e h.1) (isList_itemsToJson es h.2)

end

/-- A name at its place. -/
def nameSite (p : String × String) : String × Site := (p.1, .name p.2)

mutual

theorem itemSites_toJson (place : String) : ∀ e : Entry,
    itemSites place e.toJson = (e.placedNames place).map nameSite
  | .leaf name => rfl
  | .scoped name children => by
    rw [toJson, itemSites, mappingSites, levelSites, listSites_itemsToJson, mappingSites,
      List.append_nil, placedNames, List.map_cons]
    rfl

/-- What is written has nothing to check but the names, where they are written. -/
theorem listSites_itemsToJson (place : String) (i : Nat) : ∀ es : List Entry,
    listSites place i (itemsToJson es) = (placedNamesFrom place i es).map nameSite
  | [] => rfl
  | e :: es => by
    rw [itemsToJson, listSites, itemSites_toJson, listSites_itemsToJson, placedNamesFrom,
      List.map_append]

end

/-- The first thing that is wrong with names is the first blank one. -/
theorem firstReport?_names (ps : List (String × String)) :
    firstReport? (ps.map nameSite) = (firstBlank? ps).map fun p => .emptyName p.1 := by
  induction ps with
  | nil => rfl
  | cons p ps ih =>
    rw [firstReport?] at ih
    by_cases h : Text.trimmed p.2 = ""
    · simp [firstReport?, firstBlank?, nameSite, Site.report?, h]
    · simpa [firstReport?, firstBlank?, nameSite, Site.report?, h] using ih

theorem exists_of_reportOf_eq {α : Type} {x : Except ConfigFault α} {place : String}
    (h : reportOf x = some (.emptyName place)) :
    ∃ path, x = .error (.emptyName path) ∧ ConfigFault.place path = place := by
  cases x with
  | ok a => cases h
  | error fault =>
    cases fault with
    | invalidEntry path found => simp [reportOf, ConfigFault.report] at h
    | nestedList path => simp [reportOf, ConfigFault.report] at h
    | emptyName path => exact ⟨path, rfl, by simpa [reportOf, ConfigFault.report] using h⟩

/-! ## Names that are read -/

theorem namesAll_append (es fs : List Entry) :
    namesAll (es ++ fs) = namesAll es ++ namesAll fs := by
  induction es with
  | nil => rfl
  | cons e es ih => rw [List.cons_append, namesAll, ih, namesAll, List.append_assoc]

theorem readable_trimmed {text : String} (h : Text.trimmed text ≠ "") :
    Readable (Text.trimmed text) := ⟨h, Text.trimmed_trimmed text⟩

theorem readable_leaf {text : String} (h : Text.trimmed text ≠ "") :
    ∀ name ∈ namesAll [.leaf (Text.trimmed text)], Readable name := by
  intro name hm
  obtain rfl : name = Text.trimmed text := by simpa [namesAll, names] using hm
  exact readable_trimmed h

mutual

/-- What a level lists has names that can be read again. -/
theorem readable_of_isLevel {v : Json} {es : List Entry} : IsLevel v es →
    ∀ name ∈ namesAll es, Readable name
  | .name hn => readable_leaf hn
  | .mapping hm => readable_of_isMapping hm
  | .list hl => readable_of_isList hl

theorem readable_of_isList {vs : List Json} {es : List Entry} : IsList vs es →
    ∀ name ∈ namesAll es, Readable name
  | .nil => List.forall_mem_nil _
  | .cons hv hvs => by
    rw [namesAll_append, List.forall_mem_append]
    exact ⟨readable_of_isItem hv, readable_of_isList hvs⟩

theorem readable_of_isItem {v : Json} {es : List Entry} : IsItem v es →
    ∀ name ∈ namesAll es, Readable name
  | .name hn => readable_leaf hn
  | .mapping hm => readable_of_isMapping hm

theorem readable_of_isMapping {members : List (String × Json)} {es : List Entry} :
    IsMapping members es → ∀ name ∈ namesAll es, Readable name
  | .nil => List.forall_mem_nil _
  | .cons hn hv hm => by
    rw [namesAll, names, List.cons_append, List.forall_mem_cons, List.forall_mem_append]
    exact ⟨readable_trimmed hn, readable_of_isLevel hv, readable_of_isMapping hm⟩

end

end Entry

/-! ## Whole allow-lists -/

namespace Scope

/-- The allow-list with its names trimmed at every depth. -/
def trimmed : Scope → Scope
  | .unrestricted => .unrestricted
  | .restricted entries => .restricted (Entry.trimmedAll entries)

/-- The names in an allow-list. -/
def names : Scope → List String
  | .unrestricted => []
  | .restricted entries => Entry.namesAll entries

/-- The names in an allow-list, each after the text of the place where it is written. -/
def placedNames : Scope → List (String × String)
  | .unrestricted => []
  | .restricted entries => Entry.placedNamesFrom "$" 0 entries

theorem trimmed_eq_self_of_readable {t : Scope} (h : ∀ name ∈ t.names, Entry.Readable name) :
    t.trimmed = t := by
  cases t with
  | unrestricted => rfl
  | restricted entries =>
    rw [trimmed, (Entry.trimmedAll_eq_self_iff entries).2 fun name hm => (h name hm).2]

theorem ofJson_toJson_of_forall {t : Scope} (h : ∀ name ∈ t.names, Text.trimmed name ≠ "") :
    ofJson t.toJson = .ok t.trimmed := by
  rw [ofJson_eq_ok_iff]
  cases t with
  | unrestricted => exact .null
  | restricted entries => exact .level (.list (Entry.isList_itemsToJson entries h))

theorem firstReport?_toJson (t : Scope) : firstReport? t.toJson.configSites =
    (Entry.firstBlank? t.placedNames).map fun p => .emptyName p.1 := by
  cases t with
  | unrestricted => rfl
  | restricted entries =>
    rw [placedNames, ← Entry.firstReport?_names, ← Entry.listSites_itemsToJson]
    rfl

theorem map_snd_placedNames (t : Scope) : t.placedNames.map Prod.snd = t.names := by
  cases t with
  | unrestricted => rfl
  | restricted entries => exact Entry.map_snd_placedNamesFrom "$" 0 entries

theorem ofJson_toJson_of_exists {t : Scope} (h : ∃ name ∈ t.names, Text.trimmed name = "") :
    ∃ place name path, Entry.firstBlank? t.placedNames = some (place, name) ∧
      ofJson t.toJson = .error (.emptyName path) ∧ ConfigFault.place path = place := by
  obtain ⟨blank, hm, hb⟩ := h
  have hreport := (reportOf_ofJson t.toJson).trans t.firstReport?_toJson
  cases hf : Entry.firstBlank? t.placedNames with
  | none =>
    rw [Entry.firstBlank?_eq_none_iff, map_snd_placedNames] at hf
    exact absurd hb (hf blank hm)
  | some p =>
    rw [hf] at hreport
    obtain ⟨path, hr, hp⟩ := Entry.exists_of_reportOf_eq hreport
    exact ⟨p.1, p.2, path, rfl, hr, hp⟩

theorem readable_of_ofJson {v : Json} {t : Scope} (h : ofJson v = .ok t) :
    ∀ name ∈ t.names, Entry.Readable name := by
  cases ofJson_eq_ok_iff.1 h with
  | null => exact List.forall_mem_nil _
  | level hes => exact Entry.readable_of_isLevel hes

theorem ofJson_toJson_of_readable {t : Scope} (h : ∀ name ∈ t.names, Entry.Readable name) :
    ofJson t.toJson = .ok t := by
  have hne : ∀ name ∈ t.names, Text.trimmed name ≠ "" := by
    intro name hm
    rw [(h name hm).2]
    exact (h name hm).1
  rw [ofJson_toJson_of_forall hne, trimmed_eq_self_of_readable h]

/-- Reading back yields nothing but the allow-list with its names trimmed. -/
theorem trimmed_of_ofJson_toJson {t u : Scope} (h : ofJson t.toJson = .ok u) : t.trimmed = u := by
  by_cases hb : ∃ name ∈ t.names, Text.trimmed name = ""
  · obtain ⟨place, name, path, -, hr, -⟩ := ofJson_toJson_of_exists hb
    rw [hr] at h
    cases h
  · rw [ofJson_toJson_of_forall fun name hm he => hb ⟨name, hm, he⟩] at h
    exact Except.ok.inj h

theorem eq_unrestricted_of_trimmed {t : Scope} (h : t.trimmed = .unrestricted) :
    t = .unrestricted := by
  cases t with
  | unrestricted => rfl
  | restricted entries => cases h

theorem eq_denyAll_of_trimmed {t : Scope} (h : t.trimmed = .restricted []) :
    t = .restricted [] := by
  cases t with
  | unrestricted => cases h
  | restricted entries =>
    cases entries with
    | nil => rfl
    | cons e es => cases h

/-- **Allow-lists survive being written and read**, up to blanks around their names: what is read
back is the allow-list with its names trimmed, or the first blank name is reported where it stands.
What is read back is the allow-list itself exactly if its names are trimmed and not blank, which is
so if it was read. No allow-list and the empty one are told apart. -/
theorem ofJson_toJson (t : Scope) :
    ((∀ name ∈ t.names, Text.trimmed name ≠ "") → ofJson t.toJson = .ok t.trimmed) ∧
    ((∃ name ∈ t.names, Text.trimmed name = "") → ∃ place name path,
      Entry.firstBlank? t.placedNames = some (place, name) ∧
        ofJson t.toJson = .error (.emptyName path) ∧ ConfigFault.place path = place) ∧
    (ofJson t.toJson = .ok t ↔ ∀ name ∈ t.names, Entry.Readable name) ∧
    (∀ v, ofJson v = .ok t →
      (∀ name ∈ t.names, Entry.Readable name) ∧ ofJson t.toJson = .ok t) ∧
    (ofJson t.toJson = .ok .unrestricted ↔ t = .unrestricted) ∧
    (ofJson t.toJson = .ok (.restricted []) ↔ t = .restricted []) := by
  refine ⟨ofJson_toJson_of_forall, ofJson_toJson_of_exists, ⟨fun h => ?_, ofJson_toJson_of_readable⟩,
    fun v h => ?_, ⟨fun h => ?_, fun h => ?_⟩, ⟨fun h => ?_, fun h => ?_⟩⟩
  · exact readable_of_ofJson h
  · exact ⟨readable_of_ofJson h, ofJson_toJson_of_readable (readable_of_ofJson h)⟩
  · exact eq_unrestricted_of_trimmed (trimmed_of_ofJson_toJson h)
  · subst h
    rfl
  · exact eq_denyAll_of_trimmed (trimmed_of_ofJson_toJson h)
  · subst h
    rfl

/-- A blank name among the posts is reported under their trimmed name. -/
example : ofJson (restricted [.leaf "title", .scoped " posts " [.leaf "body", .leaf " "]]).toJson =
      .error (.emptyName [.index 1, .key "posts", .index 1]) ∧
    ConfigFault.place [.index 1, .key "posts", .index 1] = "$[1].posts[1]" := by
  cbv

end Scope

end Facet
