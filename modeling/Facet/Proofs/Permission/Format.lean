import Facet.Permission.Config
import Facet.Proofs.Except
import Facet.Proofs.Text.Trim

/-!
# The format of allow-lists

What configures an allow-list, and what is wrong with a value that does not, apart from the reader:

* `Entry.IsLevel v es`: the value is a level of the format, and `es` are the entries that it lists.
* `Entry.levelSites place v`: what there is to check in a value, in the order of the document, each
  with the text of its place; `Site.report?` tells what is wrong at one of them by itself.

Reading is exact on both sides (`ofJson_reads`): a value of the format is read as the entries that
it lists (`ofLevel_eq_ok_iff`), and of any other value the first thing that is wrong is reported
(`reportOf_ofLevel`), whatever else is wrong after it.
-/

set_option autoImplicit false

namespace Facet

/-! ## Values of the format -/

namespace Entry

mutual

/-- The value is a level that lists the entries: a name, a mapping, or a list of both. -/
inductive IsLevel : Json → List Entry → Prop
  | name {text : String} : Text.trimmed text ≠ "" →
      IsLevel (.string text) [.leaf (Text.trimmed text)]
  | mapping {members : List (String × Json)} {es : List Entry} : IsMapping members es →
      IsLevel (.object members) es
  | list {items : List Json} {es : List Entry} : IsList items es → IsLevel (.array items) es

/-- The values are elements of a list, and the entries are listed by them one after the other. -/
inductive IsList : List Json → List Entry → Prop
  | nil : IsList [] []
  | cons {v : Json} {vs : List Json} {es fs : List Entry} : IsItem v es → IsList vs fs →
      IsList (v :: vs) (es ++ fs)

/-- The value is an element of a list: a name or a mapping. -/
inductive IsItem : Json → List Entry → Prop
  | name {text : String} : Text.trimmed text ≠ "" →
      IsItem (.string text) [.leaf (Text.trimmed text)]
  | mapping {members : List (String × Json)} {es : List Entry} : IsMapping members es →
      IsItem (.object members) es

/-- The members are those of a mapping: each key is a name and permits what the level in its value
lists. -/
inductive IsMapping : List (String × Json) → List Entry → Prop
  | nil : IsMapping [] []
  | cons {text : String} {v : Json} {members : List (String × Json)} {children es : List Entry} :
      Text.trimmed text ≠ "" → IsLevel v children → IsMapping members es →
      IsMapping ((text, v) :: members) (.scoped (Text.trimmed text) children :: es)

end

end Entry

/-- The value configures the allow-list: null none at all, a level what it lists. -/
inductive Scope.Configures : Json → Scope → Prop
  | null : Scope.Configures .null .unrestricted
  | level {v : Json} {es : List Entry} : Entry.IsLevel v es → Scope.Configures v (.restricted es)

/-! ## What can be wrong -/

/-- What is wrong with a configuration, with the text of the place. -/
inductive Report where
  /-- A value of this kind is no name, list or mapping. -/
  | invalidEntry (place kind : String)
  | emptyName (place : String)
  | nestedList (place : String)

def ConfigFault.report : ConfigFault → Report
  | .invalidEntry path found => .invalidEntry (place path) found
  | .emptyName path => .emptyName (place path)
  | .nestedList path => .nestedList (place path)

/-- What there is to check at a place of a configuration. -/
inductive Site where
  /-- A string, or the key of a mapping. -/
  | name (text : String)
  /-- A list directly inside a list. -/
  | innerList
  /-- A value of this kind, which is no string, list or mapping. -/
  | other (kind : String)

/-- What is wrong at a site, looked at by itself. -/
def Site.report? (place : String) : Site → Option Report
  | .name text => if Text.trimmed text = "" then some (.emptyName place) else none
  | .innerList => some (.nestedList place)
  | .other kind => some (.invalidEntry place kind)

/-- The first thing that is wrong at sites, each of which comes with its place. -/
def firstReport? (sites : List (String × Site)) : Option Report :=
  sites.findSome? fun p => p.2.report? p.1

theorem firstReport?_append (ps qs : List (String × Site)) :
    firstReport? (ps ++ qs) = (firstReport? ps).or (firstReport? qs) := List.findSome?_append

namespace Entry

mutual

/-- The sites of a level in the order of the document, with their places. -/
def levelSites (place : String) : Json → List (String × Site)
  | .string text => [(place, .name text)]
  | .object members => mappingSites place members
  | .array items => listSites place 0 items
  | v => [(place, .other v.configKind)]

/-- The sites of elements of a list, the first of which has the index. -/
def listSites (place : String) (i : Nat) : List Json → List (String × Site)
  | [] => []
  | v :: vs => itemSites (place ++ "[" ++ toString i ++ "]") v ++ listSites place (i + 1) vs

/-- The sites of an element of a list. -/
def itemSites (place : String) : Json → List (String × Site)
  | .string text => [(place, .name text)]
  | .object members => mappingSites place members
  | .array _ => [(place, .innerList)]
  | v => [(place, .other v.configKind)]

/-- The sites of a mapping: each key, at the place of the mapping, before those of its value. -/
def mappingSites (place : String) : List (String × Json) → List (String × Site)
  | [] => []
  | (text, v) :: members =>
    [(place, .name text)] ++ levelSites (place ++ "." ++ Text.trimmed text) v ++
      mappingSites place members

end

end Entry

/-- The sites of a configuration: a null at its root is not at fault. -/
def Json.configSites : Json → List (String × Site)
  | .null => []
  | v => Entry.levelSites "$" v

/-! ## Reading values of the format -/

namespace Entry

variable {path : Path} {text name : String}

theorem nameOfText_eq_ok (h : Text.trimmed text ≠ "") :
    nameOfText path text = .ok (Text.trimmed text) := if_neg h

theorem nameOfText_eq_error (h : Text.trimmed text = "") :
    nameOfText path text = .error (.emptyName path) := if_pos h

theorem nameOfText_eq_ok_iff :
    nameOfText path text = .ok name ↔ Text.trimmed text ≠ "" ∧ Text.trimmed text = name := by
  by_cases h : Text.trimmed text = ""
  · simp [nameOfText_eq_error h, h]
  · simp [nameOfText_eq_ok h, h]

/-- A text is read as the leaf of its name. -/
theorem leaf_eq_ok_iff {es : List Entry} :
    (nameOfText path text >>= fun name => .ok [.leaf name]) = .ok es ↔
      Text.trimmed text ≠ "" ∧ [.leaf (Text.trimmed text)] = es := by
  rw [bind_eq_ok_iff]
  simp only [nameOfText_eq_ok_iff, Except.ok.injEq]
  constructor
  · rintro ⟨name, ⟨h, rfl⟩, rfl⟩
    exact ⟨h, rfl⟩
  · rintro ⟨h, rfl⟩
    exact ⟨_, ⟨h, rfl⟩, rfl⟩

mutual

/-- What is read as a level is one. -/
theorem isLevel_of_ofLevel (path : Path) : ∀ (v : Json) (es : List Entry),
    ofLevel path v = .ok es → IsLevel v es
  | .string text, es, h => by
    obtain ⟨hn, rfl⟩ := leaf_eq_ok_iff.1 h
    exact .name hn
  | .object members, es, h => .mapping (isMapping_of_ofMapping path members es h)
  | .array items, es, h => .list (isList_of_ofList path 0 items es h)
  | .null, es, h | .bool _, es, h | .number _, es, h => by cases h

theorem isList_of_ofList (path : Path) (i : Nat) : ∀ (vs : List Json) (es : List Entry),
    ofList path i vs = .ok es → IsList vs es
  | [], es, h => by
    cases h
    exact .nil
  | v :: vs, es, h => by
    obtain ⟨fs, hf, h⟩ := bind_eq_ok_iff.1 h
    obtain ⟨gs, hg, h⟩ := bind_eq_ok_iff.1 h
    cases h
    exact .cons (isItem_of_ofItem (path.index i) v fs hf) (isList_of_ofList path (i + 1) vs gs hg)

theorem isItem_of_ofItem (path : Path) : ∀ (v : Json) (es : List Entry),
    ofItem path v = .ok es → IsItem v es
  | .string text, es, h => by
    obtain ⟨hn, rfl⟩ := leaf_eq_ok_iff.1 h
    exact .name hn
  | .object members, es, h => .mapping (isMapping_of_ofMapping path members es h)
  | .array items, es, h => by cases h
  | .null, es, h | .bool _, es, h | .number _, es, h => by cases h

theorem isMapping_of_ofMapping (path : Path) :
    ∀ (members : List (String × Json)) (es : List Entry),
      ofMapping path members = .ok es → IsMapping members es
  | [], es, h => by
    cases h
    exact .nil
  | (text, v) :: members, es, h => by
    obtain ⟨name, hn, h⟩ := bind_eq_ok_iff.1 h
    obtain ⟨children, hc, h⟩ := bind_eq_ok_iff.1 h
    obtain ⟨fs, hf, h⟩ := bind_eq_ok_iff.1 h
    cases h
    obtain ⟨hne, rfl⟩ := nameOfText_eq_ok_iff.1 hn
    exact .cons hne (isLevel_of_ofLevel _ v children hc) (isMapping_of_ofMapping path members fs hf)

end

mutual

/-- A level is read as the entries that it lists, wherever it stands. -/
theorem ofLevel_of_isLevel (path : Path) : ∀ {v : Json} {es : List Entry},
    IsLevel v es → ofLevel path v = .ok es
  | _, _, .name hn => leaf_eq_ok_iff.2 ⟨hn, rfl⟩
  | _, _, .mapping hm => ofMapping_of_isMapping path hm
  | _, _, .list hl => ofList_of_isList path 0 hl

theorem ofList_of_isList (path : Path) (i : Nat) : ∀ {vs : List Json} {es : List Entry},
    IsList vs es → ofList path i vs = .ok es
  | _, _, .nil => rfl
  | _, _, .cons hv hvs => bind_eq_ok_iff.2 ⟨_, ofItem_of_isItem (path.index i) hv,
      bind_eq_ok_iff.2 ⟨_, ofList_of_isList path (i + 1) hvs, rfl⟩⟩

theorem ofItem_of_isItem (path : Path) : ∀ {v : Json} {es : List Entry},
    IsItem v es → ofItem path v = .ok es
  | _, _, .name hn => leaf_eq_ok_iff.2 ⟨hn, rfl⟩
  | _, _, .mapping hm => ofMapping_of_isMapping path hm

theorem ofMapping_of_isMapping (path : Path) :
    ∀ {members : List (String × Json)} {es : List Entry},
      IsMapping members es → ofMapping path members = .ok es
  | _, _, .nil => rfl
  | _, _, .cons hn hv hm => bind_eq_ok_iff.2 ⟨_, nameOfText_eq_ok hn,
      bind_eq_ok_iff.2 ⟨_, ofLevel_of_isLevel _ hv,
        bind_eq_ok_iff.2 ⟨_, ofMapping_of_isMapping path hm, rfl⟩⟩⟩

end

theorem ofLevel_eq_ok_iff {v : Json} {es : List Entry} : ofLevel path v = .ok es ↔ IsLevel v es :=
  ⟨isLevel_of_ofLevel path v es, ofLevel_of_isLevel path⟩

/-! ## Places -/

theorem place_ne_empty (path : Path) : ConfigFault.place path ≠ "" := by
  have extend_ne (text : String) (step : Step) (h : text ≠ "") : Path.extend text step ≠ "" := by
    cases step with
    | key name => simp [Path.extend, h]
    | index i => simp [Path.extend]
  have render_ne (text : String) (h : text ≠ "") : Path.render text path ≠ "" := by
    induction path generalizing text with
    | nil => exact h
    | cons step path ih => exact ih _ (extend_ne text step h)
  exact render_ne "$" (by decide)

theorem place_index (path : Path) (i : Nat) :
    ConfigFault.place (path.index i) = ConfigFault.place path ++ "[" ++ toString i ++ "]" := by
  simp [ConfigFault.place, Path.render, Path.index, Path.extend]

theorem place_key (path : Path) (name : String) :
    ConfigFault.place (path.key name) = ConfigFault.place path ++ "." ++ name := by
  have h := place_ne_empty path
  simp only [ConfigFault.place, Path.render] at h
  simp [ConfigFault.place, Path.render, Path.key, Path.extend, h]

/-! ## Reporting what is wrong -/

/-- What is reported by a reader that fails. -/
def reportOf {α : Type} : Except ConfigFault α → Option Report
  | .ok _ => none
  | .error fault => some fault.report

/-- A reader in two steps reports what its first step does or else its second. -/
theorem reportOf_bind {α β : Type} {x : Except ConfigFault α} {f : α → Except ConfigFault β}
    {r : Option Report} (h : ∀ a, x = .ok a → reportOf (f a) = r) :
    reportOf (x >>= f) = (reportOf x).or r := by
  cases x with
  | error fault => rfl
  | ok a => exact (h a rfl).trans (Option.none_or).symm

theorem reportOf_map {α β : Type} (x : Except ConfigFault α) (f : α → β) :
    reportOf (x >>= fun a => .ok (f a)) = reportOf x := by
  cases x <;> rfl

theorem reportOf_nameOfText (path : Path) (text : String) :
    reportOf (nameOfText path text) =
      firstReport? [(ConfigFault.place path, .name text)] := by
  by_cases h : Text.trimmed text = ""
  · simp [nameOfText_eq_error h, firstReport?, Site.report?, h, reportOf, ConfigFault.report]
  · simp [nameOfText_eq_ok h, firstReport?, Site.report?, h, reportOf]

mutual

/-- Of a value that is no level, the first thing that is wrong is reported. -/
theorem reportOf_ofLevel (path : Path) : ∀ v : Json,
    reportOf (ofLevel path v) = firstReport? (levelSites (ConfigFault.place path) v)
  | .string text => (reportOf_map _ _).trans (reportOf_nameOfText path text)
  | .object members => reportOf_ofMapping path members
  | .array items => reportOf_ofList path 0 items
  | .null | .bool _ | .number _ => rfl

theorem reportOf_ofList (path : Path) (i : Nat) : ∀ vs : List Json,
    reportOf (ofList path i vs) = firstReport? (listSites (ConfigFault.place path) i vs)
  | [] => rfl
  | v :: vs => by
    rw [ofList, listSites, firstReport?_append, ← place_index,
      ← reportOf_ofItem (path.index i) v, ← reportOf_ofList path (i + 1) vs]
    exact reportOf_bind fun es _ => reportOf_map _ _

theorem reportOf_ofItem (path : Path) : ∀ v : Json,
    reportOf (ofItem path v) = firstReport? (itemSites (ConfigFault.place path) v)
  | .string text => (reportOf_map _ _).trans (reportOf_nameOfText path text)
  | .object members => reportOf_ofMapping path members
  | .array _ => rfl
  | .null | .bool _ | .number _ => rfl

theorem reportOf_ofMapping (path : Path) : ∀ members : List (String × Json),
    reportOf (ofMapping path members) =
      firstReport? (mappingSites (ConfigFault.place path) members)
  | [] => rfl
  | (text, v) :: members => by
    rw [ofMapping, mappingSites, firstReport?_append, firstReport?_append, Option.or_assoc,
      ← reportOf_nameOfText, ← place_key, ← reportOf_ofLevel (path.key (Text.trimmed text)) v,
      ← reportOf_ofMapping path members]
    refine reportOf_bind fun name hn => ?_
    obtain ⟨-, rfl⟩ := nameOfText_eq_ok_iff.1 hn
    exact reportOf_bind fun children _ => reportOf_map _ _

end

end Entry

/-! ## Whole configurations -/

namespace Scope

theorem ofJson_of_ne_null {v : Json} (h : v ≠ .null) :
    ofJson v = Entry.ofLevel [] v >>= fun entries => .ok (.restricted entries) := by
  rw [ofJson]
  exact h

theorem ofJson_eq_ok_iff {v : Json} {t : Scope} : ofJson v = .ok t ↔ Configures v t := by
  by_cases h : v = .null
  · subst h
    constructor
    · intro ht
      cases ht
      exact .null
    · rintro (_ | ⟨⟨⟩⟩)
      rfl
  · rw [ofJson_of_ne_null h, bind_eq_ok_iff]
    simp only [Entry.ofLevel_eq_ok_iff, Except.ok.injEq]
    constructor
    · rintro ⟨es, hes, rfl⟩
      exact .level hes
    · rintro (_ | hes)
      · exact absurd rfl h
      · exact ⟨_, hes, rfl⟩

theorem reportOf_ofJson (v : Json) : Entry.reportOf (ofJson v) = firstReport? v.configSites := by
  by_cases h : v = .null
  · subst h
    rfl
  · have hs : v.configSites = Entry.levelSites "$" v := by
      rw [Json.configSites]
      exact h
    rw [ofJson_of_ne_null h, Entry.reportOf_map, Entry.reportOf_ofLevel, hs]
    rfl

/-- **Reading is exact.** A value is read as an allow-list exactly if it configures that one, and
otherwise the first thing that is wrong with it, in the order of the document, is reported. -/
theorem ofJson_reads (v : Json) :
    (∀ t, ofJson v = .ok t ↔ Configures v t) ∧
    ∀ r, (∃ fault, ofJson v = .error fault ∧ fault.report = r) ↔
      firstReport? v.configSites = some r := by
  refine ⟨fun t => ofJson_eq_ok_iff, fun r => ?_⟩
  rw [← reportOf_ofJson]
  cases ofJson v <;> simp [Entry.reportOf]

/-- The blank name under the posts comes before the list in a list. -/
example : let v := Json.array [.object [(" posts ", .array [.string "body", .string " "])],
      .array [.null]]
    firstReport? v.configSites = some (.emptyName "$[0].posts[1]") ∧
      ofJson v = .error (.emptyName [.index 0, .key "posts", .index 1]) := by
  cbv

end Scope

end Facet
