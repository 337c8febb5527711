import Facet.Graph.OfJson
import Facet.Proofs.Projector.Pruning

/-!
# What each setting decides

A setting of the projector changes what it names, and nothing else (`project_settings`).

* Whether denied fields are noted decides only over these notes: without them a projection has the
  same outcome and records everything else that it records with them (`sifted_project`).
* The wrapping decides only what is around the projection of a sequence at the root
  (`run_project_data`).
* The order key decides only how values are ordered: it means nothing to a selection that requests no
  known order of a value with braces (`project_orderKey`).

All three compare a projection with itself under another setting, and differ in the relation between
the two runs: one is sifted out of the other, or both are equal.
-/

set_option autoImplicit false

namespace Facet.Projector

open Selector (Node OrderDirective requestedOrders)

variable (config : ProjectorConfig) (target : Graph) (nodes : List Node) (scope : Scope)

/-! ## Notes on denied fields -/

theorem sifted_noteDenied (path : Path) :
    Run.Sifted isNoDenial (noteDenied { config with diagnoseDenied := true } path)
      (noteDenied { config with diagnoseDenied := false } path) := by
  refine ⟨.ok (), [_], fun ds => ⟨rfl, ?_⟩⟩
  show (Except.ok (), ds) = (Except.ok (), ds ++ [])
  rw [List.append_nil]

/-- None of the notes on orders is one on a denied field. -/
theorem sifted_inOrder (path : Path) (order : Option OrderDirective) (value : Graph) :
    Run.Sifted isNoDenial (inOrder config path order value) (inOrder config path order value) := by
  refine .of_steady (run_inOrder config path order value) fun d hd => ?_
  exact decide_eq_true (kind_ne_of_mem_orderNotes hd)

/-- A projection that does not note denied fields has the outcome of the one that does, and adds what
that adds but for the notes on them. -/
theorem sifted_project :
    Run.Sifted isNoDenial (project { config with diagnoseDenied := true } target nodes scope)
      (project { config with diagnoseDenied := false } target nodes scope) := by
  have hR := Run.congruence_sifted isNoDenial
  have hwalk := congruence_walk_projectObject { config with diagnoseDenied := true }
    { config with diagnoseDenied := false } hR (sifted_noteDenied config)
    (fun d (_ : d ∈ requestedOrders nodes) path value => sifted_inOrder config path (some d) value)
    scope [] target
  exact hR.map _ hwalk

/-! ## Wrapping -/

/-- The wrapping has no say in a walk. -/
theorem walk_wrapping (w w' : Wrapping) (path : Path) (g : Graph) :
    walk (projectObject { config with wrapping := w } nodes scope) path g =
      walk (projectObject { config with wrapping := w' } nodes scope) path g :=
  congruence_walk_projectObject { config with wrapping := w } { config with wrapping := w' }
    Run.congruence_eq (fun _ => rfl) (fun _ _ _ _ => rfl) scope path g

theorem wrap_data (p : Projection) : wrap { config with wrapping := .data } target p =
    if target.isSequence then .object [("data", p)] else p := by
  simp [wrap]

/-- A wrapped projection is the bare one, under `data` if it is that of a sequence. -/
theorem run_project_data (ds : Diagnostics) :
    (project { config with wrapping := .data } target nodes scope).run ds =
      (((project { config with wrapping := .bare } target nodes scope).run ds).1.map
          fun p => if target.isSequence then .object [("data", p)] else p,
        ((project { config with wrapping := .bare } target nodes scope).run ds).2) := by
  have hbare : wrap { config with wrapping := .bare } target = id :=
    wrap_eq_id fun h => nomatch h.2
  rw [project, project, hbare, id_map, walk_wrapping config nodes scope .bare .data, Run.run_map,
    funext (wrap_data config target)]

/-! ## Order keys -/

/-- Under an order that is not known the key is not looked at. -/
theorem inOrder_orderKey {d : OrderDirective} (hd : d.direction? = none) (key : String) (path : Path)
    (value : Graph) : inOrder { config with orderKey := key } path (some d) value =
      inOrder config path (some d) value := by
  simp only [inOrder, hd]

theorem project_orderKey (h : ∀ d ∈ requestedOrders nodes, d.direction? = none) (key : String) :
    project { config with orderKey := key } target nodes scope =
      project config target nodes scope := by
  have hwalk := congruence_walk_projectObject { config with orderKey := key } config
    Run.congruence_eq (fun _ => rfl) (fun d hd => inOrder_orderKey config (h d hd) key) scope []
    target
  rw [project, project, hwalk]
  rfl

/-! ## All settings -/

/-- **A setting changes only what it names.** Whether denied fields are noted does not change the
outcome of a projection, and without the notes exactly these are missing among what it records. The
wrapping changes nothing that is recorded, no error, and of a projection only that the one of a
sequence at the root is the single member `data` of an object. And the order key changes nothing at
all if no known order is requested of a value with braces. -/
theorem project_settings (ds : Diagnostics) :
    (∃ (outcome : Except Error Projection) (notes : Diagnostics),
      (project { config with diagnoseDenied := true } target nodes scope).run ds =
        (outcome, ds ++ notes) ∧
      (project { config with diagnoseDenied := false } target nodes scope).run ds =
        (outcome, ds ++ notes.filter fun d => d.kind ≠ .fieldNotPermitted)) ∧
    (∃ (outcome : Except Error Projection) (es : Diagnostics),
      (project { config with wrapping := .bare } target nodes scope).run ds = (outcome, es) ∧
      (project { config with wrapping := .data } target nodes scope).run ds =
        (outcome.map fun p => if target.isSequence then .object [("data", p)] else p, es)) ∧
    ∀ key : String, (∀ d ∈ requestedOrders nodes, d.direction? = none) →
      (project { config with orderKey := key } target nodes scope).run ds =
        (project config target nodes scope).run ds := by
  refine ⟨?_, ?_, fun key h => ?_⟩
  · obtain ⟨outcome, notes, hrun⟩ := sifted_project config target nodes scope
    exact ⟨outcome, notes, hrun ds⟩
  · exact ⟨_, _, rfl, run_project_data config target nodes scope ds⟩
  · rw [project_orderKey config target nodes scope h key]

/-- Two posts at the root, one without a tag. -/
def feed : Graph := .ofJson (.array [
  .object [("secret", .null), ("tags", .array [.object [("name", .string "x")]])],
  .object [("secret", .null), ("tags", .array [])]])

/-- The tags in an order without a token, after the secret. -/
def feedNodes : List Node :=
  [⟨"secret", none, some .chronological⟩,
    ⟨"tags", some [⟨"name", none, none⟩], some (.invalid "")⟩]

def feedScope : Scope := .restricted [.scoped "tags" [.leaf "name"]]

/-- The posts with their tags. -/
def feedShown : Projection := .array [
  .object [("tags", .array [.object [("name", .scalar (.string "x"))]])],
  .object [("tags", .array [])]]

/-- A note on a denied field from before. -/
def earlierDenial : Diagnostic := ⟨.fieldNotPermitted, "Field id is not permitted"⟩

def secretDenied (place : String) : Diagnostic :=
  ⟨.fieldNotPermitted, "Field " ++ place ++ ".secret is not permitted"⟩

def orderUnknown (place : String) : Diagnostic :=
  ⟨.invalidOrderDirection, "Unknown order \"\" on " ++ place ++ ".tags"⟩

/-- Without notes on denied fields those of before are kept; wrapped, the posts are under `data`; and
another order key makes no difference. -/
theorem project_settings_feed :
    (∀ d ∈ requestedOrders feedNodes, d.direction? = none) ∧
    (project ⟨.bare, "at", true⟩ feed feedNodes feedScope).run [earlierDenial] =
      (.ok feedShown, [earlierDenial, secretDenied "[0]", orderUnknown "[0]", secretDenied "[1]",
        orderUnknown "[1]"]) ∧
    (project ⟨.bare, "at", false⟩ feed feedNodes feedScope).run [earlierDenial] =
      (.ok feedShown, [earlierDenial, orderUnknown "[0]", orderUnknown "[1]"]) ∧
    (project ⟨.data, "at", true⟩ feed feedNodes feedScope).run [earlierDenial] =
      (.ok (.object [("data", feedShown)]), [earlierDenial, secretDenied "[0]", orderUnknown "[0]",
        secretDenied "[1]", orderUnknown "[1]"]) ∧
    (project ⟨.bare, "name", true⟩ feed feedNodes feedScope).run [earlierDenial] =
      (project ⟨.bare, "at", true⟩ feed feedNodes feedScope).run [earlierDenial] := by
  have horders : ∀ d ∈ requestedOrders feedNodes, d.direction? = none := by decide
  have hrun : (project ⟨.bare, "at", true⟩ feed feedNodes feedScope).run [earlierDenial] =
      (.ok feedShown, [earlierDenial, secretDenied "[0]", orderUnknown "[0]", secretDenied "[1]",
        orderUnknown "[1]"]) := rfl
  obtain ⟨⟨outcome, notes, hnoted, hquiet⟩, ⟨outcome', es, hbare, hdata⟩, hkey⟩ :=
    project_settings ⟨.bare, "at", true⟩ feed feedNodes feedScope [earlierDenial]
  refine ⟨horders, hrun, ?_, ?_, hkey "name" horders⟩
  · obtain ⟨rfl, hnotes⟩ := Prod.mk.inj (hrun.symm.trans hnoted)
    obtain rfl := (List.cons.inj hnotes).2
    refine hquiet.trans ?_
    rfl
  · obtain ⟨rfl, rfl⟩ := Prod.mk.inj (hrun.symm.trans hbare)
    exact hdata

end Facet.Projector
