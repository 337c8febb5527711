import Facet.Diagnostics
import Facet.Graph.Basic

/-!
# Ordering collections

A sequence is ordered by a key: by itself, if it has an order of its own, otherwise by sorting its
elements on the values that they have under the key. The data is taken to come newest first, so that
the ascending order has the greatest key in front. Elements with equal keys keep their order.

A sequence that cannot be ordered keeps its order, and a diagnostic tells why.
-/

set_option autoImplicit false

namespace Facet

/-- Why a sequence cannot be ordered by a key. -/
inductive OrderFault where
  /-- The sequence orders itself, and not by this key. -/
  | unknownKey
  /-- An element has no value under the key. -/
  | missing (i : Nat)
  /-- An element has a value with parts under the key. -/
  | notPlain (i : Nat)
  /-- Two elements have values under the key that do not compare. -/
  | incomparable (a b : Scalar)

namespace OrderFault

def kind : OrderFault → DiagnosticKind
  | .unknownKey | .missing _ => .invalidOrderField
  | .notPlain _ | .incomparable _ _ => .unorderableCollection

def reason : OrderFault → String
  | .unknownKey => "unknown field"
  | .missing i => "element " ++ toString i ++ " has no such field"
  | .notPlain i => "element " ++ toString i ++ " is not a plain value"
  | .incomparable a b => a.kindName ++ " and " ++ b.kindName ++ " values are not comparable"

end OrderFault

/-- The value to sort an element by, for the element at an index. -/
def Graph.sortKey (key : String) (i : Nat) : Graph → Except OrderFault Scalar
  | .object o =>
    match o.attribute? key with
    | some (.scalar s) => .ok s
    | some _ => .error (.notPlain i)
    | none => .error (.missing i)
  | _ => .error (.missing i)

namespace Arrangement

/-- The values to sort elements by, the first of which has the index. -/
def sortKeys (key : String) (i : Nat) : List Graph → Except OrderFault (List Scalar)
  | [] => .ok []
  | g :: gs => do
    let k ← g.sortKey key i
    let ks ← sortKeys key (i + 1) gs
    .ok (k :: ks)

/-- The first value that does not compare with the first of all, if there is one. Values that compare
with one value compare with each other. -/
def incomparable? : List Scalar → Option OrderFault
  | [] => none
  | k :: ks =>
    ((k :: ks).find? fun l => (k.compare? l).isNone).map fun l => .incomparable k l

/-- May an element with the first key stand before one with the second? -/
def mayPrecede (direction : Direction) (a b : Scalar) : Bool :=
  match direction with
  | .asc => a.compare? b ≠ some .lt
  | .desc => a.compare? b ≠ some .gt

/-- The elements, each with the value to sort it by, in order. -/
def sortKeyed (direction : Direction) (kgs : List (Scalar × Graph)) : List (Scalar × Graph) :=
  kgs.mergeSort fun a b => mayPrecede direction a.1 b.1

/-- The elements sorted on their values under the key. -/
def sorted (key : String) (direction : Direction) (elements : List Graph) :
    Except OrderFault (List Graph) := do
  let keys ← sortKeys key 0 elements
  match incomparable? keys with
  | some fault => .error fault
  | none => .ok ((sortKeyed direction (keys.zip elements)).map Prod.snd)

/-- The elements of a sequence in order: its own order, if it has one, or the sorted one. -/
def arranged (key : String) (direction : Direction) (elements : List Graph)
    (native : Option (List ((String × Direction) × List Graph))) :
    Except OrderFault (List Graph) :=
  match native with
  | none => sorted key direction elements
  | some orders =>
    match orders.lookup (key, direction) with
    | some ordered => .ok ordered
    | none => .error .unknownKey

/-- Orders the elements of the sequence at a path. -/
def arrange (path key : String) (direction : Direction) (elements : List Graph)
    (native : Option (List ((String × Direction) × List Graph))) :
    StateM Diagnostics (List Graph) :=
  match arranged key direction elements native with
  | .ok ordered => pure ordered
  | .error fault => do
    Diagnostics.record fault.kind
      ("Cannot order " ++ path ++ " by " ++ key ++ ": " ++ fault.reason)
    pure elements

end Arrangement

end Facet
