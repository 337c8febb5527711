/-!
# Arguments

The arguments of a command are flags, options with a value, and operands. A long name follows two
dashes and may have its value after an equals sign; a short name is one character after a dash, may
be followed by other short names if it is a flag, and by its value, with or without an equals sign,
if it is an option. Otherwise the value of an option is the next argument, which must not look like a
name. After two dashes alone only operands follow.
-/

set_option autoImplicit false

namespace Facet.CommandLine

/-- A name that a command takes. -/
structure OptionSpec where
  long : String
  short : Option Char
  hasValue : Bool

/-- What one argument, or an option and its value, stands for. -/
inductive Argument where
  | flag (long : String)
  | value (long text : String)
  | operand (text : String)
deriving DecidableEq

/-- Can the argument be the value of the option before it? A dash alone can. -/
def isValue (arg : String) : Bool := arg = "-" || !arg.startsWith "-"

/-- The names of a cluster of short names, and the option among them whose value is still to come. -/
def cluster (specs : List OptionSpec) : List Char → Option (List Argument × Option OptionSpec)
  | [] => some ([], none)
  | c :: cs => do
    let spec ← specs.find? fun s => s.short = some c
    if spec.hasValue then
      match cs with
      | [] => some ([], some spec)
      | '=' :: text => some ([.value spec.long (String.ofList text)], none)
      | text => some ([.value spec.long (String.ofList text)], none)
    else
      let (args, pending) ← cluster specs cs
      some (.flag spec.long :: args, pending)

/-- What a long name stands for, with the text after its equals sign if there is one. -/
def longName (specs : List OptionSpec) (text : List Char) :
    Option (List Argument × Option OptionSpec) := do
  let spec ← specs.find? fun s => s.long.toList = text.takeWhile (· ≠ '=')
  match spec.hasValue, text.dropWhile (· ≠ '=') with
  | true, [] => some ([], some spec)
  | true, _ :: value => some ([.value spec.long (String.ofList value)], none)
  | false, [] => some ([.flag spec.long], none)
  | false, _ => none

/-- What an argument stands for that may be a name. -/
def single (specs : List OptionSpec) (arg : String) : Option (List Argument × Option OptionSpec) :=
  match arg.toList with
  | '-' :: '-' :: name => longName specs name
  | '-' :: c :: cs => cluster specs (c :: cs)
  | _ => some ([.operand arg], none)

/-- What arguments stand for, given the option whose value comes first, if one does. -/
def readAll (specs : List OptionSpec) : Option OptionSpec → List String → Option (List Argument)
  | none, [] => some []
  | some _, [] => none
  | some spec, arg :: args =>
    if isValue arg then (.value spec.long arg :: ·) <$> readAll specs none args else none
  | none, arg :: args =>
    if arg = "--" then some (args.map .operand)
    else do
      let (found, pending) ← single specs arg
      let rest ← readAll specs pending args
      some (found ++ rest)

namespace Argument

/-- The operands, in order. -/
def operands (args : List Argument) : List String :=
  args.filterMap fun | .operand text => some text | _ => none

/-- Is the flag given? It must not be given twice. -/
def flag? (long : String) (args : List Argument) : Option Bool :=
  match args.filter (· = .flag long) with
  | [] => some false
  | [_] => some true
  | _ => none

/-- The value of the option, if it is given. It must not be given twice. -/
def value? (long : String) (args : List Argument) : Option (Option String) :=
  match args.filterMap fun | .value l text => if l = long then some text else none | _ => none with
  | [] => some none
  | [text] => some (some text)
  | _ => none

end Argument

end Facet.CommandLine
