import Yuml.Diagram.Vocabulary

namespace Yuml.CommandLine

structure Request where
  input : Option Text := none
  kind : Option Text := none
  direction : Option Text := none
  dark : Bool := false
  output : Option Text := none
  verbose : Bool := false
  help : Bool := false
  deriving DecidableEq, Repr

inductive Switch
  | kind
  | direction
  | output
  | dark
  | verbose
  | help
  deriving DecidableEq, Repr

namespace Switch

def takesValue : Switch → Bool
  | kind | direction | output => true
  | dark | verbose | help => false

def ofLong? (name : Text) : Option Switch :=
  [("--type", kind), ("--dir", direction), ("--output", output), ("--dark", dark),
    ("--verbose", verbose), ("--help", help)].lookup (String.ofList name)

def ofShort? : Char → Option Switch
  | 't' => some kind
  | 'd' => some direction
  | 'o' => some output
  | 'v' => some verbose
  | _ => none

def set (r : Request) (value : Text) : Switch → Request
  | kind => { r with kind := some value }
  | direction => { r with direction := some value }
  | output => { r with output := some value }
  | dark => { r with dark := true }
  | verbose => { r with verbose := true }
  | help => { r with help := true }

end Switch

/-- What a bundle of one-letter options asks for. A letter that takes a value takes the rest of the
bundle, or it is left to take the next argument. -/
def readShort (r : Request) : Text → Option (Request × Option Switch)
  | [] => some (r, none)
  | c :: cs =>
    match Switch.ofShort? c with
    | none => none
    | some s =>
      if s.takesValue then
        if cs.isEmpty then some (r, some s) else some (s.set r cs, none)
      else readShort (s.set r []) cs

def readSwitch (r : Request) (arg : Text) : Option (Request × Option Switch) :=
  let (name, value) := Text.breakOn "=" arg
  match Switch.ofLong? name, value with
  | some s, some v => if s.takesValue then some (s.set r v, none) else none
  | some s, none => if s.takesValue then some (r, some s) else some (s.set r [], none)
  | none, _ => if List.isPrefixOf "--".toList arg then none else readShort r (arg.drop 1)

def readArguments (r : Request) (others : List Text) :
    Option Switch → List Text → Option (Request × List Text)
  | some _, [] => none
  | none, [] => some (r, others)
  | some s, arg :: args => readArguments (s.set r arg) others none args
  | none, arg :: args =>
    if arg = "--" then some (r, others ++ args)
    else if arg.head? = some '-' ∧ arg.length > 1 then
      match readSwitch r arg with
      | none => none
      | some (r, waiting) => readArguments r others waiting args
    else readArguments r (others ++ [arg]) none args

def Request.ofArguments (args : List Text) : Option Request := do
  let (r, others) ← readArguments {} [] none args
  if r.help then return r
  guard (others.length ≤ 1)
  guard (r.kind.all fun k => (DiagramKind.ofName? k).isSome)
  guard (r.direction.all fun d => (Direction.ofCode? d).isSome)
  return { r with input := others.head? }

end Yuml.CommandLine
