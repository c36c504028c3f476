import Yuml.Text.Basic
import Yuml.Text.Word
import Yuml.Options.Basic

namespace Yuml

structure Directive where
  key : Text
  value : Text
  deriving DecidableEq, Repr

namespace Directive

def takeWord? (s : Text) : Option (Text × Text) :=
  let body := s.dropWhile Text.isBlank
  let word := body.takeWhile Text.isWord
  if word.isEmpty then none
  else some (word, (body.dropWhile Text.isWord).dropWhile Text.isBlank)

def parse? (line : Text) : Option Directive := do
  let s ← Text.dropPrefix? "//" line
  guard (s.head?.any Text.isBlank)
  let s ← Text.dropPrefix? ['{'] (s.dropWhile Text.isBlank)
  let (key, s) ← takeWord? s
  let s ← Text.dropPrefix? ":" s
  let (value, s) ← takeWord? s
  let s ← Text.dropPrefix? ['}'] s
  guard (s = [] ∨ s = ['\n'])
  return ⟨key, value⟩

def invalidValue (key : Text) (allowed : List Text) : Warning :=
  "Invalid value for '" ++ key ++ "'. Allowed values are: " ++ Text.joinWith ", " allowed

/-- Whether a value is one of the two truth values; a line feed may follow it, but then it does not
count as true. -/
def isTruthValue (value : Text) : Bool :=
  let word := (Text.dropSuffix? "\n" value).getD value
  word = "true".toList || word = "false".toList

def apply (x : Directive) (d : Draft) : Draft × List Warning :=
  if x.key = "type" then
    match DiagramKind.ofName? x.value with
    | some k => ({ d with kind := .kind k }, [])
    | none => (d, [invalidValue x.key (DiagramKind.all.map DiagramKind.name)])
  else if x.key = "direction" then
    match Direction.ofWord? x.value with
    | some dir => ({ d with direction := dir }, [])
    | none => (d, [invalidValue x.key (Direction.all.map Direction.word)])
  else if x.key = "generate" then
    if isTruthValue x.value then
      ({ d with generate := .bool (x.value = "true") }, ["Generate option is not supported"])
    else (d, [invalidValue x.key ["true", "false (default)."]])
  else (d, [])

end Directive

end Yuml
