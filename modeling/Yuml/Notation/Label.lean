import Yuml.Notation.Token
import Yuml.Text.Word

namespace Yuml.Notation

def isColour (c : Char) : Bool :=
  Text.isWord c || c == '#'

def skipBlanks (s : Text) : Text :=
  s.dropWhile Text.isBlank

def background? (inside : Text) : Option Text := do
  let s ← Text.dropPrefix? "bg" (skipBlanks inside)
  let s ← Text.dropPrefix? ":" (skipBlanks s)
  let s := skipBlanks s
  guard (!(s.takeWhile isColour).isEmpty && (skipBlanks (s.dropWhile isColour)).isEmpty)
  return s.takeWhile isColour

/-- The text before a background suffix at the very end, and the colour. Only the last opening
brace can start the suffix. -/
def suffix? (s : Text) : Option (Text × Text) :=
  match s.reverse.dropWhile Text.isBlank with
  | '}' :: r =>
    match r.dropWhile (· != '{') with
    | '{' :: before =>
      (background? (r.takeWhile (· != '{')).reverse).map fun colour => (before.reverse, colour)
    | _ => none
  | _ => none

def splitStyle (s : Text) : Text × Option Text :=
  match suffix? s with
  | some (before, colour) => (Text.trim before, some colour)
  | none => (Text.trim s, none)

def NodeToken.bare (t : NodeToken) : Text :=
  (splitStyle t.text).1

def afterKeyword? (word s : Text) : Option Text := do
  guard ((s.take word.length).map Char.toLower = word)
  let rest ← Text.dropPrefix? ":" (skipBlanks (s.drop word.length))
  return skipBlanks rest

def noteText? (s : Text) : Option Text :=
  (afterKeyword? "note" (Text.trim s)).map Text.trim

def componentName? (s : Text) : Option Text := do
  let rest ← afterKeyword? "component" s
  guard (!rest.contains '\n')
  return Text.trim rest

def unbracket (s : Text) : Text :=
  let s := Text.trim s
  match Text.dropPrefix? "[" s with
  | none => s
  | some rest =>
    match Text.dropSuffix? "]" rest with
    | none => s
    | some inside => Text.trim inside

end Yuml.Notation
