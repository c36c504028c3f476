import Yuml.Xml.Basic

namespace Yuml.Xml

inductive Lexeme
  | name (s : Text)
  | prefixed (s : Text)
  | token (s : Text)
  | counted (s : Text)
  | literal (s : Text)
  | keyword (s : Text)
  | percent
  | comma
  | bar
  | opening
  | closing (count : Option Char)
  deriving DecidableEq, Repr

def isCount (c : Char) : Bool :=
  c == '?' || c == '*' || c == '+'

def Lexeme.ofWord (w : Text) : Lexeme :=
  match takePlainName? w with
  | some (_, []) => .name w
  | some (_, ':' :: c :: cs) => if (c :: cs).all isNameChar then .prefixed w else .token w
  | _ => .token w

def goesOnWith (marks : List Char) (s : Text) : Bool :=
  s.head?.any fun c => isSpace c || marks.contains c

def takeLexeme? : Text → Option (Lexeme × Text)
  | [] => none
  | '(' :: r => some (.opening, r)
  | ',' :: r => some (.comma, r)
  | '|' :: r => some (.bar, r)
  | '%' :: r => if goesOnWith [] r then some (.percent, r) else none
  | ')' :: r =>
    match r with
    | [] => none
    | c :: rest =>
      if isCount c then some (.closing (some c), rest)
      else if goesOnWith ['>', ',', '|', ')'] r then some (.closing none, r)
      else none
  | '#' :: r => do
    let (w, r) ← takePlainName? r
    guard (goesOnWith [')', '>', '|'] r)
    return (.keyword w, r)
  | c :: cs =>
    if c = '"' ∨ c = '\'' then do
      let (s, r) ← takeQuoted? (c :: cs)
      guard (goesOnWith ['>', '['] r)
      return (.literal s, r)
    else
      let isPart (c : Char) : Bool := isNameChar c || c == ':'
      let w := (c :: cs).takeWhile isPart
      let r := (c :: cs).dropWhile isPart
      match Lexeme.ofWord w, r with
      | _, [] => none
      | x, c :: rest =>
        if w.isEmpty then none
        else if isCount c then if x = .token w then none else some (.counted w, rest)
        else if goesOnWith ['>', ')', ',', '|', '['] r then some (x, r)
        else none

def takeLexemes? : Nat → Text → Option (List Lexeme × Text)
  | 0, _ => none
  | fuel + 1, s =>
    match skipSpace s with
    | '>' :: r => some ([], '>' :: r)
    | '[' :: r => some ([], '[' :: r)
    | s => do
      let (x, r) ← takeLexeme? s
      let (xs, rest) ← takeLexemes? fuel r
      return (x :: xs, rest)

end Yuml.Xml
