import Yuml.Xml.Doctype
import Yuml.Xml.Event

namespace Yuml.Xml

abbrev Expansion := StateT Nat Option

namespace Expansion

def spend (text : Text) : Expansion Unit := do
  let left ← get
  guard (Text.byteSize text ≤ left)
  set (left - Text.byteSize text)

/-- How much text entities may add to a document of some size: up to eight mebibytes in all, or a
hundred times the size if that is more. -/
def allowance (size : Nat) : Nat :=
  max (8388607 - size) (99 * size)

end Expansion

namespace Doctype

def enter (d : Doctype) (opened : List Text) (name : Text) : Expansion Text := do
  guard (!opened.contains name)
  let text ← (d.entity? name).join
  Expansion.spend text
  return text

def spaced (c : Char) : Char :=
  if isSpace c then ' ' else c

/-- What the pieces of an attribute's value stand for, with entities nested to some depth. Only a
character written by its number may be white space other than a space. -/
def value (d : Doctype) : Nat → List Text → List Piece → Expansion Text
  | 0, _, _ => failure
  | depth + 1, opened, pieces => do
    return (← pieces.mapM fun
      | .plain c => if c = '<' then failure else pure [spaced c]
      | .numbered c => pure [c]
      | .named name =>
        match predefined? name with
        | some c => pure [c]
        | none =>
          if d.isPartial && (d.entity? name).isNone then pure []
          else do d.value depth (name :: opened) (← pieces? (← d.enter opened name))).flatten

def tokenized (s : Text) : Text :=
  Text.joinWith " " ((Text.pieces (· == ' ') s).filter (!·.isEmpty))

def valueOf (d : Doctype) (depth : Nat) (opened : List Text) (element name : Text)
    (pieces : List Piece) : Expansion Text := do
  let v ← d.value depth opened pieces
  return if d.isTokenized element name then tokenized v else v

def attributes (d : Doctype) (depth : Nat) (opened : List Text) (element : Text)
    (given : List (Text × List Piece)) : Expansion Attributes := do
  let known ← given.mapM fun (name, pieces) =>
    return (name, ← d.valueOf depth opened element name pieces)
  return known ++ (d.defaults element).filter fun p => !known.any (·.1 = p.1)

end Doctype

def Event.cons : Event Text → List (Event Text) → List (Event Text)
  | .text s, .text t :: es => .text (s ++ t) :: es
  | .text [], es => es
  | e, es => e :: es

def Doctype.sense (d : Doctype)
    (inside : List Text → RawEvents → Expansion (List (Event Text))) (depth : Nat)
    (opened : List Text) : Event (List Piece) → Expansion (List (Event Text))
  | .opening name given => return [.opening name (← d.attributes depth opened name given)]
  | .closing name => pure [.closing name]
  | .text pieces => return (← pieces.mapM fun
    | .plain c | .numbered c => pure [.text [c]]
    | .named name =>
      match predefined? name with
      | some c => pure [.text [c]]
      | none => do inside (name :: opened) (← contentOf? (← d.enter opened name))).flatten

def Doctype.content (d : Doctype) : Nat → List Text → RawEvents → Expansion (List (Event Text))
  | 0, _, _ => failure
  | depth + 1, opened, events => do
    return ((← events.mapM (d.sense (d.content depth) (depth + 1) opened)).flatten).foldr Event.cons []

end Yuml.Xml
