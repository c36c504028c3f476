import Yuml.Xml.Basic

namespace Yuml.Xml

inductive Piece
  | plain (c : Char)
  | numbered (c : Char)
  | named (name : Text)
  deriving DecidableEq, Repr

def predefined : List (Text × Char) :=
  [("amp", '&'), ("lt", '<'), ("gt", '>'), ("quot", '"'), ("apos", '\'')]

def predefined? (name : Text) : Option Char :=
  (predefined.find? (·.1 = name)).map (·.2)

def readDigits? (base : Nat) (s : Text) : Option Nat :=
  if s.isEmpty then none
  else s.foldlM (fun n c =>
    let d := if c.isDigit then c.toNat - 48
      else if 'a' ≤ c ∧ c ≤ 'f' then c.toNat - 87
      else if 'A' ≤ c ∧ c ≤ 'F' then c.toNat - 55
      else base
    if d < base then some (min (n * base + d) 0x110000) else none) 0

def numbered? (n : Nat) : Option Char :=
  if n.isValidChar ∧ isLegal (Char.ofNat n) then some (Char.ofNat n) else none

def Piece.ofReference? : Text → Option Piece
  | '#' :: 'x' :: digits => ((readDigits? 16 digits).bind numbered?).map .numbered
  | '#' :: digits => ((readDigits? 10 digits).bind numbered?).map .numbered
  | name => if isPlainName name then some (.named name) else none

def piecesFrom? : Nat → Text → Option (List Piece)
  | _, [] => some []
  | skip + 1, _ :: cs => piecesFrom? skip cs
  | 0, c :: cs =>
    if c = '&' then do
      guard (cs.contains ';')
      let body := cs.takeWhile (· != ';')
      return (← Piece.ofReference? body) :: (← piecesFrom? (body.length + 1) cs)
    else (piecesFrom? 0 cs).map (.plain c :: ·)

def pieces? (s : Text) : Option (List Piece) :=
  piecesFrom? 0 s

end Yuml.Xml
