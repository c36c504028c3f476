import Yuml.Text.Basic
import Yuml.Number.Binary

namespace Yuml.Text

/-- The code points of the digits zero of Unicode 14; the other nine digits follow each of them. -/
def zeroDigits : List Nat := [
  0x30, 0x660, 0x6F0, 0x7C0, 0x966, 0x9E6, 0xA66, 0xAE6, 0xB66, 0xBE6, 0xC66, 0xCE6, 0xD66, 0xDE6,
  0xE50, 0xED0, 0xF20, 0x1040, 0x1090, 0x17E0, 0x1810, 0x1946, 0x19D0, 0x1A80, 0x1A90, 0x1B50,
  0x1BB0, 0x1C40, 0x1C50, 0xA620, 0xA8D0, 0xA900, 0xA9D0, 0xA9F0, 0xAA50, 0xABF0, 0xFF10, 0x104A0,
  0x10D30, 0x11066, 0x110F0, 0x11136, 0x111D0, 0x112F0, 0x11450, 0x114D0, 0x11650, 0x116C0,
  0x11730, 0x118E0, 0x11950, 0x11C50, 0x11D50, 0x11DA0, 0x16A60, 0x16AC0, 0x16B50, 0x1D7CE,
  0x1D7D8, 0x1D7E2, 0x1D7EC, 0x1D7F6, 0x1E140, 0x1E2F0, 0x1E950, 0x1FBF0]

def digitValue? (c : Char) : Option Nat :=
  (zeroDigits.find? fun z => z ≤ c.toNat && c.toNat ≤ z + 9).map (c.toNat - ·)

end Yuml.Text

namespace Yuml.Number

structure Decimal where
  negative : Bool
  digits : Nat
  places : Nat
  exponent : Int
  deriving Repr

def Decimal.toFloat (d : Decimal) : Float :=
  let power := d.exponent - d.places
  let size := (Nat.log2 d.digits : Int)
  if d.digits = 0 ∨ power * 3 + size < -1200 then nearestFloat d.negative 0 1
  else if 1200 < power * 3 then nearestFloat d.negative (Nat.pow 2 1024) 1
  else match power with
    | .ofNat k => nearestFloat d.negative (d.digits * Nat.pow 10 k) 1
    | .negSucc k => nearestFloat d.negative d.digits (Nat.pow 10 (k + 1))

def isDigit (c : Char) : Bool :=
  c.isDigit

def digitsValue (s : Text) : Nat :=
  s.foldl (fun n c => n * 10 + (c.toNat - 48)) 0

def dropUnderscores : Option Char → Text → Option Text
  | _, [] => some []
  | before, '_' :: cs =>
    if before.any isDigit && cs.head?.any isDigit then dropUnderscores (some '_') cs else none
  | _, c :: cs => (dropUnderscores (some c) cs).map (c :: ·)

def takeSign : Text → Bool × Text
  | '-' :: cs => (true, cs)
  | '+' :: cs => (false, cs)
  | cs => (false, cs)

def readExponent : Text → Option Int
  | [] => some 0
  | c :: cs =>
    if c = 'e' ∨ c = 'E' then
      let (negative, ds) := takeSign cs
      if ds.isEmpty || !ds.all isDigit then none
      else some (if negative then -(digitsValue ds : Int) else digitsValue ds)
    else none

def readDecimal (negative : Bool) (s : Text) : Option Decimal :=
  let whole := s.takeWhile isDigit
  let (part, rest) := match s.dropWhile isDigit with
    | '.' :: r => (r.takeWhile isDigit, r.dropWhile isDigit)
    | r => ([], r)
  if whole.isEmpty && part.isEmpty then none
  else (readExponent rest).map fun e => ⟨negative, digitsValue (whole ++ part), part.length, e⟩

def readPlain (s : Text) : Option Float :=
  let (negative, body) := takeSign s
  let name := body.map Char.toLower
  if name = "inf" ∨ name = "infinity" then some (nearestFloat negative (Nat.pow 2 1024) 1)
  else if name = "nan" then some (0.0 / 0.0)
  else (readDecimal negative body).map Decimal.toFloat

def plainChar (c : Char) : Char :=
  if c.toNat < 127 then c
  else if Text.isBlank c then ' '
  else match Text.digitValue? c with
    | some d => Nat.digitChar d
    | none => c

def isPadding (c : Char) : Bool :=
  c == ' ' || (9 ≤ c.toNat && c.toNat ≤ 13)

def read? (s : Text) : Option Float :=
  (dropUnderscores none (Text.trimBy isPadding (s.map plainChar))).bind readPlain

end Yuml.Number
