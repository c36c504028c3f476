import Yuml.Text.Basic
import Yuml.Number.Binary

namespace Yuml.Number

/-- The reals that round to a positive double `m · 2 ^ e`, by their ends; the ends belong to it
when the mantissa is even. -/
structure RoundingInterval where
  low : Rat
  high : Rat
  closed : Bool

def RoundingInterval.ofDouble (m : Nat) (e : Int) : RoundingInterval :=
  -- below a power of two the doubles are twice as dense
  let below := if m = Nat.pow 2 52 ∧ e > -1074 then scaled (4 * m - 1) (e - 2) else scaled (2 * m - 1) (e - 1)
  ⟨below, scaled (2 * m + 1) (e - 1), m % 2 == 0⟩

def RoundingInterval.holds (i : RoundingInterval) (x : Rat) : Bool :=
  (i.low < x && x < i.high) || (i.closed && (x == i.low || x == i.high))

def powerOfTen : Int → Rat
  | .ofNat k => (Nat.pow 10 k : Nat)
  | .negSucc k => mkRat 1 (Nat.pow 10 (k + 1))

def gridPoint? (i : RoundingInterval) (v : Rat) (p : Int) : Option Nat :=
  let unit := powerOfTen p
  let d := (v / unit).floor.toNat
  let below := d * unit
  let above := (d + 1 : Nat) * unit
  match i.holds below, i.holds above with
  | false, false => none
  | true, false => some d
  | false, true => some (d + 1)
  | true, true =>
    if v - below < above - v then some d
    else if above - v < v - below then some (d + 1)
    else if d % 2 = 0 then some d else some (d + 1)

def coarsest (i : RoundingInterval) (v : Rat) : Nat → Int → Nat × Int
  | 0, p => (0, p)
  | fuel + 1, p =>
    match gridPoint? i v p with
    | some d => (d, p)
    | none => coarsest i v fuel (p - 1)

/-- The fewest digits `d`, with their power `p`, such that `d · 10 ^ p` reads back as `m · 2 ^ e`. -/
def shortestDigits (m : Nat) (e : Int) : Nat × Int :=
  let v := scaled m e
  let top := (Text.ofNat v.ceil.toNat).length
  coarsest (.ofDouble m e) v (top + 345) top

/-- Positional text for a magnitude between `10 ^ -4` and `10 ^ 16`, with at least one digit after
the point; otherwise one digit, the rest, and an exponent of at least two digits. -/
def digitsText (d : Nat) (p : Int) : Text :=
  let digits := Text.ofNat d
  let point : Int := digits.length + p
  if -4 < point ∧ point ≤ 16 then
    if point ≤ 0 then "0." ++ List.replicate (-point).toNat '0' ++ digits
    else if digits.length ≤ point.toNat then
      digits ++ List.replicate (point.toNat - digits.length) '0' ++ ".0"
    else digits.take point.toNat ++ '.' :: digits.drop point.toNat
  else
    let exponent := point - 1
    let size := Text.ofNat exponent.natAbs
    let fraction := if digits.length = 1 then [] else '.' :: digits.drop 1
    digits.take 1 ++ fraction ++ 'e' :: (if exponent < 0 then '-' else '+') ::
      List.replicate (2 - size.length) '0' ++ size

def shortest (x : Float) : Text :=
  match Double.ofFloat x with
  | .nan => "nan"
  | .infinite negative => if negative then "-inf" else "inf"
  | .finite negative m e =>
    let body : Text := if m = 0 then "0.0" else digitsText (shortestDigits m e).1 (shortestDigits m e).2
    if negative then '-' :: body else body

end Yuml.Number
