namespace Yuml.Number

def roundDiv (num den : Nat) : Nat :=
  let q := num / den
  let r := num % den
  if 2 * r < den then q
  else if den < 2 * r then q + 1
  else if q % 2 = 0 then q else q + 1

def roundToEven (q : Rat) : Int :=
  let n := roundDiv q.num.natAbs q.den
  if q.num < 0 then -(n : Int) else n

def roundPlaces (places : Nat) (q : Rat) : Int :=
  roundToEven (q * (Nat.pow 10 places : Nat))

inductive Double
  | nan
  | infinite (negative : Bool)
  | finite (negative : Bool) (mantissa : Nat) (exponent : Int)
  deriving DecidableEq, Repr

def Double.ofBits (bits : Nat) : Double :=
  let negative : Bool := bits / Nat.pow 2 63 % 2 == 1
  let field : Nat := bits / Nat.pow 2 52 % Nat.pow 2 11
  let fraction : Nat := bits % Nat.pow 2 52
  if field = 2047 then
    if fraction = 0 then .infinite negative else .nan
  else if field = 0 then .finite negative fraction (-1074)
  else .finite negative (fraction + Nat.pow 2 52) ((field : Int) - 1075)

def Double.ofFloat (x : Float) : Double :=
  .ofBits x.toBits.toNat

def scaled (m : Nat) (e : Int) : Rat :=
  match e with
  | .ofNat k => (m * Nat.pow 2 k : Nat)
  | .negSucc k => mkRat m (Nat.pow 2 (k + 1))

def Double.toRat? : Double → Option Rat
  | nan => none
  | infinite _ => none
  | finite negative m e => some (if negative then -scaled m e else scaled m e)

def infinityBits : Nat := 2047 * Nat.pow 2 52

def binaryExponent (num den : Nat) : Int :=
  let e : Int := (num.log2 : Int) - den.log2
  let fits : Bool := match e with
    | .ofNat k => den * Nat.pow 2 k ≤ num
    | .negSucc k => den ≤ num * Nat.pow 2 (k + 1)
  if fits then e else e - 1

/-- The bits of the double nearest to the positive `num / den`: the significand has fifty-three
bits unless the exponent has reached its least value, and its carry runs into the exponent. -/
def nearestBits (num den : Nat) : Nat :=
  if num = 0 then 0
  else
    let q := max (binaryExponent num den - 52) (-1074)
    let significand := match q with
      | .ofNat k => roundDiv num (den * Nat.pow 2 k)
      | .negSucc k => roundDiv (num * Nat.pow 2 (k + 1)) den
    min (significand + (q + 1074).toNat * Nat.pow 2 52) infinityBits

def nearestFloat (negative : Bool) (num den : Nat) : Float :=
  Float.ofBits (UInt64.ofNat (nearestBits num den + if negative then Nat.pow 2 63 else 0))

def ofRat (q : Rat) : Float :=
  nearestFloat (q.num < 0) q.num.natAbs q.den

/-- The length of the hypotenuse over `x` and `y`, rounded once. Any infinity wins over NaN. -/
def hypot (x y : Float) : Float :=
  match Double.ofFloat x, Double.ofFloat y with
  | .infinite _, _ => Float.ofBits (UInt64.ofNat infinityBits)
  | _, .infinite _ => Float.ofBits (UInt64.ofNat infinityBits)
  | .finite _ m e, .finite _ n f =>
    let square := scaled (m * m) (2 * e) + scaled (n * n) (2 * f)
    let radicand := square.num.natAbs * square.den * Nat.pow 2 128
    let root := Nat.sqrt radicand
    let odd := if root * root = radicand then 0 else 1
    nearestFloat false (2 * root + odd) (square.den * Nat.pow 2 65)
  | _, _ => x + y

end Yuml.Number
