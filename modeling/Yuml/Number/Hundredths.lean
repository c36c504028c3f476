import Yuml.Text.Basic
import Yuml.Number.Binary

namespace Yuml.Number

def decimalsOf (n : Nat) : Text :=
  let tenth := n / 10 % 10
  let last := n % 10
  if last ≠ 0 then [Nat.digitChar tenth, Nat.digitChar last]
  else if tenth ≠ 0 then [Nat.digitChar tenth]
  else []

def pointed : Text → Text
  | [] => []
  | d :: ds => '.' :: d :: ds

def hundredthsText (n : Int) : Text :=
  (if n < 0 then ['-'] else []) ++ (Text.ofNat (n.natAbs / 100) ++ pointed (decimalsOf n.natAbs))

def ratText (q : Rat) : Text :=
  hundredthsText (roundPlaces 2 q)

def fmt (x : Float) : Text :=
  match Double.ofFloat x with
  | .nan => "nan"
  | .infinite negative => if negative then "-inf" else "inf"
  | .finite negative m e => ratText (if negative then -scaled m e else scaled m e)

def fixedText (places : Nat) (n : Int) : Text :=
  let digits := Text.ofNat n.natAbs
  let padded := List.replicate (places + 1 - digits.length) '0' ++ digits
  let cut := padded.length - places
  (if n < 0 then ['-'] else []) ++ padded.take cut ++ '.' :: padded.drop cut

end Yuml.Number
