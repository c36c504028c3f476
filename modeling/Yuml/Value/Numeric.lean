import Yuml.Failure
import Yuml.Number.Reading

namespace Yuml.Value

def wholeFloat (n : Int) : Except Failure Float :=
  let x := Number.ofRat n
  if x.isFinite then .ok x else .error .numberTooLarge

def readFloat (s : Text) : Except Failure Float :=
  match Number.read? s with
  | some x => .ok x
  | .none => .error (.invalidNumber s)

def toFloat : Value → Except Failure Float
  | bool b => .ok (if b then 1 else 0)
  | int n => wholeFloat n
  | float x => .ok x
  | text s => readFloat s
  | _ => .error .notANumber

end Yuml.Value
