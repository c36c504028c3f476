namespace Yuml.Number

/-- The numbers a drawing is computed with: doubles when it is painted, exact ones when it is
reasoned about. -/
class Scalar (α : Type) where
  add : Add α := by infer_instance
  sub : Sub α := by infer_instance
  mul : Mul α := by infer_instance
  div : Div α := by infer_instance
  neg : Neg α := by infer_instance
  decimal : OfScientific α := by infer_instance
  beq : BEq α := by infer_instance
  less : α → α → Bool
  ofNat : Nat → α

-- where the type is known its own operations come first
instance (priority := low) {α : Type} [s : Scalar α] : Add α := s.add
instance (priority := low) {α : Type} [s : Scalar α] : Sub α := s.sub
instance (priority := low) {α : Type} [s : Scalar α] : Mul α := s.mul
instance (priority := low) {α : Type} [s : Scalar α] : Div α := s.div
instance (priority := low) {α : Type} [s : Scalar α] : Neg α := s.neg
instance (priority := low) {α : Type} [s : Scalar α] : OfScientific α := s.decimal
instance (priority := low) {α : Type} [s : Scalar α] : BEq α := s.beq

instance : Scalar Float where
  less x y := x < y
  ofNat n := n.toFloat

instance : Scalar Rat where
  less x y := x < y
  ofNat n := n

namespace Scalar

variable {α : Type} [Scalar α]

def larger (x y : α) : α :=
  if less x y then y else x

def smaller (x y : α) : α :=
  if less y x then y else x

def largest? : List α → Option α
  | [] => none
  | x :: xs => some (xs.foldl larger x)

def smallest? : List α → Option α
  | [] => none
  | x :: xs => some (xs.foldl smaller x)

def total (xs : List α) : α :=
  xs.foldl (· + ·) 0.0

def mean? (xs : List α) : Option α :=
  if xs.isEmpty then none else some (total xs / ofNat xs.length)

def magnitude (x : α) : α :=
  if less x 0.0 then -x else x

end Scalar

end Yuml.Number
