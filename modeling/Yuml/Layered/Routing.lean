import Yuml.Layered.Placement
import Yuml.Document.Basic

namespace Yuml.Layered

open Number Scalar

variable {α : Type} [Scalar α]

structure Point (α : Type) where
  x : α
  y : α
  deriving Repr

structure Route (α : Type) where
  edge : Edge
  number : Nat
  waypoints : List (Point α)
  deriving Repr

def loopSize : α := 18.0

def parallelOffset : α := 10.0

def Place.centre (p : Place α) : Point α :=
  ⟨p.cx, p.cy⟩

def Place.moveTo (p : Place α) (c : Point α) : Place α :=
  { p with x := c.x - p.width / 2.0, y := c.y - p.height / 2.0 }

/-- The part of the way from the middle of a box to a point that lies inside, when both distances
are known by their components: the side that is met first decides. -/
def exitScale (p : Place α) (dx dy : α) : α :=
  let across := p.width / 2.0 / magnitude dx
  let up := p.height / 2.0 / magnitude dy
  if dx == 0.0 then up else if dy == 0.0 then across else smaller across up

def Place.clip (p : Place α) (toward : Point α) : Point α :=
  let dx := toward.x - p.cx
  let dy := toward.y - p.cy
  if dx == 0.0 && dy == 0.0 then p.centre
  else ⟨p.cx + dx * exitScale p dx dy, p.cy + dy * exitScale p dx dy⟩

def Place.loop (p : Place α) : List (Point α) :=
  let right := p.x + p.width
  let top := p.cy - p.height / 4.0
  let bottom := p.cy + p.height / 4.0
  [⟨right, top⟩, ⟨right + loopSize, top⟩, ⟨right + loopSize, bottom⟩, ⟨right, bottom⟩]

def bundle (edges : List Edge) (e : Edge) : List Nat :=
  (edges.zipIdx.filter fun (f, _) =>
    (f.tail == e.tail && f.head == e.head) || (f.tail == e.head && f.head == e.tail)).map (·.2)

def parallelShift (members : List Nat) (number : Nat) : α :=
  (ofNat (members.idxOf number) - ofNat (members.length - 1) / 2.0) * parallelOffset

def Point.shift (d : Direction) (distance : α) (p : Point α) : Point α :=
  if d.isHorizontal then ⟨p.x, p.y + distance⟩ else ⟨p.x + distance, p.y⟩

def placeOf (places : List (Place α)) (id : Text) : Except Failure (Place α) :=
  match places.find? (·.id == id) with
  | some p => .ok p
  | none => .error .missingPlace

def lineThrough (tail head : Place α) (first : Point α) (inner : List (Point α))
    (last : Point α) : List (Point α) :=
  let second := (inner ++ [last]).headD last
  let beforeLast := (first :: inner).getLastD first
  (tail.moveTo first).clip second :: inner ++ [(head.moveTo last).clip beforeLast]

/-- The dummies that an edge passes, from its tail to its head. A turned edge runs through the chain
of the opposite one. -/
def chainOf (a : Augmented) (turned : List (Text × Text)) (e : Edge) : List Text :=
  if turned.contains (e.tail, e.head) then (a.chain e.head e.tail).reverse
  else a.chain e.tail e.head

def route (d : Direction) (a : Augmented) (turned : List (Text × Text)) (places : List (Place α))
    (edges : List Edge) (e : Edge) (number : Nat) : Except Failure (Route α) := do
  let tail ← placeOf places e.tail
  if e.tail = e.head then return ⟨e, number, tail.loop⟩
  else
    let shift := parallelShift (bundle edges e) number
    let head ← placeOf places e.head
    let dummies ← (chainOf a turned e).mapM (placeOf places)
    return ⟨e, number, lineThrough tail head (tail.centre.shift d shift)
      (dummies.map fun p => p.centre.shift d shift) (head.centre.shift d shift)⟩

def routeAll (d : Direction) (a : Augmented) (turned : List (Text × Text)) (places : List (Place α))
    (edges : List Edge) : Except Failure (List (Route α)) :=
  edges.zipIdx.mapM fun (e, number) => route d a turned places edges e number

end Yuml.Layered
