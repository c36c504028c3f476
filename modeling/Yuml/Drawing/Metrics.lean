import Yuml.Document.Basic
import Yuml.Number.Scalar

namespace Yuml

open Number Scalar

variable {α : Type} [Scalar α]

def labelLines (s : Text) : List Text :=
  Text.pieces (· == '\n') s

def charWidth (size : α) : α :=
  size * 0.6

def lineHeight (size : α) : α :=
  size * 1.3

def baseline (size top : α) (i : Nat) : α :=
  top + ofNat i * lineHeight size + size

def longestLine (s : Text) : Nat :=
  (labelLines s).foldl (fun n l => max n l.length) 0

def blockSize (size : α) (s : Text) : α × α :=
  (ofNat (longestLine s) * charWidth size, ofNat (labelLines s).length * lineHeight size)

def padX : α := 8.0

def padY : α := 4.0

def actorWidth : α := 30.0

def actorHeight : α := 40.0

structure Compartment (α : Type) where
  text : Text
  top : α
  height : α
  deriving Repr

def compartmentHeight (size : α) (s : Text) : α :=
  (blockSize size s).2 + 2.0 * padY

def stackCompartments (size : α) : α → List Text → List (Compartment α)
  | _, [] => []
  | top, s :: rest =>
    ⟨s, top, compartmentHeight size s⟩ ::
      stackCompartments size (top + compartmentHeight size s) rest

def recordSize (size : α) (compartments : List Text) : α × α :=
  ((largest? (compartments.map fun s => (blockSize size s).1)).getD 0.0 + 2.0 * padX,
    total (compartments.map (compartmentHeight size)))

def Node.measure (n : Node) (size : α) (d : Direction) : α × α :=
  let block := blockSize size n.label
  let width := block.1 + 2.0 * padX
  let height := block.2 + 2.0 * padY
  match n.shape with
  | .start => (16.0, 16.0)
  | .final => (20.0, 20.0)
  | .bar => if d.isHorizontal then (6.0, 60.0) else (60.0, 6.0)
  | .record => recordSize size n.compartments
  | .actor => (larger actorWidth block.1, actorHeight + block.2 + 2.0)
  | .ellipse => (width * 1.25, height * 1.5)
  | .diamond => (larger (width * 1.5) 30.0, larger (height * 1.5) 30.0)
  | .note => (width + 10.0, height)
  | .box3d | .component => (width + 12.0, height + 6.0)
  | .tab => (width, height + 8.0)
  | .box | .rounded => (larger width 20.0, height)

end Yuml
