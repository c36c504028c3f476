import Yuml.Layered.Crossings
import Yuml.Number.Scalar

namespace Yuml.Layered

open Number Scalar

variable {α : Type} [Scalar α]

structure Extent (α : Type) where
  breadth : α
  depth : α
  deriving Repr

structure Place (α : Type) where
  id : Text
  layer : Nat
  order : Nat
  x : α
  y : α
  width : α
  height : α
  deriving Repr

def Place.cx (p : Place α) : α :=
  p.x + p.width / 2.0

def Place.cy (p : Place α) : α :=
  p.y + p.height / 2.0

def margin : α := 8.0

def dummyBreadth : α := 10.0

structure Plan (α : Type) where
  direction : Direction
  size : Text → α × α
  rankGap : α
  nodeGap : α

namespace Plan

variable (p : Plan α)

def extent (id : Text) : Extent α :=
  if isDummy id then ⟨dummyBreadth, 0.0⟩
  else if p.direction.isHorizontal then ⟨(p.size id).2, (p.size id).1⟩
  else ⟨(p.size id).1, (p.size id).2⟩

def rowDepth (row : List Text) : α :=
  (largest? (row.map fun id => (p.extent id).depth)).getD 0.0

def rowStarts : α → List α → List α × α
  | next, [] => ([], next)
  | next, depth :: depths =>
    let (starts, last) := rowStarts (next + (depth + p.rankGap)) depths
    (next :: starts, last)

def bands (next : α) (rows : List (List Text)) : List (List Text × α) :=
  rows.zip (p.rowStarts next (rows.map p.rowDepth)).1

def bandsEnd (next : α) (rows : List (List Text)) : α :=
  (p.rowStarts next (rows.map p.rowDepth)).2

def totalDepth (rows : List (List Text)) : α :=
  larger 0.0 (p.bandsEnd 0.0 rows - p.rankGap)

def packFrom : α → List Text → List (Text × α)
  | _, [] => []
  | start, id :: ids =>
    let breadth := (p.extent id).breadth
    (id, start + breadth / 2.0) :: packFrom (start + (breadth + p.nodeGap)) ids

def spreadFrom (wanted : Text → α) : Option α → List Text → List (Text × α)
  | _, [] => []
  | edge, id :: ids =>
    let half := (p.extent id).breadth / 2.0
    let middle := match edge with
      | none => wanted id
      | some right => larger (wanted id) (right + p.nodeGap + half)
    (id, middle) :: spreadFrom wanted (some (middle + half)) ids

end Plan

/-- The middles of nodes along their layers; a later move of a node stands before an earlier one. -/
abbrev Middles (α : Type) := List (Text × α)

def Middles.at (m : Middles α) (id : Text) : α :=
  ((m.find? (·.1 = id)).map (·.2)).getD 0.0

namespace Plan

variable (p : Plan α)

def wanted (neighbours : Text → List Text) (m : Middles α) (id : Text) : α :=
  (mean? ((neighbours id).map m.at)).getD (m.at id)

def settle (neighbours : Text → List Text) (m : Middles α) (row : List Text) : Middles α :=
  p.spreadFrom (wanted neighbours m) none row ++ m

def packed (rows : List (List Text)) : Middles α :=
  rows.flatMap (p.packFrom 0.0)

def middles (g : Digraph Text) (rows : List (List Text)) : Middles α :=
  let down := rows.tail.foldl (p.settle g.predecessors) (p.packed rows)
  rows.dropLast.reverse.foldl (p.settle g.successors) down

def lowest (m : Middles α) (rows : List (List Text)) : α :=
  (smallest? (rows.flatten.map fun id => m.at id - (p.extent id).breadth / 2.0)).getD 0.0

def placeAt (low total : α) (middle start rowDepth : α) (layer order : Nat) (id : Text) : Place α :=
  let e := p.extent id
  let along := middle - low - e.breadth / 2.0 + margin
  let down := start + (rowDepth - e.depth) / 2.0
  let across := (if p.direction = .rightToLeft then total - down - e.depth else down) + margin
  if p.direction.isHorizontal then ⟨id, layer, order, across, along, e.depth, e.breadth⟩
  else ⟨id, layer, order, along, across, e.breadth, e.depth⟩

def places (g : Digraph Text) (rows : List (List Text)) : List (Place α) :=
  let m := p.middles g rows
  let low := p.lowest m rows
  let total := p.totalDepth rows
  (p.bands 0.0 rows).zipIdx.flatMap fun ((row, start), layer) =>
    row.zipIdx.map fun (id, order) =>
      p.placeAt low total (m.at id) start (p.rowDepth row) layer order id

end Plan

end Yuml.Layered
