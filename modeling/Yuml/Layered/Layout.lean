import Yuml.Layered.Routing
import Yuml.Layered.Sketch

namespace Yuml.Layered

open Number Scalar

structure Arrangement where
  augmented : Augmented
  turned : List (Text × Text)
  rows : List (List Text)

def Arrangement.ofGraph (g : Digraph Text) : Except Failure Arrangement := do
  let unwound := g.removeCycles
  let layers ← assignLayers unwound.dag
  let augmented ← insertDummies unwound.dag layers
  let rows ← augmented.arrange
  return ⟨augmented, unwound.turned, rows⟩

variable {α : Type} [Scalar α]

structure Layout (α : Type) where
  nodes : List (Place α)
  dummies : List (Place α)
  routes : List (Route α)
  direction : Direction
  width : α
  height : α

namespace Layout

def node? (l : Layout α) (id : Text) : Option (Place α) :=
  l.nodes.find? (·.id == id)

def reach (coordinates : List α) : α :=
  (largest? coordinates).getD 0.0 + margin

def ofArrangement (s : Sketch α) (a : Arrangement) (rankGap nodeGap : α) :
    Except Failure (Layout α) := do
  let places := (Plan.mk s.direction s.size rankGap nodeGap).places a.augmented.graph a.rows
  let routes ← routeAll s.direction a.augmented a.turned places s.edges
  let nodes ← s.graph.nodes.mapM (placeOf places)
  let waypoints := routes.flatMap (·.waypoints)
  return {
    nodes, routes
    dummies := places.filter fun p => isDummy p.id
    direction := s.direction
    width := reach (nodes.map (fun p => p.x + p.width) ++ waypoints.map (·.x))
    height := reach (nodes.map (fun p => p.y + p.height) ++ waypoints.map (·.y)) }

def ofSketch (s : Sketch α) (rankGap nodeGap : α) : Except Failure (Layout α) := do
  ofArrangement s (← Arrangement.ofGraph s.graph) rankGap nodeGap

end Layout

def defaultRankGap : α := 50.0

def defaultNodeGap : α := 30.0

end Yuml.Layered
