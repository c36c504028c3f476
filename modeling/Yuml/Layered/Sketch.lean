import Yuml.Document.Basic
import Yuml.Graph.CycleRemoval
import Yuml.Graph.Generations
import Yuml.Number.Scalar

namespace Yuml.Layered

/-- A document reduced to what a layout needs: the graph of its ids, the sizes of its nodes, its
edges one by one, and its direction. -/
structure Sketch (α : Type) where
  graph : Digraph Text
  direction : Direction
  size : Text → α × α
  edges : List Edge
  edge_mem : ∀ e ∈ edges, (e.tail, e.head) ∈ graph.edges

namespace Sketch

variable {α : Type} [Number.Scalar α]

def sizeIn (sizes : List (Text × (α × α))) (id : Text) : α × α :=
  ((sizes.reverse.find? (·.1 = id)).map (·.2)).getD (0.0, 0.0)

def ofDocument (d : Document) (sizes : List (Text × (α × α))) : Sketch α where
  graph := Digraph.ofLists (d.nodes.map (·.id)) (d.edges.map fun e => (e.tail, e.head))
  direction := d.direction
  size := sizeIn sizes
  edges := d.edges
  edge_mem _ he :=
    Digraph.mem_edges_ofLists.mpr (List.mem_map_of_mem (f := fun e => (e.tail, e.head)) he)

def note {K : Type} [DecidableEq K] (key : K) (number : Nat) : List (K × List Nat) → List (K × List Nat)
  | [] => [(key, [number])]
  | (k, numbers) :: rest =>
    if k = key then (k, numbers ++ [number]) :: rest else (k, numbers) :: note key number rest

def entries (s : Sketch α) : List ((Text × Text) × List Nat) :=
  s.edges.zipIdx.foldl (fun entries e => note (e.1.tail, e.1.head) e.2 entries) []

def numbersOf (s : Sketch α) (tail head : Text) : List Nat :=
  ((s.entries.find? (·.1 = (tail, head))).map (·.2)).getD []

end Sketch

end Yuml.Layered
