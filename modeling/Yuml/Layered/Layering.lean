import Yuml.Failure
import Yuml.Graph.Generations
import Yuml.Graph.CycleRemoval

namespace Yuml.Layered

abbrev Layering (V : Type) := List (V × Int)

namespace Layering

variable {V : Type} [DecidableEq V]

def layer? (l : Layering V) (v : V) : Option Int :=
  (l.find? (·.1 = v)).map (·.2)

def set (v : V) (n : Int) : Layering V → Layering V
  | [] => [(v, n)]
  | (w, m) :: rest => if w = v then (w, n) :: rest else (w, m) :: set v n rest

def layer (l : Layering V) (v : V) : Except Failure Int :=
  match l.layer? v with
  | some n => .ok n
  | none => .error .missingLayer

def count : Layering V → Int
  | [] => 1
  | (_, n) :: rest => (rest.map (·.2)).foldl max n + 1

end Layering

variable {V : Type} [DecidableEq V]

def lower (g : Digraph V) (layers : Layering V) (v : V) : Except Failure (Layering V) :=
  (g.successors v).foldlM (fun layers w => do
    let own ← layers.layer w
    let above ← layers.layer v
    return layers.set w (max own (above + 1))) layers

def assignLayers (g : Digraph V) : Except Failure (Layering V) :=
  match g.generations? with
  | some generations => generations.flatten.foldlM (lower g) (g.nodes.map fun v => (v, 0))
  | none => .error .cyclicGraph

end Yuml.Layered
