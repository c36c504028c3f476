import Yuml.Layered.Dummies

namespace Yuml.Layered

variable {V : Type} [DecidableEq V]

def position? (v : V) : List V → Option Nat
  | [] => none
  | w :: ws =>
    match position? v ws with
    | some i => some (i + 1)
    | none => if w = v then some 0 else none

def segments (g : Digraph V) (upper lower : List V) : List (Nat × Nat) :=
  upper.zipIdx.flatMap fun (v, i) =>
    (g.successors v).filterMap fun w => (position? w lower).map (i, ·)

def cross (a b : Nat × Nat) : Bool :=
  (a.1 < b.1 && b.2 < a.2) || (b.1 < a.1 && a.2 < b.2)

def crossingPairs : List (Nat × Nat) → Nat
  | [] => 0
  | s :: rest => rest.countP (cross s) + crossingPairs rest

def crossings (g : Digraph V) : List (List V) → Nat
  | upper :: lower :: rest => crossingPairs (segments g upper lower) + crossings g (lower :: rest)
  | _ => 0

def crossings? (g : Digraph V) (rows : List (List V)) : Except Failure Nat :=
  if rows.dropLast.all fun row => row.all g.nodes.contains then .ok (crossings g rows)
  else .error .unknownNode

abbrev Mean := Nat × Nat

def Mean.le (a b : Mean) : Bool :=
  a.1 * b.2 ≤ b.1 * a.2

def barycentre (neighbours : V → List V) (fixed : List V) (v : V) (i : Nat) : Mean :=
  let places := (neighbours v).filterMap (position? · fixed)
  if places.isEmpty then (i, 1) else (places.foldl (· + ·) 0, places.length)

def sortRow (neighbours : V → List V) (fixed row : List V) : List V :=
  ((row.zipIdx.map fun (v, i) => (barycentre neighbours fixed v i, v)).mergeSort
    fun a b => a.1.le b.1).map (·.2)

def sweepFrom (neighbours : V → List V) : List V → List (List V) → List (List V)
  | _, [] => []
  | fixed, row :: rows =>
    sortRow neighbours fixed row :: sweepFrom neighbours (sortRow neighbours fixed row) rows

def sweep (neighbours : V → List V) : List (List V) → List (List V)
  | [] => []
  | first :: rows => first :: sweepFrom neighbours first rows

def pass (g : Digraph V) (rows : List (List V)) : List (List V) :=
  (sweep g.successors (sweep g.predecessors rows).reverse).reverse

def improve (g : Digraph V) : Nat → List (List V) → List (List V)
  | 0, rows => rows
  | n + 1, rows =>
    if crossings g rows = 0 ∨ crossings g rows ≤ crossings g (pass g rows) then rows
    else improve g n (pass g rows)

def maxPasses : Nat := 24

namespace Augmented

/-- The row of a layer number. A negative one counts from the last row. -/
def rowOf (a : Augmented) (v : Text) : Except Failure Nat := do
  let n ← a.layers.layer v
  let row := if n < 0 then n + a.layerCount else n
  if 0 ≤ row ∧ row < a.layerCount then return row.toNat else throw .noSuchLayer

def rows (a : Augmented) : Except Failure (List (List Text)) := do
  let placed ← a.graph.nodes.mapM fun v => return (v, ← a.rowOf v)
  return (List.range a.layerCount.toNat).map fun k =>
    (placed.filter (·.2 = k)).map (·.1)

def arrange (a : Augmented) : Except Failure (List (List Text)) := do
  return improve a.graph maxPasses (← a.rows)

end Augmented

end Yuml.Layered
