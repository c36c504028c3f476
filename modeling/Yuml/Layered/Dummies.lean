import Yuml.Layered.Layering

namespace Yuml.Layered

def dummyPrefix : Text := "__dummy_"

def dummyName (edge step : Nat) : Text :=
  dummyPrefix ++ Text.ofNat edge ++ '_' :: Text.ofNat step

def isDummy (id : Text) : Bool :=
  dummyPrefix.isPrefixOf id

/-- A graph in which chains of dummies stand for the edges that span several layers. -/
structure Augmented where
  graph : Digraph Text
  layers : Layering Text
  chains : List ((Text × Text) × List Text) := []

namespace Augmented

def chain (a : Augmented) (tail head : Text) : List Text :=
  ((a.chains.find? (·.1 = (tail, head))).map (·.2)).getD []

def layerCount (a : Augmented) : Int :=
  a.layers.count

def addDummy (a : Augmented) (prev dummy : Text) (layer : Int) : Augmented :=
  { a with
    graph := (a.graph.addNode dummy).addEdge prev dummy
    layers := a.layers.set dummy layer }

@[simp]
theorem layers_addDummy (a : Augmented) (prev dummy : Text) (layer : Int) :
    (a.addDummy prev dummy layer).layers = a.layers.set dummy layer := rfl

@[simp]
theorem chains_addDummy (a : Augmented) (prev dummy : Text) (layer : Int) :
    (a.addDummy prev dummy layer).chains = a.chains := rfl

def addChain (edge : Nat) (tail : Text) :
    List Nat → Text → Augmented → Except Failure (Augmented × Text)
  | [], prev, a => .ok (a, prev)
  | step :: steps, prev, a => do
    let dummy := dummyName edge step
    let top ← a.layers.layer tail
    addChain edge tail steps dummy (a.addDummy prev dummy (top + step))

def addEdge (a : Augmented) (edge : Nat) (tail head : Text) : Except Failure Augmented := do
  let bottom ← a.layers.layer head
  let top ← a.layers.layer tail
  let span := bottom - top
  if span ≤ 1 then
    return { a with graph := a.graph.addEdge tail head }
  else
    let steps := (List.range (span.toNat - 1)).map (· + 1)
    let (a, last) ← addChain edge tail steps tail a
    return { a with
      graph := a.graph.addEdge last head
      chains := a.chains ++ [((tail, head), steps.map (dummyName edge))] }

end Augmented

def insertDummies (g : Digraph Text) (layers : Layering Text) : Except Failure Augmented :=
  g.edgesByTail.zipIdx.foldlM (fun a (e, number) => a.addEdge number e.1 e.2)
    ⟨Digraph.ofLists g.nodes [], layers, []⟩

end Yuml.Layered
