import Yuml.Document.Basic

namespace Yuml

/-- A document under construction. Each key stands for one node; the nodes are numbered in the order
in which their keys are first met. -/
structure Registry (κ : Type) where
  document : Document
  known : List (κ × Text) := []

namespace Registry

variable {κ : Type} [DecidableEq κ]

def id? (r : Registry κ) (key : κ) : Option Text :=
  (r.known.find? (·.1 = key)).map (·.2)

def nodeId (number : Nat) : Text :=
  'A' :: Text.ofNat (number + 1)

def nextId (r : Registry κ) : Text :=
  nodeId r.known.length

def add (r : Registry κ) (key : κ) (build : Text → Node) : Registry κ × Text :=
  match r.id? key with
  | some id => (r, id)
  | none =>
    let n := build r.nextId
    (⟨r.document.addNode n, r.known ++ [(key, n.id)]⟩, n.id)

end Registry

end Yuml
