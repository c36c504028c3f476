import Yuml.Diagram.Vocabulary
import Yuml.Document.Attributes

namespace Yuml

structure Node where
  id : Text
  label : Text
  shape : Shape := .box
  fields : List Text := []
  fill : Option Text := none
  deriving DecidableEq, Repr

def Node.compartments (n : Node) : List Text :=
  if n.fields.isEmpty then [n.label] else n.fields

structure Edge where
  tail : Text
  head : Text
  style : LineStyle := .solid
  headArrow : Arrow := .none
  tailArrow : Arrow := .none
  label : Option Text := none
  headLabel : Option Text := none
  tailLabel : Option Text := none
  deriving DecidableEq, Repr

structure Header where
  graph : Attributes := []
  node : Attributes := []
  edge : Attributes := []
  deriving DecidableEq, Repr

structure Document where
  direction : Direction := .topDown
  nodes : List Node := []
  edges : List Edge := []
  attributes : Attributes := []
  header : Option Header := none
  deriving DecidableEq, Repr

namespace Document

def node? (d : Document) (id : Text) : Option Node :=
  d.nodes.find? (·.id = id)

def addNode (d : Document) (n : Node) : Document :=
  if (d.node? n.id).isSome then d else { d with nodes := d.nodes ++ [n] }

def addEdge (d : Document) (e : Edge) : Document :=
  { d with edges := d.edges ++ [e] }

def modifyNode (d : Document) (id : Text) (f : Node → Node) : Document :=
  { d with nodes := change d.nodes }
where
  change : List Node → List Node
    | [] => []
    | n :: ns => if n.id = id then f n :: ns else n :: change ns

end Document

end Yuml
