import Yuml.Failure
import Yuml.Document.Basic

namespace Yuml

structure Theme where
  ink : Text
  background : Text
  paper : Text
  font : Text := "Helvetica"
  fontSize : Text := "10"
  deriving DecidableEq, Repr

namespace Theme

def light : Theme :=
  { ink := "#000000", background := "transparent", paper := "#ffffff" }

def dark : Theme :=
  { ink := "#e6e6e6", background := "transparent", paper := "#1e1e1e" }

def choose (isDark : Bool) : Theme :=
  if isDark then dark else light

def header (t : Theme) : Header where
  graph := [("bgcolor", t.background), ("fontname", t.font), ("fontsize", t.fontSize)]
  node := [("color", t.ink), ("fontcolor", t.ink), ("fillcolor", t.paper), ("fontname", t.font),
    ("fontsize", t.fontSize)]
  edge := [("color", t.ink), ("fontcolor", t.ink), ("fontname", t.font), ("fontsize", t.fontSize)]

end Theme

namespace Header

def overridesFor (overrides : List (Value × Value)) (name : Text) :
    Except Failure (List (Text × Text)) :=
  match Value.lookup name overrides with
  | none => .ok []
  | some (.mapping entries) => .ok (entries.map fun (k, v) => (k.display, v.display))
  | some v => if v.isTrue then .error .notAMapping else .ok []

def override (h : Header) (overrides : Value) : Except Failure Header :=
  match overrides with
  | .mapping entries => do
    let graph ← overridesFor entries "graph"
    let node ← overridesFor entries "node"
    let edge ← overridesFor entries "edge"
    return ⟨h.graph.setAll graph, h.node.setAll node, h.edge.setAll edge⟩
  | v => if v.isTrue then .error .notAMapping else .ok h

end Header

def Document.wrap (d : Document) (isDark : Bool) (overrides : Value) : Except Failure Document := do
  return { d with header := ← (Theme.choose isDark).header.override overrides }

end Yuml
