import Yuml.Drawing.Theme
import Yuml.Value.Numeric

namespace Yuml

structure Lettering where
  font : Text
  size : Float
  color : Text

structure Style where
  ink : Text
  background : Text
  nodeText : Lettering
  edgeInk : Text
  edgeText : Lettering

def Header.style (h : Header) (nodeSize edgeSize : Float) : Style :=
  let ink := h.node.getD "color" Theme.light.ink
  let font := h.node.getD "fontname" Theme.light.font
  let edgeInk := h.edge.getD "color" ink
  { ink, edgeInk
    background := h.graph.getD "bgcolor" Theme.light.background
    nodeText := ⟨font, nodeSize, h.node.getD "fontcolor" ink⟩
    edgeText := ⟨h.edge.getD "fontname" font, edgeSize, h.edge.getD "fontcolor" edgeInk⟩ }

def Style.ofHeader (header : Option Header) : Except Failure Style := do
  let h := header.getD {}
  let nodeSize ← Value.readFloat (h.node.getD "fontsize" Theme.light.fontSize)
  let edgeSize ← match h.edge.get? "fontsize" with
    | some s => Value.readFloat s
    | none => pure nodeSize
  return h.style nodeSize edgeSize

end Yuml
