import Yuml.Drawing.NodePicture
import Yuml.Drawing.EdgePicture
import Yuml.Layered.Layout
import Yuml.Xml.Writer

namespace Yuml

open Number Xml Layered

namespace Layered.Layout

def gapOption (options : List (Value × Value)) (name : Text) (otherwise : Float) :
    Except Failure Float :=
  match Value.lookup name options with
  | none => .ok otherwise
  | some v => v.toFloat

def gaps (options : Value) : Except Failure (Float × Float) :=
  match options with
  | .mapping entries => do
    let rankGap ← gapOption entries "v_gap" defaultRankGap
    let nodeGap ← gapOption entries "h_gap" defaultNodeGap
    return (rankGap, nodeGap)
  | v => if v.isTrue then .error .notAMapping else .ok (defaultRankGap, defaultNodeGap)

def ofDocument (d : Document) (options : Value) : Except Failure (Layout Float) := do
  let style ← Style.ofHeader d.header
  let sizes := d.nodes.map fun n => (n.id, n.measure style.nodeText.size d.direction)
  let (rankGap, nodeGap) ← gaps options
  ofSketch (Sketch.ofDocument d sizes) rankGap nodeGap

end Layered.Layout

namespace Document

def background (s : Style) : List Markup :=
  if s.background = "transparent" then []
  else [.tag "rect" [("width", "100%"), ("height", "100%"), ("fill", s.background)]]

def pictureOf (d : Document) (s : Style) (l : Layout Float) : Except Failure Markup := do
  let edges := l.routes.map fun r => Pen.edgePicture r s
  let nodes ← d.nodes.mapM fun n => return Pen.nodePicture (← placeOf l.nodes n.id) n s
  let others := (l.nodes.filter fun p => (d.node? p.id).isNone).map fun p =>
    Pen.nodePicture p { id := p.id, label := p.id } s
  return Pen.canvas l.width l.height
    (background s ++ [.tag "g" [("class", "graph")] (edges ++ nodes ++ others)])

def picture (d : Document) (options : Value) : Except Failure Markup := do
  let style ← Style.ofHeader d.header
  d.pictureOf style (← Layout.ofDocument d options)

def paint (d : Document) (options : Value) : Except Failure Text := do
  return (← d.picture options).write

end Document

end Yuml
