import Yuml.Drawing.Metrics
import Yuml.Drawing.Style
import Yuml.Layered.Routing
import Yuml.Number.Hundredths
import Yuml.Xml.Character
import Yuml.Xml.Item

namespace Yuml.Pen

open Number Xml

abbrev Point := Layered.Point Float

def dash : Text := "5,3"

def fillText (fill : Option Text) : Text :=
  match fill with
  | none | some [] => "none"
  | some colour => colour

def position (p : Point) : Text :=
  fmt p.x ++ ',' :: fmt p.y

def corners (ps : List Point) : Text :=
  Text.joinWith " " (ps.map position)

def path (ps : List Point) : Text :=
  'M' :: Text.joinWith " L" (ps.map position)

def textElement (name : Text) (a : Attributes) (s : Text) : Markup :=
  .tag name a (Item.ofText (legalText s))

def labelLine (x top : Float) (l : Lettering) (anchor : Text) (line : Text) (i : Nat) : Markup :=
  textElement "text"
    [("x", fmt x), ("y", fmt (baseline l.size top i)),
      ("font-family", l.font), ("font-size", fmt l.size), ("fill", l.color),
      ("text-anchor", anchor)] line

def label (x top : Float) (s : Text) (l : Lettering) (anchor : Text) : List Markup :=
  (labelLines s).zipIdx.map fun (line, i) => labelLine x top l anchor line i

def unit (a b : Point) : Float × Float :=
  let dx := b.x - a.x
  let dy := b.y - a.y
  let length := if hypot dx dy == 0.0 then 1.0 else hypot dx dy
  (dx / length, dy / length)

def canvasSize (width height : Float) : Attributes :=
  [("width", fmt width ++ "pt"), ("height", fmt height ++ "pt"),
    ("viewBox", "0 0 " ++ fmt width ++ ' ' :: fmt height)]

def canvas (width height : Float) (content : List Markup) : Markup :=
  .tag "svg" (("xmlns", "http://www.w3.org/2000/svg") :: canvasSize width height) content

def arrowLength : Float := 10.0

def arrowHalfWidth : Float := 5.0

def tipLength : Arrow → Float
  | .diamond | .filledDiamond => 2.0 * arrowLength
  | .filled | .triangle => arrowLength
  | .none | .vee => 0.0

def arrow (prev tip : Point) (kind : Arrow) (color : Text) : List Markup :=
  let (ux, uy) := unit prev tip
  let nx := -uy
  let ny := ux
  let base : Point := ⟨tip.x - ux * arrowLength, tip.y - uy * arrowLength⟩
  let left : Point := ⟨base.x + nx * arrowHalfWidth, base.y + ny * arrowHalfWidth⟩
  let right : Point := ⟨base.x - nx * arrowHalfWidth, base.y - ny * arrowHalfWidth⟩
  let back : Point := ⟨tip.x - 2.0 * ux * arrowLength, tip.y - 2.0 * uy * arrowLength⟩
  let closed (ps : List Point) (fill : Text) : List Markup :=
    [.tag "polygon" [("points", corners ps), ("fill", fill), ("stroke", color)]]
  match kind with
  | .none => []
  | .vee =>
    [.tag "polyline" [("points", corners [left, tip, right]), ("fill", "none"), ("stroke", color)]]
  | .filled => closed [left, tip, right] color
  | .triangle => closed [left, tip, right] "none"
  | .filledDiamond => closed [tip, left, back, right] color
  | .diamond => closed [tip, left, back, right] "none"

end Yuml.Pen
