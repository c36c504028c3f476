import Yuml.Drawing.Pen

namespace Yuml.Pen

open Number Xml Layered

def pullBack (tip prev : Point) (distance : Float) : Point :=
  if distance == 0.0 then tip
  else
    let (ux, uy) := unit prev tip
    ⟨tip.x - ux * distance, tip.y - uy * distance⟩

def midpoint (ps : List Point) : Option Point :=
  let mid := ps.length / 2
  if ps.length % 2 = 1 then ps[mid]?
  else do
    let a ← ps[mid - 1]?
    let b ← ps[mid]?
    return ⟨(a.x + b.x) / 2.0, (a.y + b.y) / 2.0⟩

def endLabel (tip prev : Point) (s : Text) (l : Lettering) : List Markup :=
  let (ux, uy) := unit prev tip
  label (tip.x - ux * 14.0 - uy * 8.0) (tip.y - uy * 14.0 + ux * 8.0 - l.size / 2.0) s l "middle"

def midLabel (ps : List Point) (s : Text) (l : Lettering) : List Markup :=
  match midpoint ps with
  | none => []
  | some mid => label (mid.x + 4.0) (mid.y - (blockSize l.size s).2 / 2.0) s l "start"

def optional (s : Option Text) (draw : Text → List Markup) : List Markup :=
  match s with
  | none | some [] => []
  | some s => draw s

structure Ends where
  first : Point
  second : Point
  beforeLast : Point
  last : Point

def Ends.of? : List Point → Option Ends
  | first :: second :: rest =>
    let back := (first :: second :: rest).reverse
    match back with
    | last :: beforeLast :: _ => some ⟨first, second, beforeLast, last⟩
    | _ => none
  | _ => none

def linePicture (e : Edge) (ps : List Point) (ends : Ends) (s : Style) : List Markup :=
  let inner := (ps.drop 1).dropLast
  let line := pullBack ends.first ends.second (tipLength e.tailArrow) :: inner ++
    [pullBack ends.last ends.beforeLast (tipLength e.headArrow)]
  let dashes : Attributes := match e.style with
    | .solid => []
    | .dashed => [("stroke-dasharray", dash)]
  .tag "path" (("d", path line) :: ("fill", "none") :: ("stroke", s.edgeInk) :: dashes) ::
    arrow ends.beforeLast ends.last e.headArrow s.edgeInk ++
    arrow ends.second ends.first e.tailArrow s.edgeInk ++
    optional e.label (midLabel ps · s.edgeText) ++
    optional e.headLabel (endLabel ends.last ends.beforeLast · s.edgeText) ++
    optional e.tailLabel (endLabel ends.first ends.second · s.edgeText)

def edgePicture (r : Route Float) (s : Style) : Markup :=
  .tag "g" [("class", "edge")]
    (textElement "title" [] (r.edge.tail ++ "->" ++ r.edge.head) ::
      match Ends.of? r.waypoints with
      | none => []
      | some ends => linePicture r.edge r.waypoints ends s)

end Yuml.Pen
