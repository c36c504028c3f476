import Yuml.Drawing.Pen

namespace Yuml.Pen

open Number Xml Layered

def imageScheme : Text := "yuml:"

def rect (x y w h : Float) (more : Attributes) : Markup :=
  .tag "rect" (("x", fmt x) :: ("y", fmt y) :: ("width", fmt w) :: ("height", fmt h) :: more)

def circle (p : Place Float) (r : Float) (more : Attributes) : Markup :=
  .tag "circle" (("cx", fmt p.cx) :: ("cy", fmt p.cy) :: ("r", fmt r) :: more)

def polygon (ps : List Point) (more : Attributes) : Markup :=
  .tag "polygon" (("points", corners ps) :: more)

def centred (p : Place Float) (s : Text) (l : Lettering) : List Markup :=
  label p.cx (p.cy - (blockSize l.size s).2 / 2.0) s l "middle"

def separator (p : Place Float) (top : Float) (ink : Text) : Markup :=
  .tag "line" [("x1", fmt p.x), ("y1", fmt top), ("x2", fmt (p.x + p.width)), ("y2", fmt top),
    ("stroke", ink)]

def placeholderAttributes (x y width height : Float) : Attributes :=
  [("href", imageScheme ++ "actor"), ("x", fmt x), ("y", fmt y), ("width", fmt width), ("height", fmt height)]

def placeholder (x y width height : Float) : Markup :=
  .tag "image" (placeholderAttributes x y width height)

def actorPlaceholder (p : Place Float) : Markup :=
  placeholder (p.cx - actorWidth / 2.0) p.y actorWidth actorHeight

def lowerCompartment (p : Place Float) (l : Lettering) (ink : Text) (c : Compartment Float) :
    List Markup :=
  separator p c.top ink :: label (p.x + padX) (c.top + padY) c.text l "start"

def recordPicture (p : Place Float) (n : Node) (stroke : Attributes) (ink : Text) (l : Lettering) :
    List Markup :=
  rect p.x p.y p.width p.height stroke ::
    match stackCompartments l.size p.y n.compartments with
    | [] => []
    | name :: rest =>
      label p.cx (name.top + padY) name.text l "middle" ++ rest.flatMap (lowerCompartment p l ink)

def shapePicture (p : Place Float) (n : Node) (s : Style) : List Markup :=
  let l := s.nodeText
  let stroke : Attributes := [("fill", fillText n.fill), ("stroke", s.ink)]
  let solid : Attributes := [("fill", s.ink)]
  let x := p.x
  let y := p.y
  let w := p.width
  let h := p.height
  match n.shape with
  | .record => recordPicture p n stroke s.ink l
  | .start => [circle p (w / 2.0) solid]
  | .final =>
    [circle p (w / 2.0) [("fill", "none"), ("stroke", s.ink)], circle p (w / 2.0 - 4.0) solid]
  | .bar => [rect x y w h solid]
  | .actor => actorPlaceholder p :: label p.cx (y + actorHeight + 2.0) n.label l "middle"
  | .ellipse =>
    .tag "ellipse" (("cx", fmt p.cx) :: ("cy", fmt p.cy) :: ("rx", fmt (w / 2.0)) ::
        ("ry", fmt (h / 2.0)) :: stroke) :: centred p n.label l
  | .diamond =>
    polygon [⟨p.cx, y⟩, ⟨x + w, p.cy⟩, ⟨p.cx, y + h⟩, ⟨x, p.cy⟩] stroke :: centred p n.label l
  | .note =>
    let fold := 10.0
    polygon [⟨x, y⟩, ⟨x + w - fold, y⟩, ⟨x + w, y + fold⟩, ⟨x + w, y + h⟩, ⟨x, y + h⟩] stroke ::
      .tag "polyline" [("points", corners [⟨x + w - fold, y⟩, ⟨x + w - fold, y + fold⟩,
        ⟨x + w, y + fold⟩]), ("fill", "none"), ("stroke", s.ink)] :: centred p n.label l
  | .box3d =>
    let depth := 6.0
    polygon [⟨x, y + depth⟩, ⟨x + depth, y⟩, ⟨x + w, y⟩, ⟨x + w - depth, y + depth⟩] stroke ::
      polygon [⟨x + w - depth, y + depth⟩, ⟨x + w, y⟩, ⟨x + w, y + h - depth⟩,
        ⟨x + w - depth, y + h⟩] stroke ::
      rect x (y + depth) (w - depth) (h - depth) stroke :: centred p n.label l
  | .component =>
    let lug (offset : Float) : Markup :=
      .tag "rect"
        (("x", fmt x) :: ("y", fmt (y + offset)) :: ("width", "12") :: ("height", "6") :: stroke)
    rect (x + 6.0) y (w - 6.0) h stroke :: lug (h / 4.0) :: lug (h * 3.0 / 4.0 - 6.0) ::
      centred p n.label l
  | .tab =>
    .tag "rect" (("x", fmt x) :: ("y", fmt y) ::
        ("width", fmt (Scalar.smaller (w / 2.0) 30.0)) :: ("height", "8") :: stroke) ::
      rect x (y + 8.0) w (h - 8.0) stroke ::
      centred { p with y := y + 8.0, height := h - 8.0 } n.label l
  | .rounded =>
    let round : Attributes := [("rx", "10"), ("ry", "10")]
    rect x y w h (stroke ++ round) :: centred p n.label l
  | .box => rect x y w h stroke :: centred p n.label l

def nodePicture (p : Place Float) (n : Node) (s : Style) : Markup :=
  .tag "g" [("class", "node"), ("id", n.id)]
    (textElement "title" [] n.label :: shapePicture p n s)

end Yuml.Pen
