import Yuml.Text.Basic

namespace Yuml

inductive Direction
  | topDown
  | leftToRight
  | rightToLeft
  deriving DecidableEq, Repr

namespace Direction

def all : List Direction :=
  [topDown, leftToRight, rightToLeft]

def code : Direction → Text
  | topDown => "TB"
  | leftToRight => "LR"
  | rightToLeft => "RL"

def ofCode? (s : Text) : Option Direction :=
  all.find? (·.code = s)

def word : Direction → Text
  | topDown => "topDown"
  | leftToRight => "leftToRight"
  | rightToLeft => "rightToLeft"

def ofWord? (s : Text) : Option Direction :=
  all.find? (·.word = s)

def isHorizontal : Direction → Bool
  | topDown => false
  | leftToRight | rightToLeft => true

end Direction

inductive DiagramKind
  | classes
  | useCases
  | activity
  | state
  | deployment
  | package
  | sequence
  deriving DecidableEq, Repr

namespace DiagramKind

def all : List DiagramKind :=
  [classes, useCases, activity, state, deployment, package, sequence]

def name : DiagramKind → Text
  | classes => "class"
  | useCases => "usecase"
  | activity => "activity"
  | state => "state"
  | deployment => "deployment"
  | package => "package"
  | sequence => "sequence"

def ofName? (s : Text) : Option DiagramKind :=
  all.find? (·.name = s)

end DiagramKind

inductive Shape
  | record
  | box
  | rounded
  | ellipse
  | start
  | final
  | diamond
  | bar
  | note
  | box3d
  | component
  | tab
  | actor
  deriving DecidableEq, Repr

namespace Shape

def all : List Shape :=
  [record, box, rounded, ellipse, start, final, diamond, bar, note, box3d, component, tab, actor]

def name : Shape → Text
  | record => "record"
  | box => "box"
  | rounded => "rounded"
  | ellipse => "ellipse"
  | start => "start"
  | final => "end"
  | diamond => "diamond"
  | bar => "bar"
  | note => "note"
  | box3d => "box3d"
  | component => "component"
  | tab => "tab"
  | actor => "actor"

def ofName? (s : Text) : Option Shape :=
  all.find? (·.name = s)

end Shape

inductive LineStyle
  | solid
  | dashed
  deriving DecidableEq, Repr

namespace LineStyle

def name : LineStyle → Text
  | solid => "solid"
  | dashed => "dashed"

def ofName? (s : Text) : Option LineStyle :=
  [solid, dashed].find? (·.name = s)

end LineStyle

inductive Arrow
  | none
  | vee
  | filled
  | triangle
  | diamond
  | filledDiamond
  deriving DecidableEq, Repr

namespace Arrow

def all : List Arrow :=
  [none, vee, filled, triangle, diamond, filledDiamond]

def name : Arrow → Text
  | none => "none"
  | vee => "vee"
  | filled => "normal"
  | triangle => "empty"
  | diamond => "odiamond"
  | filledDiamond => "diamond"

def ofName? (s : Text) : Option Arrow :=
  all.find? (·.name = s)

end Arrow

end Yuml
