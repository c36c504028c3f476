import Yuml.Document.Attributes
import Yuml.Xml.Declaration
import Yuml.Xml.Piece

namespace Yuml.Xml

structure Doctype where
  entities : List (Text × Option Text) := []
  rules : List AttributeRule := []
  standsAlone : Bool := false
  hasExternal : Bool := false
  isInterrupted : Bool := false

namespace Doctype

def accepts (d : Doctype) : Bool :=
  d.standsAlone || !d.isInterrupted

def isPartial (d : Doctype) : Bool :=
  !d.standsAlone && (d.hasExternal || d.isInterrupted)

def entity? (d : Doctype) (name : Text) : Option (Option Text) :=
  (d.entities.find? (·.1 = name)).map (·.2)

def addEntity (d : Doctype) (name : Text) (text : Option Text) : Doctype :=
  if (d.entity? name).isSome then d else { d with entities := d.entities ++ [(name, text)] }

def rulesOf (d : Doctype) (element : Text) : List AttributeRule :=
  d.rules.filter (·.element = element)

def addRule (d : Doctype) (r : AttributeRule) : Doctype :=
  if (d.rulesOf r.element).any (·.name = r.name) then d else { d with rules := d.rules ++ [r] }

def isTokenized (d : Doctype) (element name : Text) : Bool :=
  (d.rulesOf element).any fun r => r.name = name && r.isTokenized

def defaults (d : Doctype) (element : Text) : Attributes :=
  (d.rulesOf element).filterMap fun r => r.default.map (r.name, ·)

end Doctype

def entityText? (value : Text) : Option Text := do
  return (← (← pieces? value).mapM fun
    | .plain c => if c = '%' then none else some [c]
    | .numbered c => some [c]
    | .named name => some ('&' :: name ++ [';'])).flatten

end Yuml.Xml
