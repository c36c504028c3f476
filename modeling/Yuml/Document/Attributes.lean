import Yuml.Text.Basic

namespace Yuml

abbrev Attributes := List (Text × Text)

namespace Attributes

def set (name value : Text) : Attributes → Attributes
  | [] => [(name, value)]
  | (n, v) :: rest => if n = name then (n, value) :: rest else (n, v) :: set name value rest

def setAll (a : Attributes) (pairs : List (Text × Text)) : Attributes :=
  pairs.foldl (fun a p => a.set p.1 p.2) a

def get? (a : Attributes) (name : Text) : Option Text :=
  (a.find? (·.1 = name)).map (·.2)

def getD (a : Attributes) (name otherwise : Text) : Text :=
  (a.get? name).getD otherwise

end Attributes

end Yuml
