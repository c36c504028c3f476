import Yuml.Document.Basic

namespace Yuml.Dot

def escapeChar (c : Char) : Text :=
  if c = '\\' then "\\\\"
  else if c = '"' then "\\\""
  else if c = '\n' then "\\n"
  else [c]

def quote (s : Text) : Text :=
  '"' :: s.flatMap escapeChar ++ ['"']

def attributeList (a : Attributes) : Text :=
  '[' :: Text.joinWith ", " (a.map fun p => p.1 ++ '=' :: quote p.2) ++ [']']

def graphAttributes (d : Document) : Attributes :=
  let own := Attributes.setAll [("rankdir", d.direction.code)] d.attributes
  match d.header with
  | none => own
  | some h => Attributes.setAll h.graph own

def nodeAttributes (n : Node) : Attributes :=
  let label := if n.fields.isEmpty then n.label else Text.joinWith "|" n.fields
  let fill : Attributes := match n.fill with
    | none | some [] => []
    | some colour => [("style", "filled"), ("fillcolor", colour)]
  ("shape", n.shape.name) :: ("label", label) :: fill

def labelAttribute (name : Text) (label : Option Text) : Attributes :=
  match label with
  | none | some [] => []
  | some s => [(name, s)]

def edgeAttributes (e : Edge) : Attributes :=
  let drawn : Attributes := [("dir", "both"), ("style", e.style.name),
    ("arrowhead", e.headArrow.name), ("arrowtail", e.tailArrow.name)]
  drawn ++ labelAttribute "label" e.label ++ labelAttribute "headlabel" e.headLabel ++
    labelAttribute "taillabel" e.tailLabel

def nodeLine (n : Node) : Text :=
  "  " ++ quote n.id ++ ' ' :: attributeList (nodeAttributes n)

def edgeLine (e : Edge) : Text :=
  "  " ++ quote e.tail ++ " -> " ++ quote e.head ++ ' ' :: attributeList (edgeAttributes e)

def defaultLine (name : Text) (a : Attributes) : List Text :=
  if a.isEmpty then [] else ["  " ++ name ++ ' ' :: attributeList a]

def bodyLines (d : Document) : List Text :=
  let h := d.header.getD {}
  ("  graph " ++ attributeList (graphAttributes d)) :: defaultLine "node" h.node ++
    defaultLine "edge" h.edge ++ d.nodes.map nodeLine ++ d.edges.map edgeLine

def print (d : Document) : Text :=
  ("digraph G " ++ ['{']) ++ '\n' :: (bodyLines d).flatMap (· ++ ['\n']) ++ ['}', '\n']

end Yuml.Dot
