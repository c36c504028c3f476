import Yuml.Document.Attributes

namespace Yuml.Xml

inductive Item (ν : Type)
  | element (name : ν) (attributes : List (ν × Text)) (children : List (Item ν))
  | text (s : Text)

abbrev Markup := Item Text

namespace Item

variable {ν : Type}

def ofText (s : Text) : List (Item ν) :=
  if s.isEmpty then [] else [text s]

def tag (name : Text) (attributes : Attributes) (children : List Markup := []) : Markup :=
  element name attributes children

def isElement : Item ν → Bool
  | element _ _ _ => true
  | text _ => false

mutual

def allText : Item ν → Text
  | element _ _ children => allTexts children
  | text s => s

def allTexts : List (Item ν) → Text
  | [] => []
  | i :: is => allText i ++ allTexts is

end

end Item

end Yuml.Xml
