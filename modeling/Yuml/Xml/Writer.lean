import Yuml.Xml.Item

namespace Yuml.Xml

def escapeChar (c : Char) : Text :=
  if c = '&' then "&amp;"
  else if c = '<' then "&lt;"
  else if c = '>' then "&gt;"
  else [c]

/-- A character of an attribute's value between double quotes. White space other than the plain
space is written by its number, so that reading keeps it. -/
def escapeAttributeChar (c : Char) : Text :=
  if c = '"' then "&quot;"
  else if c = '\r' then "&#13;"
  else if c = '\n' then "&#10;"
  else if c = '\t' then "&#09;"
  else escapeChar c

def escape (s : Text) : Text :=
  s.flatMap escapeChar

def escapeAttribute (s : Text) : Text :=
  s.flatMap escapeAttributeChar

def writeAttributes (a : Attributes) : Text :=
  a.flatMap fun p => ' ' :: p.1 ++ "=\"" ++ escapeAttribute p.2 ++ ['"']

namespace Item

mutual

def write : Markup → Text
  | text s => escape s
  | element name attributes children =>
    let head := '<' :: name ++ writeAttributes attributes
    if children.isEmpty then head ++ " />"
    else head ++ '>' :: writeAll children ++ "</" ++ name ++ ['>']

def writeAll : List Markup → Text
  | [] => []
  | i :: is => write i ++ writeAll is

end

end Item

end Yuml.Xml
