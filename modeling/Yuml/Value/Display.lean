import Yuml.Value.Basic
import Yuml.Text.Printable
import Yuml.Number.Shortest

namespace Yuml

def Direction.label (d : Direction) : Text :=
  "Direction." ++ d.code

def DiagramKind.label (k : DiagramKind) : Text :=
  "DiagramType." ++ match k with
    | classes => "Class"
    | useCases => "UseCase"
    | activity => "Activity"
    | state => "State"
    | deployment => "Deployment"
    | package => "Package"
    | sequence => "Sequence"

namespace Value

mutual

def shown : Value → Text
  | none => "None"
  | bool b => if b then "True" else "False"
  | int n => Text.ofInt n
  | float x => Number.shortest x
  | text s => Text.quoted s
  | list items => '[' :: Text.joinWith ", " (shownItems items) ++ [']']
  | mapping entries => '{' :: Text.joinWith ", " (shownEntries entries) ++ ['}']
  | direction d => '<' :: d.label ++ ": " ++ Text.quoted d.code ++ ['>']
  | kind k => '<' :: k.label ++ ": " ++ Text.quoted k.name ++ ['>']

def shownItems : List Value → List Text
  | [] => []
  | v :: vs => shown v :: shownItems vs

def shownEntries : List (Value × Value) → List Text
  | [] => []
  | (k, v) :: rest => (shown k ++ ": " ++ shown v) :: shownEntries rest

end

def display : Value → Text
  | text s => s
  | direction d => d.label
  | kind k => k.label
  | v => shown v

end Value

end Yuml
