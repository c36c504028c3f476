import Yuml.Value.Numeric
import Yuml.Xml.Namespace

namespace Yuml

open Xml

structure Icon where
  width : Float
  height : Float
  children : List Tree

namespace Icon

def attribute? (attributes : List (Name × Text)) (name : Text) : Option Text :=
  (attributes.find? (·.1 = ⟨none, name⟩)).map (·.2)

def viewBoxSize (s : Text) : Except Failure (Float × Float) := do
  -- a fifth number is read before it is found to be one too many
  let numbers ← ((Text.words s).take 5).mapM Value.readFloat
  match numbers with
  | [_, _, width, height] => return (width, height)
  | _ => throw (if numbers.length < 4 then .shortViewBox numbers.length else .longViewBox)

def sizeOf (attributes : List (Name × Text)) : Except Failure (Float × Float) :=
  match attribute? attributes "viewBox" with
  | none | some [] => do
    let width ← Value.readFloat ((attribute? attributes "width").getD "1")
    let height ← Value.readFloat ((attribute? attributes "height").getD "1")
    return (width, height)
  | some s => viewBoxSize s

def read (source : Text) : Except Failure Icon :=
  match readTree? source with
  | some (.element _ attributes children) => do
    let (width, height) ← sizeOf attributes
    return ⟨width, height, children.dropWhile (!·.isElement)⟩
  | _ => throw .malformedXml

end Icon

abbrev IconLibrary := List (Text × Icon)

namespace IconLibrary

/-- The name of an icon file without its last extension; a leading dot starts no extension. -/
def nameOf (file : Text) : Text :=
  let base := ((file.reverse.dropWhile (· != '.')).drop 1).reverse
  if base.isEmpty then file else base

def ofFiles (files : List (Text × Text)) : Except Failure IconLibrary :=
  ((files.filter fun f => (Text.dropSuffix? ".svg" f.1).isSome).mergeSort
    fun a b => !(b.1 < a.1)).mapM fun (file, source) => return (nameOf file, ← Icon.read source)

def actorSource : Text :=
  "<svg xmlns=\"http://www.w3.org/2000/svg\" viewBox=\"0 0 30 40\">
  <circle cx=\"15\" cy=\"6\" r=\"5\"/>
  <path d=\"M15 11 L15 26 M4 16 L26 16 M15 26 L6 38 M15 26 L24 38\"/>
</svg>
"

def bundled : Except Failure IconLibrary :=
  ofFiles [("actor.svg", actorSource)]

end IconLibrary

end Yuml
