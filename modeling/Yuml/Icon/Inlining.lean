import Yuml.Icon.Basic
import Yuml.Drawing.NodePicture

namespace Yuml.IconLibrary

open Xml Number

def imageName : Name :=
  ⟨some svgSpace, "image"⟩

def wanted? (name : Name) (attributes : List (Name × Text)) : Option Text :=
  if name = imageName then
    Text.dropPrefix? Pen.imageScheme ((Icon.attribute? attributes "href").getD [])
  else none

def scaleTo (given : Option Text) (own : Float) : Except Failure Float := do
  let length ← Value.readFloat (given.getD (fmt own))
  if own == 0.0 then throw .flatIcon else return length / own

def moveAndScale (x y sx sy : Float) : Text :=
  "translate(" ++ fmt x ++ ',' :: fmt y ++ ") scale(" ++ fmt sx ++ ',' :: fmt sy ++ ")"

def groupAttributes (transform ink : Text) : Attributes :=
  [("transform", transform), ("fill", "none"), ("stroke", ink)]

def grouped (transform ink : Text) (children : List Tree) : Tree :=
  .element ⟨some svgSpace, "g"⟩ ((groupAttributes transform ink).map fun p => (⟨none, p.1⟩, p.2))
    children

def inline (icon : Icon) (attributes : List (Name × Text)) (ink : Text) : Except Failure Tree := do
  let x ← Value.readFloat ((Icon.attribute? attributes "x").getD "0")
  let y ← Value.readFloat ((Icon.attribute? attributes "y").getD "0")
  let sx ← scaleTo (Icon.attribute? attributes "width") icon.width
  let sy ← scaleTo (Icon.attribute? attributes "height") icon.height
  return grouped (moveAndScale x y sx sy) ink icon.children

def unknownIcon (name : Text) : Text :=
  "No embedded image named " ++ Text.quoted name ++ "; leaving placeholder"

def answer (icons : IconLibrary) (name : Name) (attributes : List (Name × Text)) :
    Option Icon × List Text :=
  match wanted? name attributes with
  | none => (none, [])
  | some w =>
    match icons.find? (·.1 = w) with
    | some (_, icon) => (some icon, [])
    | none => (none, [unknownIcon w])

abbrev Reporting := ExceptT Failure (StateM (List Text))

def report (warnings : List Text) : Reporting Unit :=
  modify (· ++ warnings)

mutual

def replaceInside (icons : IconLibrary) (ink : Text) : Tree → Reporting Tree
  | .text s => return .text s
  | .element name attributes children => do
    return .element name attributes (← replaceAll icons ink false children)

/-- Content with its images replaced; after a replaced one, `drop` is set and text is left out.
The images inside a replaced one are looked at too, though nothing is kept of them. -/
def replaceAll (icons : IconLibrary) (ink : Text) (drop : Bool) : List Tree → Reporting (List Tree)
  | [] => return []
  | .text s :: is => do
    let rest ← replaceAll icons ink false is
    return if drop then rest else .text s :: rest
  | .element name attributes children :: is => do
    let (icon, warnings) := answer icons name attributes
    report warnings
    match icon with
    | none =>
      let inside ← replaceAll icons ink false children
      let rest ← replaceAll icons ink false is
      return .element name attributes inside :: rest
    | some icon =>
      let group ← ExceptT.mk (pure (inline icon attributes ink))
      let _ ← replaceAll icons ink false children
      let rest ← replaceAll icons ink true is
      return group :: rest

end

def replaceTree (icons : IconLibrary) (ink : Text) (t : Tree) : Reporting Tree := do
  match t with
  | .text _ => replaceInside icons ink t
  | .element name attributes _ =>
    let (icon, warnings) := answer icons name attributes
    report warnings
    if icon.isSome then throw .outermostPlaceholder else replaceInside icons ink t

def placeholderMark : Text :=
  "href=\"" ++ Pen.imageScheme

def process (icons : IconLibrary) (isDark : Bool) (svg : Text) : Reporting Text := do
  if Text.occursIn placeholderMark svg then
    match readTree? svg with
    | none => throw .malformedXml
    | some t => return (← replaceTree icons (Theme.choose isDark).ink t).toMarkup.write
  else return svg

end Yuml.IconLibrary
