import Yuml.Xml.Reader
import Yuml.Xml.Writer

namespace Yuml.Xml

structure Name where
  space : Option Text
  base : Text
  deriving DecidableEq, Repr

abbrev Tree := Item Name

abbrev Scope := List (Text × Text)

def xmlSpace : Text := "http://www.w3.org/XML/1998/namespace"

def xmlnsSpace : Text := "http://www.w3.org/2000/xmlns/"

def declared? (name : Text) : Option Text :=
  if name = "xmlns" then some [] else Text.dropPrefix? "xmlns:" name

/-- Whether a prefix may stand for a namespace: `xml` for its own alone and `xmlns` for none, and
only the empty prefix for nothing. -/
def mayBind (pre space : Text) : Bool :=
  pre ≠ "xmlns".toList && (pre.isEmpty || !space.isEmpty) && !space.contains '}' &&
    (pre = "xml".toList) == (space = xmlSpace) && space ≠ xmlnsSpace

def Scope.enter? (scope : Scope) : Attributes → Option Scope
  | [] => some scope
  | (name, value) :: rest =>
    match declared? name with
    | none => scope.enter? rest
    | some pre => if mayBind pre value then Scope.enter? ((pre, value) :: scope) rest else none

def Scope.space? (scope : Scope) (pre : Text) : Option (Option Text) :=
  match scope.find? (·.1 = pre) with
  | some (_, space) => some (Text.nonEmpty? space)
  | none => if pre.isEmpty then some none else none

def Scope.resolve? (scope : Scope) (isAttribute : Bool) (name : Text) : Option Name :=
  match Text.breakOn ":" name with
  | (pre, some base) => (scope.space? pre).map (⟨·, base⟩)
  | (base, none) => if isAttribute then some ⟨none, base⟩ else (scope.space? []).map (⟨·, base⟩)

def Scope.attributes? (scope : Scope) (a : Attributes) : Option (List (Name × Text)) := do
  let named ← (a.filter fun p => (declared? p.1).isNone).mapM fun p =>
    return (← scope.resolve? true p.1, p.2)
  guard (named.map (·.1)).Nodup
  return named

mutual

def resolve? (scope : Scope) : Markup → Option Tree
  | .text s => some (.text s)
  | .element name attributes children => do
    let inner ← scope.enter? attributes
    return .element (← inner.resolve? false name) (← inner.attributes? attributes)
      (← resolveAll? inner children)

def resolveAll? (scope : Scope) : List Markup → Option (List Tree)
  | [] => some []
  | i :: is => do return (← resolve? scope i) :: (← resolveAll? scope is)

end

def readTree? (source : Text) : Option Tree := do
  resolve? [("xml", xmlSpace)] (← read? source)

def svgSpace : Text := "http://www.w3.org/2000/svg"

def wellKnown : Scope :=
  [("xml", xmlSpace), ("html", "http://www.w3.org/1999/xhtml"),
    ("rdf", "http://www.w3.org/1999/02/22-rdf-syntax-ns#"), ("wsdl", "http://schemas.xmlsoap.org/wsdl/"),
    ("xs", "http://www.w3.org/2001/XMLSchema"), ("xsi", "http://www.w3.org/2001/XMLSchema-instance"),
    ("dc", "http://purl.org/dc/elements/1.1/"), ([], svgSpace)]

def Scope.prefixOf? (scope : Scope) (space : Text) : Option Text :=
  (scope.find? (·.2 = space)).map (·.1)

/-- The scope that also writes the namespace of a name: by its well-known prefix or the next
numbered one. The namespace of `xml` needs no declaration. -/
def Scope.cover (scope : Scope) (name : Name) : Scope :=
  match name.space with
  | none => scope
  | some space =>
    if space = xmlSpace ∨ (scope.prefixOf? space).isSome then scope
    else scope ++ [((wellKnown.prefixOf? space).getD ("ns" ++ Text.ofNat scope.length), space)]

mutual

def Scope.coverItem (scope : Scope) : Tree → Scope
  | .text _ => scope
  | .element name attributes children =>
    Scope.coverItems (attributes.foldl (fun s p => s.cover p.1) (scope.cover name)) children

def Scope.coverItems (scope : Scope) : List Tree → Scope
  | [] => scope
  | i :: is => Scope.coverItems (scope.coverItem i) is

end

def Scope.qualify (scope : Scope) (name : Name) : Text :=
  match name.space with
  | none => name.base
  | some space =>
    let pre : Text := if space = xmlSpace then "xml" else (scope.prefixOf? space).getD []
    if pre.isEmpty then name.base else pre ++ ':' :: name.base

mutual

def Scope.markup (scope : Scope) : Tree → Markup
  | .text s => .text s
  | .element name attributes children =>
    .element (scope.qualify name) (attributes.map fun p => (scope.qualify p.1, p.2))
      (scope.markups children)

def Scope.markups (scope : Scope) : List Tree → List Markup
  | [] => []
  | i :: is => scope.markup i :: scope.markups is

end

def Scope.declarations (scope : Scope) : Attributes :=
  (scope.mergeSort fun a b => !(b.1 < a.1)).map fun (pre, space) =>
    (if pre.isEmpty then "xmlns" else "xmlns:" ++ pre, space)

def Tree.toMarkup (t : Tree) : Markup :=
  let scope := Scope.coverItem [] t
  match scope.markup t with
  | .element name attributes children => .element name (scope.declarations ++ attributes) children
  | .text s => .text s

end Yuml.Xml
