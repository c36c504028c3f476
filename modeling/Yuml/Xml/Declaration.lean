import Yuml.Xml.Lexeme

namespace Yuml.Xml

structure AttributeRule where
  element : Text
  name : Text
  isTokenized : Bool
  default : Option Text
  deriving DecidableEq, Repr

inductive Declaration
  | entity (name : Text) (value : Option Text)
  | parameter (name : Text) (value : Option Text)
  | attributes (rules : List AttributeRule)
  | other
  deriving DecidableEq, Repr

def isPublicChar (c : Char) : Bool :=
  c.isAlphanum || " \n\r-'()+,./:=?;!*#@$_%".toList.contains c

def Lexeme.name? : Lexeme → Option Text
  | .name s | .prefixed s => some s
  | _ => none

def afterExternal? : List Lexeme → Option (List Lexeme)
  | .name word :: .literal first :: xs =>
    if word = "SYSTEM".toList then some xs
    else match xs with
      | .literal _ :: xs =>
        if word = "PUBLIC".toList ∧ first.all isPublicChar then some xs else none
      | _ => none
  | _ => none

namespace Declaration

def ofEntity? : List Lexeme → Option Declaration
  | [.name n, .literal value] => some (.entity n (some value))
  | [.percent, .name n, .literal value] => some (.parameter n (some value))
  | .percent :: .name n :: xs => do
    guard (← afterExternal? xs).isEmpty
    return .parameter n none
  | .name n :: xs => do
    match ← afterExternal? xs with
    | [] => return .entity n none
    | [.name word, .name _] =>
      guard (word = "NDATA".toList)
      return .entity n none
    | _ => none
  | _ => none

def ofNotation? : List Lexeme → Option Declaration
  | [.name _, .name word, .literal id] => do
    guard (word = "SYSTEM".toList ∨ word = "PUBLIC".toList ∧ id.all isPublicChar)
    return .other
  | .name _ :: xs => do
    guard (← afterExternal? xs).isEmpty
    return .other
  | _ => none

mutual

/-- Whether lexemes go on rightly where a name or a group is due. `groups` holds the mark between the
parts of each open group, innermost first, if one has been seen. -/
def isPartDue (groups : List (Option Lexeme)) : List Lexeme → Bool
  | .opening :: xs => isPartDue (none :: groups) xs
  | .name _ :: xs | .prefixed _ :: xs | .counted _ :: xs => isPartDone groups xs
  | _ => false

def isPartDone : List (Option Lexeme) → List Lexeme → Bool
  | [], xs => xs.isEmpty
  | _ :: groups, .closing _ :: xs => isPartDone groups xs
  | mark :: groups, x :: xs =>
    (x = .comma ∨ x = .bar) && (mark.isNone || mark = some x) && isPartDue (some x :: groups) xs
  | _ :: _, [] => false

end

def areNames : List Lexeme → Bool
  | [.closing (some '*')] => true
  | .bar :: x :: xs => x.name?.isSome && areNames xs
  | _ => false

def isModel : List Lexeme → Bool
  | [.name word] => word = "EMPTY".toList || word = "ANY".toList
  | .opening :: .keyword word :: xs =>
    word = "PCDATA".toList && (xs = [.closing none] || areNames xs)
  | .opening :: xs => isPartDue [none] xs
  | _ => false

def ofElement? : List Lexeme → Option Declaration
  | x :: xs => if x.name?.isSome && isModel xs then some .other else none
  | [] => none

def afterChoices? (p : Lexeme → Bool) : List Lexeme → Option (List Lexeme)
  | x :: .bar :: xs => if p x then afterChoices? p xs else none
  | x :: .closing none :: xs => if p x then some xs else none
  | _ => none

def tokenTypes : List Text :=
  ["ID", "IDREF", "IDREFS", "ENTITY", "ENTITIES", "NMTOKEN", "NMTOKENS"]

def takeType? : List Lexeme → Option (Bool × List Lexeme)
  | .opening :: xs =>
    (afterChoices? (fun | .name _ | .prefixed _ | .token _ => true | _ => false) xs).map (true, ·)
  | .name word :: xs =>
    if word = "CDATA".toList then some (false, xs)
    else if word ∈ tokenTypes then some (true, xs)
    else match xs with
      | .opening :: xs =>
        if word = "NOTATION".toList then
          (afterChoices? (fun | .name _ => true | _ => false) xs).map (true, ·)
        else none
      | _ => none
  | _ => none

def takeDefault? : List Lexeme → Option (Option Text × List Lexeme)
  | .literal value :: xs => some (some value, xs)
  | .keyword word :: xs =>
    if word = "IMPLIED".toList ∨ word = "REQUIRED".toList then some (none, xs)
    else match xs with
      | .literal value :: xs => if word = "FIXED".toList then some (some value, xs) else none
      | _ => none
  | _ => none

def rules? (element : Text) : Nat → List Lexeme → Option (List AttributeRule)
  | _, [] => some []
  | 0, _ => none
  | fuel + 1, x :: xs => do
    let name ← x.name?
    let (isTokenized, xs) ← takeType? xs
    let (default, xs) ← takeDefault? xs
    return ⟨element, name, isTokenized, default⟩ :: (← rules? element fuel xs)

def ofAttributes? : List Lexeme → Option Declaration
  | x :: xs => do return .attributes (← rules? (← x.name?) xs.length xs)
  | [] => none

def kinds : List (Text × (List Lexeme → Option Declaration)) :=
  [("ENTITY", ofEntity?), ("ATTLIST", ofAttributes?), ("ELEMENT", ofElement?),
    ("NOTATION", ofNotation?)]

end Declaration

def takeDeclaration? (s : Text) : Option (Declaration × Text) := do
  let isLetter (c : Char) : Bool := c.isUpper
  let r := s.dropWhile isLetter
  guard (goesOnWith [] r)
  let (_, read?) ← Declaration.kinds.find? (·.1 = s.takeWhile isLetter)
  let (xs, r) ← takeLexemes? (r.length + 1) r
  return (← read? xs, ← Text.dropPrefix? ">" r)

end Yuml.Xml
