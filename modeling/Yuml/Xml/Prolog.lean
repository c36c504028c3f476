import Yuml.Xml.Expansion

namespace Yuml.Xml

def isDeclarationChar (c : Char) : Bool :=
  c.isAlphanum || c == '.' || c == '-' || c == '_'

def takeDeclared? : Text → Option (Text × Text)
  | [] => none
  | quote :: cs => do
    guard (quote = '"' ∨ quote = '\'')
    let r ← Text.dropPrefix? [quote] (cs.dropWhile isDeclarationChar)
    return (cs.takeWhile isDeclarationChar, r)

def takePair? (s : Text) : Option (Option (Text × Text) × Text) :=
  if (skipSpace s).isEmpty then some (none, [])
  else do
    guard (s.head?.any isSpace)
    let (name, r) ← takePlainName? (skipSpace s)
    let r ← Text.dropPrefix? "=" (skipSpace r)
    let (value, r) ← takeDeclared? (skipSpace r)
    return (some (name, value), r)

def standsAlone? (s : Text) : Option Bool := do
  let (version, s) ← takePair? s
  guard (version.any (·.1 = "version".toList))
  let (next, s) ← takePair? s
  match next with
  | none => return false
  | some (name, value) =>
    if name = "encoding".toList then
      guard (value.head?.any Char.isAlpha)
      let (last, s) ← takePair? s
      answer? last s
    else answer? next s
where
  answer? (pair : Option (Text × Text)) (s : Text) : Option Bool :=
    match pair with
    | none => some false
    | some (name, value) => do
      guard (name = "standalone".toList ∧ (value = "yes".toList ∨ value = "no".toList))
      guard (skipSpace s).isEmpty
      return value = "yes".toList

def takeXmlDeclaration? (s : Text) : Option (Bool × Text) :=
  match Text.dropPrefix? "<?xml" s with
  | none => some (false, s)
  | some r =>
    if r.head?.any isNameChar then some (false, s)
    else match Text.breakOn "?>" r with
      | (body, some rest) => (standsAlone? body).map (·, rest)
      | (_, none) => none

namespace Doctype

def depth (d : Doctype) : Nat :=
  d.entities.length + 1

def settle (d : Doctype) (r : AttributeRule) : Expansion AttributeRule := do
  match r.default with
  | none => return r
  | some raw =>
    let v ← d.value d.depth [] (← pieces? raw)
    return { r with default := some (if r.isTokenized then tokenized v else v) }

def declare (d : Doctype) (declaration : Declaration) : Expansion Doctype := do
  if !d.accepts then return d
  match declaration with
  | .entity name value =>
    let text ← value.mapM fun v => (entityText? v : Expansion Text)
    return if (predefined? name).isSome then d else d.addEntity name text
  | .parameter _ value =>
    let _ ← value.mapM fun v => (entityText? v : Expansion Text)
    return d
  | .attributes rules => rules.foldlM (fun d r => return d.addRule (← d.settle r)) d
  | .other => return d

def subset : Nat → Doctype → Text → Expansion (Doctype × Text)
  | 0, _, _ => failure
  | fuel + 1, d, s =>
    match skipSpace s with
    | ']' :: rest => return (d, rest)
    | '%' :: r => do
      let (_, r) ← takePlainName? r
      subset fuel { d with isInterrupted := true } (← Text.dropPrefix? ";" r)
    | '<' :: '?' :: r => do subset fuel d (← afterInstruction? r)
    | '<' :: '!' :: '-' :: '-' :: r => do subset fuel d (← afterComment? r)
    | '<' :: '!' :: r => do
      let (declaration, r) ← takeDeclaration? r
      subset fuel (← d.declare declaration) r
    | _ => failure

def take (d : Doctype) (s : Text) : Expansion (Doctype × Text) :=
  match Text.dropPrefix? "<!DOCTYPE" s with
  | none => return (d, s)
  | some r => do
    guard (goesOnWith [] r)
    let (xs, r) ← takeLexemes? (r.length + 1) r
    let x :: xs := xs | failure
    guard x.name?.isSome
    guard (xs.isEmpty || (afterExternal? xs).any List.isEmpty)
    let d := { d with hasExternal := !xs.isEmpty }
    let (d, r) ← match r with
      | '[' :: r => d.subset (r.length + 1) r
      | r => pure (d, r)
    return (d, ← Text.dropPrefix? ">" (skipSpace r))

end Doctype

end Yuml.Xml
