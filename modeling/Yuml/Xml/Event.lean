import Yuml.Xml.Piece

namespace Yuml.Xml

inductive Event (τ : Type)
  | opening (name : Text) (attributes : List (Text × τ))
  | closing (name : Text)
  | text (s : τ)
  deriving DecidableEq, Repr

abbrev RawEvents := List (Event (List Piece))

def takeValue? (s : Text) : Option (List Piece × Text) := do
  let (raw, rest) ← takeQuoted? s
  return (← pieces? raw, rest)

def takeAttributes? :
    Nat → List (Text × List Piece) → Text → Option (List (Text × List Piece) × Bool × Text)
  | 0, _, _ => none
  | fuel + 1, read, s =>
    match skipSpace s with
    | '>' :: rest => some (read, false, rest)
    | '/' :: '>' :: rest => some (read, true, rest)
    | body => do
      guard (s.head?.any isSpace)
      let (name, r) ← takeName? body
      guard (!read.any (·.1 = name))
      let r ← Text.dropPrefix? "=" (skipSpace r)
      let (value, r) ← takeValue? (skipSpace r)
      takeAttributes? fuel (read ++ [(name, value)]) r

def takeStartTag? (fuel : Nat) (s : Text) : Option (RawEvents × Bool × Text) := do
  let (name, r) ← takeName? s
  let (attributes, isEmpty, r) ← takeAttributes? fuel [] r
  return (.opening name attributes :: (if isEmpty then [.closing name] else []), !isEmpty, r)

def takeEndTag? (s : Text) : Option (Text × Text) := do
  let (name, r) ← takeName? s
  return (name, ← Text.dropPrefix? ">" (skipSpace r))

/-- Reads content in which `depth` elements are open, up to the end tag of an element that was open
before, or up to the end of the text. -/
def content? : Nat → Nat → Text → Option (RawEvents × Text)
  | 0, _, _ => none
  | _ + 1, 0, [] => some ([], [])
  | _ + 1, _ + 1, [] => none
  | _ + 1, 0, '<' :: '/' :: s => some ([], '<' :: '/' :: s)
  | fuel + 1, depth + 1, '<' :: '/' :: s => do
    let (name, r) ← takeEndTag? s
    let (events, rest) ← content? fuel depth r
    return (.closing name :: events, rest)
  | fuel + 1, depth, '<' :: '?' :: s => do
    content? fuel depth (← afterInstruction? s)
  | fuel + 1, depth, '<' :: '!' :: s =>
    match Text.dropPrefix? "--" s, Text.dropPrefix? "[CDATA[" s with
    | some r, _ => do content? fuel depth (← afterComment? r)
    | none, some r =>
      match Text.breakOn "]]>" r with
      | (t, some r) => do
        let (events, rest) ← content? fuel depth r
        return (.text (t.map .plain) :: events, rest)
      | (_, none) => none
    | none, none => none
  | fuel + 1, depth, '<' :: s => do
    let (tag, isOpen, r) ← takeStartTag? fuel s
    let (events, rest) ← content? fuel (if isOpen then depth + 1 else depth) r
    return (tag ++ events, rest)
  | fuel + 1, depth, s => do
    let raw := s.takeWhile (· != '<')
    guard (!Text.occursIn "]]>" raw)
    let t ← pieces? raw
    let (events, rest) ← content? fuel depth (s.dropWhile (· != '<'))
    return (.text t :: events, rest)

def contentOf? (s : Text) : Option RawEvents := do
  let (events, rest) ← content? (s.length + 1) 0 s
  guard rest.isEmpty
  return events

def takeElement? (s : Text) : Option (RawEvents × Text) := do
  let fuel := s.length + 1
  let (tag, isOpen, r) ← takeStartTag? fuel (← Text.dropPrefix? "<" s)
  if isOpen then
    let (events, r) ← content? fuel 0 r
    let (name, r) ← takeEndTag? (← Text.dropPrefix? "</" r)
    return (tag ++ events ++ [.closing name], r)
  else return (tag, r)

end Yuml.Xml
