import Yuml.Xml.Character

namespace Yuml.Xml

def skipSpace (s : Text) : Text :=
  s.dropWhile isSpace

def isPlainName : Text → Bool
  | [] => false
  | c :: cs => isNameStart c && cs.all isNameChar

def takePlainName? : Text → Option (Text × Text)
  | [] => none
  | c :: cs =>
    if isNameStart c then some (c :: cs.takeWhile isNameChar, cs.dropWhile isNameChar) else none

def takeName? (s : Text) : Option (Text × Text) :=
  match takePlainName? s with
  | none => none
  | some (first, ':' :: rest) => (takePlainName? rest).map fun (more, r) => (first ++ ':' :: more, r)
  | some (first, rest) => some (first, rest)

def takeQuoted? : Text → Option (Text × Text)
  | [] => none
  | quote :: cs =>
    if quote = '"' ∨ quote = '\'' then
      match cs.dropWhile (· != quote) with
      | [] => none
      | _ :: rest => some (cs.takeWhile (· != quote), rest)
    else none

def afterComment? (s : Text) : Option Text :=
  match Text.breakOn "--" s with
  | (_, some ('>' :: rest)) => some rest
  | _ => none

def afterInstruction? (s : Text) : Option Text := do
  let (target, r) ← takePlainName? s
  guard (target.map Char.toLower ≠ "xml".toList)
  match r with
  | '?' :: '>' :: rest => return rest
  | c :: r =>
    guard (isSpace c)
    (Text.breakOn "?>" r).2
  | [] => none

def skipMisc? : Nat → Text → Option Text
  | 0, _ => none
  | fuel + 1, s =>
    let s := skipSpace s
    match Text.dropPrefix? "<!--" s, Text.dropPrefix? "<?" s with
    | some r, _ => do skipMisc? fuel (← afterComment? r)
    | none, some r => do skipMisc? fuel (← afterInstruction? r)
    | none, none => some s

end Yuml.Xml
