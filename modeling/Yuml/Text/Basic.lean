namespace Yuml

abbrev Text := List Char

instance : Coe String Text := ⟨String.toList⟩

namespace Text

def dropPrefix? : Text → Text → Option Text
  | [], s => some s
  | _ :: _, [] => none
  | p :: ps, c :: cs => if p = c then dropPrefix? ps cs else none

def dropSuffix? (q s : Text) : Option Text :=
  (dropPrefix? q.reverse s.reverse).map List.reverse

def occursIn (p : Text) : Text → Bool
  | [] => p.isEmpty
  | c :: cs => p.isPrefixOf (c :: cs) || occursIn p cs

def breakOn (sep : Text) : Text → Text × Option Text
  | [] => ([], dropPrefix? sep [])
  | c :: cs =>
    match dropPrefix? sep (c :: cs) with
    | some rest => ([], some rest)
    | none =>
      let (before, after) := breakOn sep cs
      (c :: before, after)

/-- `replaceFrom old new skip s` passes over `skip` characters and then replaces the occurrences of
`old` from left to right. -/
def replaceFrom (old new : Text) : Nat → Text → Text
  | _, [] => []
  | skip + 1, _ :: cs => replaceFrom old new skip cs
  | 0, c :: cs =>
    if old.isPrefixOf (c :: cs) then new ++ replaceFrom old new (old.length - 1) cs
    else c :: replaceFrom old new 0 cs

def replace (old new s : Text) : Text :=
  replaceFrom old new 0 s

def trimBy (p : Char → Bool) (s : Text) : Text :=
  ((s.dropWhile p).reverse.dropWhile p).reverse

def isBlank (c : Char) : Bool :=
  let n := c.toNat
  (9 ≤ n && n ≤ 13) || (28 ≤ n && n ≤ 32) || n == 0x85 || n == 0xA0 || n == 0x1680 ||
    (0x2000 ≤ n && n ≤ 0x200A) || n == 0x2028 || n == 0x2029 || n == 0x202F || n == 0x205F ||
    n == 0x3000

def trim (s : Text) : Text :=
  trimBy isBlank s

def pieces (p : Char → Bool) : Text → List Text
  | [] => [[]]
  | c :: cs =>
    if p c then [] :: pieces p cs
    else match pieces p cs with
      | [] => [[c]]
      | w :: ws => (c :: w) :: ws

def words (s : Text) : List Text :=
  (pieces isBlank s).filter (!·.isEmpty)

def joinWith (sep : Text) (ts : List Text) : Text :=
  sep.intercalate ts

def ofNat (n : Nat) : Text :=
  Nat.toDigits 10 n

def ofInt : Int → Text
  | .ofNat n => ofNat n
  | .negSucc n => '-' :: ofNat (n + 1)

def unifyLineEnds : Text → Text
  | [] => []
  | '\r' :: '\n' :: cs => '\n' :: unifyLineEnds cs
  | c :: cs => (if c = '\r' then '\n' else c) :: unifyLineEnds cs

def byteSize (s : Text) : Nat :=
  s.foldl (fun n c => n + c.utf8Size) 0

def nonEmpty? (s : Text) : Option Text :=
  if s.isEmpty then none else some s

end Text

end Yuml
