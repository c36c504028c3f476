import Yuml.Failure

namespace Yuml.Notation

inductive Bracket
  | square
  | round
  | angle
  | bar
  deriving DecidableEq, Repr

namespace Bracket

def opener : Bracket → Char
  | square => '['
  | round => '('
  | angle => '<'
  | bar => '|'

def closer : Bracket → Char
  | square => ']'
  | round => ')'
  | angle => '>'
  | bar => '|'

def all : List Bracket :=
  [square, round, angle, bar]

def opened? (bs : List Bracket) (c : Char) : Option Bracket :=
  bs.find? (·.opener = c)

end Bracket

structure NodeToken where
  bracket : Bracket
  text : Text
  deriving DecidableEq, Repr

inductive Token
  | node (n : NodeToken)
  | connector (text : Text)
  deriving DecidableEq, Repr

def Token.print : Token → Text
  | node n => n.bracket.opener :: n.text ++ [n.bracket.closer]
  | connector text => text

/-- The inside of a node and what follows its closer. Inside braces, `depth` of which are open, a
closer is an ordinary character. A node without closer takes all there is. -/
def takeNode (closer : Char) : Nat → Text → Text × Text
  | _, [] => ([], [])
  | depth, c :: cs =>
    if c = '{' then
      let (inside, rest) := takeNode closer (depth + 1) cs
      (c :: inside, rest)
    else if c = '}' ∧ depth ≠ 0 then
      let (inside, rest) := takeNode closer (depth - 1) cs
      (c :: inside, rest)
    else if c = closer ∧ depth = 0 then ([], cs)
    else
      let (inside, rest) := takeNode closer depth cs
      (c :: inside, rest)

theorem takeNode_length (closer : Char) (depth : Nat) (s : Text) :
    (takeNode closer depth s).2.length ≤ s.length := by
  induction s generalizing depth with
  | nil => simp [takeNode]
  | cons c cs ih =>
    have h := fun d => Nat.le_succ_of_le (ih d)
    simp only [takeNode]
    split
    · exact h _
    · split
      · exact h _
      · split
        · exact Nat.le_succ _
        · exact h _

def gap (s : Text) : List Token :=
  if s.isEmpty then [] else [.connector s]

def split (bs : List Bracket) (line : Text) : List Token :=
  let between := line.takeWhile fun c => (Bracket.opened? bs c).isNone
  match h : line.dropWhile fun c => (Bracket.opened? bs c).isNone with
  | [] => gap between
  | c :: cs =>
    match Bracket.opened? bs c with
    | none => gap between
    | some b =>
      have : (takeNode b.closer 0 cs).2.length < line.length := by
        have h1 := takeNode_length b.closer 0 cs
        have h2 := (line.dropWhile_suffix fun c => (Bracket.opened? bs c).isNone).length_le
        rw [h] at h2
        exact Nat.lt_of_le_of_lt h1 h2
      gap between ++ .node ⟨b, (takeNode b.closer 0 cs).1⟩ :: split bs (takeNode b.closer 0 cs).2
termination_by line.length

/-- Splits at openers given as characters. A character that opens no bracket matters only where it
would open a node. -/
def splitAt (openers line : Text) : Except Failure (List Token) :=
  let bs := openers.filterMap (Bracket.opened? Bracket.all)
  let strange := openers.filter fun c => (Bracket.opened? Bracket.all c).isNone
  let tokens := split bs line
  let met := tokens.findSome? fun
    | .node _ => none
    | .connector text => text.find? strange.contains
  match met with
  | some c => .error (.unknownOpener c)
  | none => .ok tokens

structure Link where
  tail : NodeToken
  connector : Option Text
  head : NodeToken
  deriving DecidableEq, Repr

def linksFrom : Option NodeToken → Option Text → List Token → List Link
  | _, _, [] => []
  | before, _, .connector text :: ts => linksFrom before (some text) ts
  | none, _, .node n :: ts => linksFrom (some n) none ts
  | some tail, connector, .node n :: ts => ⟨tail, connector, n⟩ :: linksFrom (some n) none ts

def links (ts : List Token) : List Link :=
  linksFrom none none ts

def nodes (ts : List Token) : List NodeToken :=
  ts.filterMap fun
    | .node n => some n
    | .connector _ => none

end Yuml.Notation
