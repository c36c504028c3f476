import Yuml.Notation.Mention

namespace Yuml.Notation

structure Grammar where
  brackets : List Bracket
  mention : NodeToken → Mention
  connect : Option Text → Connector
  completes : Bool := false

namespace Grammar

def classes : Grammar :=
  ⟨[.square], .ofClass, .association, true⟩

def useCases : Grammar :=
  ⟨[.square, .round], .ofUseCase, .useCase, false⟩

def activity : Grammar :=
  ⟨[.round, .angle, .bar], .ofActivity, .transition, false⟩

def state : Grammar :=
  ⟨[.round], .ofState, .transition, false⟩

def deployment : Grammar :=
  ⟨[.square], .ofDeployment, .line, false⟩

def package : Grammar :=
  ⟨[.square], .ofPackage, .line, false⟩

def ofKind? : DiagramKind → Option Grammar
  | .classes => some classes
  | .useCases => some useCases
  | .activity => some activity
  | .state => some state
  | .deployment => some deployment
  | .package => some package
  | .sequence => none

variable (g : Grammar)

def resolve (r : Registry Mention.Key) (t : NodeToken) : Registry Mention.Key × Text :=
  let m := g.mention t
  let (r, id) := r.add m.key m.toNode
  if g.completes && m.role == .thing then
    ({ r with document := r.document.modifyNode id m.complete }, id)
  else (r, id)

def edge (tail head : Text) (c : Connector) : Edge :=
  ⟨tail, head, c.style, c.headArrow, c.tailArrow, c.label, c.headLabel, c.tailLabel⟩

def connectLink (r : Registry Mention.Key) (l : Link) : Registry Mention.Key :=
  let (r, tail) := g.resolve r l.tail
  let (r, head) := g.resolve r l.head
  { r with document := r.document.addEdge (edge tail head (g.connect l.connector)) }

def takeTokens (r : Registry Mention.Key) (ts : List Token) : Registry Mention.Key :=
  let r := (nodes ts).foldl (fun r t => (g.resolve r t).1) r
  (links ts).foldl g.connectLink r

def ofTokens (direction : Direction) (lines : List (List Token)) : Document :=
  (lines.foldl g.takeTokens ⟨{ direction }, []⟩).document

def parse (direction : Direction) (lines : List Text) : Document :=
  g.ofTokens direction (lines.map (split g.brackets))

end Grammar

end Yuml.Notation
