import Yuml.Diagram.Vocabulary
import Yuml.Notation.Label

namespace Yuml.Notation

structure Connector where
  style : LineStyle := .solid
  headArrow : Arrow := .none
  tailArrow : Arrow := .none
  label : Option Text := none
  headLabel : Option Text := none
  tailLabel : Option Text := none
  deriving DecidableEq, Repr

def stripDashes (s : Text) : Text :=
  Text.trimBy (fun c => c == '-' || c == ' ') s

def undotted (body : Text) : Text :=
  Text.replace ".-" " " (Text.replace "-." " " (Text.replace "-.-" " " body))

def takeSuffix (q s : Text) : Bool × Text :=
  match Text.dropSuffix? q s with
  | some rest => (true, rest)
  | none => (false, s)

def takePrefix (p s : Text) : Bool × Text :=
  match Text.dropPrefix? p s with
  | some rest => (true, rest)
  | none => (false, s)

namespace Connector

def ofLine (s : Text) : Connector :=
  let (tailOpen, body) := takePrefix "<" (Text.trim s)
  let (headOpen, body) := takeSuffix ">" body
  let dashed := Text.occursIn ".-" body || Text.occursIn "-." body
  { style := if dashed then .dashed else .solid
    headArrow := if headOpen then .vee else .none
    tailArrow := if tailOpen then .vee else .none
    label := Text.nonEmpty? (unbracket (Text.trim (stripDashes (undotted body)))) }

def ofTransition (s : Text) : Connector :=
  let (_, body) := takeSuffix ">" (Text.trim s)
  { headArrow := .vee, label := Text.nonEmpty? (unbracket (Text.trim (stripDashes body))) }

def tailMarkers : List (Text × Arrow) :=
  [("<>", .diamond), ("++", .filledDiamond), ("^", .triangle), ("<", .vee)]

def headMarkers : List (Text × Arrow) :=
  [("<>", .diamond), ("++", .filledDiamond), ("^", .triangle), (">", .vee)]

def takeTail (s : Text) : Arrow × Text :=
  (tailMarkers.findSome? fun (m, a) => (Text.dropPrefix? m s).map (a, ·)).getD (.none, s)

def takeHead (s : Text) : Arrow × Text :=
  (headMarkers.findSome? fun (m, a) => (Text.dropSuffix? m s).map (a, ·)).getD (.none, s)

def ofAssociation (s : Text) : Connector :=
  let (tailArrow, body) := takeTail (Text.trim s)
  let (headArrow, body) := takeHead body
  let dashed := Text.occursIn "-.-" body
  let (left, right) := Text.breakOn (if dashed then "-.-" else "-") body
  { style := if dashed then .dashed else .solid
    headArrow, tailArrow
    headLabel := Text.nonEmpty? (Text.trim (right.getD []))
    tailLabel := Text.nonEmpty? (Text.trim left) }

def extendLabel : Text := "<<extend>>"

def includeLabel : Text := "<<include>>"

def ofUseCase (s : Text) : Connector :=
  let body := Text.trim s
  if body.contains '^' then { tailArrow := .triangle }
  else if body.contains '<' then { style := .dashed, tailArrow := .vee, label := some extendLabel }
  else if body.contains '>' then { style := .dashed, headArrow := .vee, label := some includeLabel }
  else { label := Text.nonEmpty? (stripDashes body) }

def given (blank : Connector) (read : Text → Connector) (s : Option Text) : Connector :=
  match s with
  | none | some [] => blank
  | some s => read s

def line (s : Option Text) : Connector :=
  given {} ofLine s

def transition (s : Option Text) : Connector :=
  given { headArrow := .vee } ofTransition s

def association (s : Option Text) : Connector :=
  given {} ofAssociation s

def useCase (s : Option Text) : Connector :=
  ofUseCase (s.getD [])

end Connector

inductive Sending
  | synchronous
  | asynchronous
  | reply
  deriving DecidableEq, Repr

def Sending.name : Sending → Text
  | synchronous => "sync"
  | asynchronous => "async"
  | reply => "reply"

def readMessage (s : Option Text) : Text × Sending :=
  let body := Text.trim (s.getD [])
  match Text.dropSuffix? ">>" body, Text.dropSuffix? ".>" body, Text.dropSuffix? ">" body with
  | some text, _, _ => (Text.trim text, .asynchronous)
  | none, some text, _ => (Text.trim text, .reply)
  | none, none, some text => (Text.trim text, .synchronous)
  | none, none, none => (body, .synchronous)

end Yuml.Notation
