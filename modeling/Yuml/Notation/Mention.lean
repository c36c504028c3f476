import Yuml.Document.Registry
import Yuml.Notation.Token
import Yuml.Notation.Connector

namespace Yuml.Notation

inductive Role
  | note
  | thing
  | component
  | actor
  | start
  | final
  | decision
  | bar
  deriving DecidableEq, Repr

structure Mention where
  role : Role
  name : Text
  shape : Shape
  label : Text
  fields : List Text := []
  fill : Option Text := none
  deriving DecidableEq, Repr

abbrev Mention.Key := Role × Text

def Mention.key (m : Mention) : Mention.Key :=
  (m.role, m.name)

def Mention.toNode (m : Mention) (id : Text) : Node :=
  ⟨id, m.label, m.shape, m.fields, m.fill⟩

def Mention.complete (m : Mention) (n : Node) : Node :=
  { n with
    fields := if n.fields.isEmpty then m.fields else n.fields
    fill := n.fill.or m.fill }

namespace Mention

def ofNote (name : Text) (fill : Option Text) : Mention :=
  ⟨.note, name, .note, name, [], fill⟩

def orNote (t : NodeToken) (read : Text → Option Text → Mention) : Mention :=
  let (text, fill) := splitStyle t.text
  match noteText? text with
  | some name => ofNote name fill
  | none => read text fill

def startOrEnd? (text : Text) : Option Mention :=
  if text = "start" then some ⟨.start, [], .start, [], [], none⟩
  else if text = "end" then some ⟨.final, [], .final, [], [], none⟩
  else none

def compartmentsOf (text : Text) : List Text :=
  (Text.pieces (· == '|') text).map fun part => Text.replace ";" "\n" (Text.trim part)

def ofClass (t : NodeToken) : Mention :=
  orNote t fun text fill =>
    let parts := compartmentsOf text
    let name := parts.headD []
    ⟨.thing, name, .record, name, if parts.length > 1 then parts else [], fill⟩

def ofUseCase (t : NodeToken) : Mention :=
  orNote t fun text fill =>
    if t.bracket = .square then ⟨.actor, text, .actor, text, [], none⟩
    else ⟨.thing, text, .ellipse, text, [], fill⟩

def ofActivity (t : NodeToken) : Mention :=
  let (text, fill) := splitStyle t.text
  match t.bracket with
  | .angle => ⟨.decision, text, .diamond, [], [], fill⟩
  | .bar => ⟨.bar, text, .bar, [], [], none⟩
  | _ => (startOrEnd? text).getD ⟨.thing, text, .rounded, text, [], fill⟩

def ofState (t : NodeToken) : Mention :=
  orNote t fun text fill => (startOrEnd? text).getD ⟨.thing, text, .rounded, text, [], fill⟩

def ofDeployment (t : NodeToken) : Mention :=
  orNote t fun text fill =>
    match componentName? text with
    | some name => ⟨.component, name, .component, name, [], fill⟩
    | none => ⟨.thing, text, .box3d, text, [], fill⟩

def ofPackage (t : NodeToken) : Mention :=
  orNote t fun text fill => ⟨.thing, text, .tab, text, [], fill⟩

end Mention

end Yuml.Notation
