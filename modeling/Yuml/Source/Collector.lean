import Yuml.Source.Directive

namespace Yuml

def isComment (s : Text) : Bool :=
  List.isPrefixOf "//".toList s

structure Collector where
  draft : Draft
  instructions : List Text := []
  warnings : List Warning := []

namespace Collector

inductive Statement
  | blank
  | comment
  | directive (d : Directive)
  | instruction (s : Text)
  deriving DecidableEq, Repr

def Statement.ofLine (line : Text) : Statement :=
  let s := Text.trim line
  if isComment s then
    match Directive.parse? s with
    | some d => directive d
    | none => comment
  else if s.isEmpty then blank
  else instruction s

def take (c : Collector) (line : Text) : Collector :=
  match Statement.ofLine line with
  | .blank | .comment => c
  | .instruction s => { c with instructions := c.instructions ++ [s] }
  | .directive d =>
    let (draft, reports) := d.apply c.draft
    { c with draft, warnings := c.warnings ++ reports }

def takeAll (c : Collector) (lines : List Text) : Collector :=
  lines.foldl take c

end Collector

end Yuml
