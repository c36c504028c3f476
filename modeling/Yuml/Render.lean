import Yuml.Drawing.Picture
import Yuml.Icon.Inlining
import Yuml.Notation.Grammar
import Yuml.Sequence.Picture
import Yuml.Source.Collector

namespace Yuml

open IconLibrary (Reporting report)

namespace RenderOptions

def checkOne (options : List (Value × Value)) (name only : Text) (refusal : Value → Failure) :
    Except Failure Unit :=
  match Value.lookup name options with
  | none => .ok ()
  | some v => if v.isNone || v.isText only then .ok () else .error (refusal v)

def check (options : Value) : Except Failure Unit :=
  match options with
  | .mapping entries => do
    checkOne entries "engine" "dot" .unsupportedEngine
    checkOne entries "format" "svg" .unsupportedFormat
  | v => if v.isTrue then .error .notAMapping else .ok ()

end RenderOptions

def Document.painted (d : Document) (isDark : Bool) (overrides engine options : Value) :
    Except Failure Text := do
  let themed ← d.wrap isDark overrides
  RenderOptions.check options
  themed.paint engine

def Document.render (d : Document) (isDark : Bool) (overrides engine options : Value) :
    Reporting Text := do
  let svg ← ExceptT.mk (pure (d.painted isDark overrides engine options))
  let icons ← ExceptT.mk (pure IconLibrary.bundled)
  icons.process isDark svg

def emptyDocument : Text :=
  "<svg xmlns=\"http://www.w3.org/2000/svg\"/>"

def renderInstructions (s : Settings) (instructions : List Text) (engine options : Value) :
    Reporting Text :=
  match Notation.Grammar.ofKind? s.kind with
  | some g => (g.parse s.direction instructions).render s.isDark s.overrides engine options
  | none => ExceptT.mk (pure ((Sequence.Script.parse instructions).paint s.isDark))

def Collector.render (c : Collector) (engine options : Value) : Reporting Text := do
  if c.instructions.isEmpty then return emptyDocument
  let s ← ExceptT.mk (pure c.draft.settle)
  renderInstructions s c.instructions engine options

/-- The drawing of a diagram's source, or why there is none, and the reports on the way. -/
def render (input : Source.Input) (draft : Draft × List Warning) (engine options : Value) :
    Except Failure Text × List Warning :=
  let (lines, stopped) := input.lines
  let c := Collector.takeAll ⟨draft.1, [], draft.2⟩ lines
  match stopped with
  | some failure => (.error (.ofSource failure), c.warnings)
  | none => (c.render engine options).run.run c.warnings

end Yuml
