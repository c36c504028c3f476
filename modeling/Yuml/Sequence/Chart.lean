import Yuml.Sequence.Script
import Yuml.Drawing.Metrics
import Yuml.Layered.Routing

namespace Yuml.Sequence

open Number Scalar
open Layered (Point)

variable {α : Type} [Scalar α]

def margin : α := 10.0

def columnGap : α := 40.0

def minBoxWidth : α := 60.0

def messageStep : α := 30.0

/-- How far a message to oneself reaches out, and twice how far it comes down. -/
def loopReach : α := 30.0

structure Column (α : Type) where
  participant : Participant
  x : α
  width : α
  deriving Repr

def Column.centre (c : Column α) : α :=
  c.x + c.width / 2.0

structure Call (α : Type) where
  message : Message
  isLoop : Bool
  start : α
  stop : α
  y : α
  deriving Repr

structure Chart (α : Type) where
  columns : List (Column α)
  calls : List (Call α)
  bottom : α
  width : α
  height : α
  deriving Repr

def boxHeight (size : α) : α :=
  lineHeight size + 2.0 * padY

def columnsFrom (size : α) : α → List Participant → List (Column α) × α
  | x, [] => ([], x)
  | x, p :: ps =>
    let width := larger minBoxWidth ((blockSize size p.name).1 + 2.0 * padX)
    let (more, last) := columnsFrom size (x + (width + columnGap)) ps
    (⟨p, x, width⟩ :: more, last)

def centreOf (columns : List (Column α)) (name : Text) : Except Failure α :=
  match columns.find? (·.participant.name = name) with
  | some c => .ok c.centre
  | none => .error .missingPlace

def firstCall (size : α) : α :=
  margin + boxHeight size + messageStep

def bottomOf (size : α) (messages : List Message) : α :=
  messages.foldl (fun b m => if m.sender = m.receiver then b + loopReach / 2.0 else b)
    (firstCall size + ofNat (messages.length - 1) * messageStep + messageStep)

def callStep (isLoop : Bool) : α :=
  if isLoop then messageStep + loopReach / 2.0 else messageStep

def callsFrom (columns : List (Column α)) : α → List Message → Except Failure (List (Call α))
  | _, [] => .ok []
  | y, m :: ms => do
    let start ← centreOf columns m.sender
    let stop ← centreOf columns m.receiver
    let isLoop := start == stop
    let more ← callsFrom columns (y + callStep isLoop) ms
    return ⟨m, isLoop, start, stop, y⟩ :: more

def Chart.ofScript (size : α) (s : Script) : Except Failure (Chart α) := do
  let (columns, next) := columnsFrom size margin s.participants
  let bottom := bottomOf size s.messages
  let calls ← callsFrom columns (firstCall size) s.messages
  return ⟨columns, calls, bottom,
    larger (next - columnGap + margin) (margin * 2.0) + loopReach, bottom + margin⟩

def Call.waypoints (c : Call α) : List (Point α) :=
  if c.isLoop then
    [⟨c.start, c.y⟩, ⟨c.start + loopReach, c.y⟩, ⟨c.start + loopReach, c.y + loopReach / 2.0⟩,
      ⟨c.start, c.y + loopReach / 2.0⟩]
  else [⟨c.start, c.y⟩, ⟨c.stop, c.y⟩]

def Call.beforeEnd (c : Call α) : Point α :=
  if c.isLoop then ⟨c.start + loopReach, c.y + loopReach / 2.0⟩ else ⟨c.start, c.y⟩

def Call.theEnd (c : Call α) : Point α :=
  if c.isLoop then ⟨c.start, c.y + loopReach / 2.0⟩ else ⟨c.stop, c.y⟩

end Yuml.Sequence
