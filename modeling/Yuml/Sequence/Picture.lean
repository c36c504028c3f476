import Yuml.Sequence.Chart
import Yuml.Drawing.NodePicture
import Yuml.Xml.Writer

namespace Yuml.Sequence

open Number Xml Pen

def lettering (t : Theme) : Lettering :=
  ⟨t.font, 10.0, t.ink⟩

def box (t : Theme) (c : Column Float) : Markup :=
  rect c.x margin c.width (boxHeight (lettering t).size) [("fill", fillText c.participant.fill), ("stroke", t.ink)]

def columnName (t : Theme) (c : Column Float) : List Markup :=
  label c.centre (margin + padY) c.participant.name (lettering t) "middle"

def lifeline (t : Theme) (bottom : Float) (c : Column Float) : Markup :=
  .tag "line" [("x1", fmt c.centre), ("y1", fmt (margin + boxHeight (lettering t).size)), ("x2", fmt c.centre),
    ("y2", fmt bottom), ("stroke", t.ink), ("stroke-dasharray", dash)]

def columnPicture (t : Theme) (bottom : Float) (c : Column Float) : List Markup :=
  box t c :: columnName t c ++ [lifeline t bottom c]

def messagePath (t : Theme) (c : Call Float) : Markup :=
  .tag "path" (("d", path c.waypoints) :: ("fill", "none") :: ("stroke", t.ink) ::
    if c.message.sending = .reply then [("stroke-dasharray", dash)] else [])

def messageTip (t : Theme) (c : Call Float) : List Markup :=
  arrow c.beforeEnd c.theEnd (if c.message.sending = .synchronous then .filled else .vee) t.ink

def messageText (t : Theme) (c : Call Float) : List Markup :=
  if c.message.text.isEmpty then []
  else label (if c.isLoop then c.start + loopReach + 4.0 else (c.start + c.stop) / 2.0)
    (c.y - lineHeight (lettering t).size - 2.0) c.message.text (lettering t) (if c.isLoop then "start" else "middle")

def callPicture (t : Theme) (c : Call Float) : List Markup :=
  messagePath t c :: messageTip t c ++ messageText t c

def figures (t : Theme) (c : Chart Float) : List Markup :=
  c.columns.flatMap (columnPicture t c.bottom) ++ c.calls.flatMap (callPicture t)

def Chart.picture (t : Theme) (c : Chart Float) : Markup :=
  canvas c.width c.height [.tag "g" [("class", "sequence")] (figures t c)]

def Script.paint (s : Script) (isDark : Bool) : Except Failure Text := do
  let t := Theme.choose isDark
  let chart ← Chart.ofScript (lettering t).size s
  return (chart.picture t).write

end Yuml.Sequence
