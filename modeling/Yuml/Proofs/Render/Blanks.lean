import Yuml.Proofs.Notation.Blanks
import Yuml.Proofs.Render.Elements

namespace Yuml

open Notation

theorem Notation.readMessage_trimGap (s : Option Text) : readMessage (trimGap s) = readMessage s := by
  unfold readMessage
  simp only [getD_trimGap, Text.trim_trim]

namespace Sequence.Script

theorem meet_trimmed (s : Script) (t : NodeToken) : s.meet t.trimmed = s.meet t := by
  unfold meet
  rw [NodeToken.trimmed, splitStyle_trim]

theorem messageOf_trimmed (l : Link) : messageOf l.trimmed = messageOf l := by
  unfold messageOf
  simp only [Link.trimmed, NodeToken.trimmed, NodeToken.bare, splitStyle_trim, readMessage_trimGap]

theorem takeTokens_trimmed (s : Script) {ts : List Token} (h : Alternate ts) :
    s.takeTokens (trimmed ts) = s.takeTokens ts := by
  unfold takeTokens
  rw [nodes_trimmed, links_trimmed h, List.foldl_map, List.map_map]
  simp only [meet_trimmed, Function.comp_def, messageOf_trimmed]

theorem ofTokens_trimmed {lines : List (List Token)} (h : ∀ ts ∈ lines, Alternate ts) :
    ofTokens (lines.map trimmed) = ofTokens lines := by
  unfold ofTokens
  rw [List.foldl_map]
  exact List.foldl_ext _ _ _ fun s ts hts => takeTokens_trimmed s (h ts hts)

end Sequence.Script

def AlikeButBlanks (bs : List Bracket) (lines lines' : List Text) : Prop :=
  (lines.map (split bs)).map trimmed = (lines'.map (split bs)).map trimmed

theorem alternate_lines (bs : List Bracket) (lines : List Text) : ∀ ts ∈ lines.map (split bs), Alternate ts :=
  List.forall_mem_map.mpr fun line _ => alternate_split bs line

theorem parse_ignores_blanks (k : DiagramKind) (lines lines' : List Text) :
    match Grammar.ofKind? k with
    | some g => AlikeButBlanks g.brackets lines lines' → ∀ direction, g.parse direction lines = g.parse direction lines'
    | none => AlikeButBlanks [.square] lines lines' → ∀ isDark, ∃ svg,
        (Sequence.Script.parse lines).paint isDark = .ok svg ∧ (Sequence.Script.parse lines').paint isDark = .ok svg := by
  split
  · next g hk =>
    intro h direction
    have hread (lines : List Text) : g.parse direction lines =
        g.ofTokens direction ((lines.map (split g.brackets)).map trimmed) :=
      (Grammar.ofTokens_trimmed hk direction (alternate_lines g.brackets lines)).symm
    rw [hread lines, hread lines', h]
  · intro h isDark
    have hread (lines : List Text) : Sequence.Script.parse lines =
        Sequence.Script.ofTokens ((lines.map (split [.square])).map trimmed) :=
      (Sequence.Script.ofTokens_trimmed (alternate_lines [.square] lines)).symm
    obtain ⟨chart, hpaint, -⟩ := Sequence.paint_shows ((lines.map (split [.square])).map trimmed) isDark
    rw [hread lines, hread lines', ← h]
    exact ⟨_, hpaint, hpaint⟩

theorem parse_ignores_blanks_between :
    let spaced : List Text := [" [ a\u00a0\x7bbg:red\x7d ]\t<> - >\t[note: b \x7b bg : #f0f \x7d ] [ c | x ] ", "  "]
    let plain : List Text := ["[a\u00a0\x7bbg:red\x7d]<> - >[note: b \x7b bg : #f0f \x7d][c | x]", ""]
    spaced ≠ plain ∧ AlikeButBlanks [.square] spaced plain ∧
      (∀ direction, Grammar.classes.parse direction spaced = Grammar.classes.parse direction plain) ∧
      ∀ isDark, ∃ svg, (Sequence.Script.parse spaced).paint isDark = .ok svg ∧
        (Sequence.Script.parse plain).paint isDark = .ok svg := by
  intro spaced plain
  have hne : spaced ≠ plain := by decide +kernel
  have halike : AlikeButBlanks [.square] spaced plain := by
    unfold AlikeButBlanks
    decide +kernel
  exact ⟨hne, halike, parse_ignores_blanks .classes spaced plain halike, parse_ignores_blanks .sequence spaced plain halike⟩

end Yuml
