import Yuml.Proofs.Drawing.LineEnds
import Yuml.Proofs.Icon.Inlined
import Yuml.Proofs.Render.Total

namespace Yuml

open IconLibrary Layered Notation Xml

theorem noReturn_instructionsIn (input : Source.Input) : ∀ s ∈ instructionsIn input.lines.1, Text.NoReturn s := by
  intro s hs
  obtain ⟨line, hline, rfl⟩ := List.mem_map.mp (List.mem_filter.mp hs).1
  have hone : Text.NoReturn line := fun hmem => absurd (Source.oneLine_input input line hline '\r' hmem) (by decide)
  exact hone.trim

namespace Notation.Grammar

variable {k : DiagramKind} {g : Grammar} (hk : ofKind? k = some g) {direction : Direction} {instructions : List Text}
  {isDark : Bool} {overrides engine : Value} (hoverrides : overrides.isTrue = false) {themed : Document}
  (hthemed : (g.parse direction instructions).wrap isDark overrides = .ok themed) {painted : Text}
  (hpaint : themed.paint engine = .ok painted)

include hoverrides hthemed hpaint

theorem exists_drawing_of_paint : ∃ (w : themed.Drawing) (s : Style), Pen.Allows Legal s ∧
    themed.nodes = (g.parse direction instructions).nodes ∧ themed.edges = (g.parse direction instructions).edges ∧
    painted = (w.picture s).write := by
  rw [Document.wrap_of_empty _ _ hoverrides] at hthemed
  cases hthemed
  obtain ⟨m, hm, hwrite⟩ := Except.bind_eq_ok.mp hpaint
  obtain ⟨s, hs, hlegal⟩ := Style.ofHeader_choose isDark
  obtain ⟨_, gaps, -, hgaps⟩ := Document.settled_of_picture hm
  have hnamed := (g.named_ofTokens direction (instructions.map (split g.brackets))).withHeader
    (some (Theme.choose isDark).header)
  obtain ⟨w, hw⟩ := Document.picture_ok hnamed hs hgaps
  obtain rfl := Except.ok.inj (hw.symm.trans hm)
  exact ⟨w, s, hlegal, rfl, rfl, (Except.ok.inj hwrite).symm⟩

end Notation.Grammar

theorem Document.render_eq_process {d : Document} {isDark : Bool} {overrides engine options : Value} {svg : Text}
    (h : d.painted isDark overrides engine options = .ok svg) {icons : IconLibrary} (hicons : bundled = .ok icons) :
    d.render isDark overrides engine options = icons.process isDark svg := by
  unfold render
  rw [h, hicons]
  rfl

theorem Notation.Grammar.process_painted {k : DiagramKind} {g : Grammar} (hk : Grammar.ofKind? k = some g)
    (direction : Direction) {instructions : List Text} (hclean : ∀ s ∈ instructions, Text.NoReturn s) {isDark : Bool}
    {overrides engine options : Value} (hoverrides : overrides.isTrue = false) {painted : Text}
    (hpainted : (g.parse direction instructions).painted isDark overrides engine options = .ok painted) {icon : Icon}
    (hwidth : (icon.width == 0.0) = false) (hheight : (icon.height == 0.0) = false)
    (hfigure : icon.children = Item.inSpaceAll svgSpace actorFigure) :
    let actors := ((g.parse direction instructions).nodes.filter (·.shape = .actor)).length
    ∃ (result : Text) (t t' : Tree), process [("actor", icon)] isDark painted = pure result ∧
      readTree? painted = some t ∧ readTree? result = some t' ∧ Inlined icon (Theme.choose isDark).ink t t' ∧
      (placeholders t).length = actors ∧ (iconGroups icon t').length = actors ∧ placeholders t' = [] ∧
      (actors = 0 → result = painted) := by
  intro actors
  obtain ⟨themed, hthemed, hpaint⟩ := Except.bind_eq_ok.mp hpainted
  obtain ⟨_, -, hpaint⟩ := Except.bind_eq_ok.mp hpaint
  obtain ⟨w, s, hlegal, hnodes, hedges, rfl⟩ := Grammar.exists_drawing_of_paint hoverrides hthemed hpaint
  have hshows := Grammar.showsNoReturn_parse hk direction hclean
  have hends := g.noReturn_ends direction (instructions.map (split g.brackets))
  have hsame := w.unified_content s ⟨hnodes ▸ hshows.nodes, hedges ▸ hshows.edges⟩ (hedges ▸ hends)
  obtain ⟨result, t, t', hresult, ht, ht', hinlined, hmarks, hnone, hgroups, hplain⟩ :=
    process_drawing hwidth hheight hfigure (Grammar.drawn_content hk hnodes w hlegal) (w.tidy_content s) hsame w.width
      w.height isDark
  have hcount : ((w.content s).flatMap (Item.named "image")).length = actors := by
    rw [w.length_images, hnodes]
  refine ⟨result, t, t', hresult, ht, ht', hinlined, hmarks.trans hcount, hgroups.trans hcount, hnone, fun hzero => ?_⟩
  exact hplain (List.length_eq_zero_iff.mp (hcount.trans hzero))

end Yuml
