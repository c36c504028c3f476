import Yuml.Proofs.Drawing.Groups
import Yuml.Proofs.Drawing.Theme
import Yuml.Proofs.Notation.Grammar
import Yuml.Proofs.Sequence.Picture

namespace Yuml

open Notation Pen Xml
open Item (named)
open Registry (nodeId)

namespace Notation.Grammar

variable (g : Grammar)

/-- What a picture shows of some lines: a group for each node, numbered in the order of their first mention and
titled with the label it has there, and a group for each pair of neighbouring tokens, titled with their ids. -/
structure Shows (lines : List (List Token)) (m : Markup) : Prop where
  nodeGroups : (groups "node" m).map (fun i => (attribute? "id" i, title? i)) =
    (firstMentions (g.mentions lines)).zipIdx.map fun p => (some (nodeId p.2), some (legalText p.1.label))
  edgeGroups : (groups "edge" m).map title? = (lines.flatMap fun ts => consecutive (nodes ts)).map fun p =>
    some (idAmong (firstMentions (g.mentions lines)) (g.mention p.1) ++ "->" ++
      idAmong (firstMentions (g.mentions lines)) (g.mention p.2))

theorem named_ofTokens (direction : Direction) (lines : List (List Token)) : (g.ofTokens direction lines).Named :=
  ⟨g.ids_nodup direction lines, g.ends_mem_ids direction lines⟩

variable {direction : Direction} {lines : List (List Token)} {themed : Document} {isDark : Bool}
  {overrides engine : Value} {m : Markup}

theorem shows_picture (hthemed : (g.ofTokens direction lines).wrap isDark overrides = .ok themed)
    (hm : themed.picture engine = .ok m) : g.Shows lines m := by
  obtain ⟨header, rfl⟩ := Document.wrap_eq_ok hthemed
  obtain ⟨hnodes, hedges⟩ := g.ofTokens_spec direction lines
  have hnamed := g.named_ofTokens direction lines
  obtain ⟨w, s, rfl⟩ := Document.exists_drawing (hnamed.withHeader header) hm
  constructor
  · rw [w.map_nodeGroups]
    have hview := congrArg (List.map fun q : Text × Text => (some q.1, some (legalText q.2))) hnodes
    rwa [List.map_map, List.map_map] at hview
  · have htitle (l : Link) (firsts : List Mention) :
        legalText ((g.edgeAmong firsts l).tail ++ "->".toList ++ (g.edgeAmong firsts l).head) =
          idAmong firsts (g.mention l.tail) ++ "->".toList ++ idAmong firsts (g.mention l.head) :=
      legalText_eq_self (legal_append (legal_append (Registry.legal_nodeId _) (legal_of_all (by decide))) (Registry.legal_nodeId _))
    rw [w.map_edgeGroups, ← ends_flatMap_links, List.map_map]
    change (g.ofTokens direction lines).edges.map _ = _
    rw [hedges, List.map_map]
    exact List.map_congr_left fun l _ => congrArg some (htitle l _)

theorem picture_ok (direction : Direction) (lines : List (List Token)) (isDark : Bool)
    (hoverrides : overrides.isTrue = false) (hengine : engine.isTrue = false) :
    ∃ (themed : Document) (w : themed.Drawing) (s : Style),
      (g.ofTokens direction lines).wrap isDark overrides = .ok themed ∧ Allows Legal s ∧
      themed.nodes = (g.ofTokens direction lines).nodes ∧ themed.picture engine = .ok (w.picture s) := by
  obtain ⟨s, hs, hlegal⟩ := Style.ofHeader_choose isDark
  have hnamed := (g.named_ofTokens direction lines).withHeader (some (Theme.choose isDark).header)
  obtain ⟨w, hw⟩ := Document.picture_ok hnamed hs (Layered.Layout.gaps_of_empty hengine)
  exact ⟨_, w, s, Document.wrap_of_empty _ isDark hoverrides, hlegal, rfl, hw⟩

end Notation.Grammar

namespace Sequence

/-- What a chart shows of some lines: a box and a lifeline for each name, in the order of their first mention,
and a path for each pair of neighbouring tokens, from the lifeline of the one to that of the other. -/
structure Chart.Shows (chart : Chart Float) (t : Theme) (lines : List (List Token)) : Prop where
  names : chart.columns.map (·.participant.name) = ((lines.flatMap nodes).map (·.bare)).eraseDups
  ends : chart.calls.map (fun c => (c.message.sender, c.message.receiver)) =
    (lines.flatMap fun ts => consecutive (nodes ts)).map fun p => (p.1.bare, p.2.bare)
  centres : ∀ call ∈ chart.calls, centreOf chart.columns call.message.sender = .ok call.start ∧
    centreOf chart.columns call.message.receiver = .ok call.stop
  boxes : named "rect" (chart.picture t) = chart.columns.map (box t)
  lifelines : named "line" (chart.picture t) = chart.columns.map (lifeline t chart.bottom)
  paths : named "path" (chart.picture t) = chart.calls.map (messagePath t)
  texts : (named "text" (chart.picture t)).map Item.allText =
    (chart.columns.map (·.participant.name)).flatMap shownLines ++
      chart.calls.flatMap fun c => if c.message.text.isEmpty then [] else shownLines c.message.text

theorem paint_shows (lines : List (List Token)) (isDark : Bool) : ∃ chart : Chart Float,
    (Script.ofTokens lines).paint isDark = .ok (chart.picture (Theme.choose isDark)).write ∧
      chart.columns.map (·.participant) = (Script.ofTokens lines).participants ∧
      chart.Shows (Theme.choose isDark) lines := by
  obtain ⟨chart, hchart, hcolumns, hcalls, hcentres⟩ :=
    Chart.ofScript_ok (lettering (Theme.choose isDark)).size fun m hm => Script.ends_mem_names lines hm
  have hpaint : (Script.ofTokens lines).paint isDark = .ok (chart.picture (Theme.choose isDark)).write :=
    Except.bind_eq_ok.mpr ⟨chart, hchart, rfl⟩
  have hnames : chart.columns.map (·.participant.name) = ((lines.flatMap nodes).map (·.bare)).eraseDups := by
    rw [← Script.names_ofTokens, Script.names, ← hcolumns, List.map_map]
    rfl
  have hends : chart.calls.map (fun c => (c.message.sender, c.message.receiver)) =
      (lines.flatMap fun ts => consecutive (nodes ts)).map fun p => (p.1.bare, p.2.bare) := by
    have hmessages := congrArg (List.map fun m : Message => (m.sender, m.receiver)) hcalls
    rw [Script.messages_ofTokens, List.map_map, List.map_map] at hmessages
    rw [← ends_flatMap_links, List.map_map]
    exact hmessages
  exact ⟨chart, hpaint, hcolumns, hnames, hends, hcentres, boxes_picture _ chart, lifelines_picture _ chart,
    paths_picture _ chart, texts_picture _ chart⟩

end Sequence

theorem paint_shows_source (k : DiagramKind) (direction : Direction) (instructions : List Text) (isDark : Bool) :
    match Grammar.ofKind? k with
    | some g =>
      let painted (overrides engine : Value) : Except Failure Text := do
        (← (g.parse direction instructions).wrap isDark overrides).paint engine
      let picture (overrides engine : Value) : Except Failure Markup := do
        (← (g.parse direction instructions).wrap isDark overrides).picture engine
      (∀ overrides engine svg, painted overrides engine = .ok svg → ∃ m, picture overrides engine = .ok m ∧
        svg = m.write ∧ g.Shows (instructions.map (split g.brackets)) m) ∧
      ∀ overrides engine, overrides.isTrue = false → engine.isTrue = false →
        ∃ svg, painted overrides engine = .ok svg
    | none => ∃ chart : Sequence.Chart Float,
      (Sequence.Script.parse instructions).paint isDark = .ok (chart.picture (Theme.choose isDark)).write ∧
        chart.Shows (Theme.choose isDark) (instructions.map (split [.square])) := by
  cases Grammar.ofKind? k with
  | some g =>
    refine ⟨fun overrides engine svg hsvg => ?_, fun overrides engine hoverrides hengine => ?_⟩
    · obtain ⟨themed, hthemed, hpaint⟩ := Except.bind_eq_ok.mp hsvg
      obtain ⟨m, hm, hwrite⟩ := Except.bind_eq_ok.mp hpaint
      exact ⟨m, Except.bind_eq_ok.mpr ⟨themed, hthemed, hm⟩, (Except.ok.inj hwrite).symm,
        g.shows_picture hthemed hm⟩
    · obtain ⟨themed, w, s, hthemed, -, -, hw⟩ :=
        g.picture_ok direction (instructions.map (split g.brackets)) isDark hoverrides hengine
      exact ⟨_, Except.bind_eq_ok.mpr ⟨themed, hthemed, Except.bind_eq_ok.mpr ⟨_, hw, rfl⟩⟩⟩
  | none =>
    obtain ⟨chart, hpaint, -, hshows⟩ := Sequence.paint_shows (instructions.map (split [.square])) isDark
    exact ⟨chart, hpaint, hshows⟩

theorem paint_shows_source_cycle :
    let instructions : List Text := ["[a]->[b]->[a\x7bbg:red\x7d]", "[b]-[b]", "[a]->[b]"]
    ∃ (svg : Text) (m : Markup),
      (do (← (Grammar.classes.parse .topDown instructions).wrap false .none).paint .none) = .ok svg ∧ svg = m.write ∧
      (groups "node" m).map (fun i => (attribute? "id" i, title? i)) =
        [(some "A1".toList, some "a".toList), (some "A2".toList, some "b".toList)] ∧
      (groups "edge" m).map title? =
        [some "A1->A2".toList, some "A2->A1".toList, some "A2->A2".toList, some "A1->A2".toList] := by
  intro instructions
  obtain ⟨hshows, hpaint⟩ := paint_shows_source .classes .topDown instructions false
  obtain ⟨svg, hsvg⟩ := hpaint .none .none rfl rfl
  obtain ⟨m, -, hm, hnodes, hedges⟩ := hshows .none .none svg hsvg
  exact ⟨svg, m, hsvg, hm, hnodes.trans (by decide +kernel), hedges.trans (by decide +kernel)⟩

end Yuml
