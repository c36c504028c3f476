import Yuml.Proofs.Document.Dot
import Yuml.Proofs.Icon.Inlining
import Yuml.Proofs.Render.Elements
import Yuml.Proofs.Render.Settling
import Yuml.Proofs.Source.Lines

namespace Yuml

open IconLibrary Layered Notation Xml

theorem RenderOptions.check_of_empty {options : Value} (h : options.isTrue = false) : check options = .ok () := by
  cases options with
  | mapping entries =>
    obtain rfl := Value.entries_eq_nil h
    rfl
  | _ => simp [check, h]

theorem Notation.Grammar.drawn_content {k : DiagramKind} {g : Grammar} (hk : ofKind? k = some g) {direction : Direction}
    {lines : List (List Token)} {themed : Document} (hnodes : themed.nodes = (g.ofTokens direction lines).nodes)
    (w : themed.Drawing) {P : Text → Prop} {s : Style} (hs : Pen.Allows P s) : ∀ i ∈ w.content s, Pen.Drawn P i := by
  refine w.drawn_content hs (fun n hn => ?_) fun n hn c hc =>
    hs.legal c (g.legal_fill_ofTokens hk direction lines n (hnodes ▸ hn) c hc)
  have hid : n.id ∈ (g.ofTokens direction lines).nodes.map (·.id) := List.mem_map_of_mem (hnodes ▸ hn)
  rw [g.ids_ofTokens] at hid
  obtain ⟨p, -, heq⟩ := List.mem_map.mp hid
  exact heq ▸ hs.legal _ (Registry.legal_nodeId p.2)

section

variable {overrides engine options : Value} (hoverrides : overrides.isTrue = false) (hengine : engine.isTrue = false)

include hoverrides hengine

theorem Notation.Grammar.canvas_ok {k : DiagramKind} {g : Grammar} (hk : ofKind? k = some g) (direction : Direction)
    (lines : List (List Token)) (isDark : Bool) :
    ∃ (themed : Document) (layout : Layout Float) (width height : Float) (content : List Markup),
      (g.ofTokens direction lines).wrap isDark overrides = .ok themed ∧
      Layout.ofDocument themed engine = .ok layout ∧ (∀ r ∈ layout.routes, 2 ≤ r.waypoints.length) ∧
      (∀ i ∈ content, Pen.Drawn Legal i) ∧ themed.paint engine = .ok (Pen.canvas width height content).write := by
  obtain ⟨themed, w, s, hthemed, hlegal, hnodes, hw⟩ :=
    g.picture_ok direction lines isDark hoverrides hengine
  obtain ⟨style, gaps, hstyle, hgaps⟩ := Document.settled_of_picture hw
  have hnamed : themed.Named := by
    obtain ⟨header, rfl⟩ := Document.wrap_eq_ok hthemed
    exact (g.named_ofTokens direction lines).withHeader _
  obtain ⟨layout, hlayout, -, -, hends⟩ := Document.layout_ok hnamed hstyle hgaps
  exact ⟨themed, layout, w.width, w.height, w.content s, hthemed, hlayout, hends, drawn_content hk hnodes w hlegal,
    Except.bind_eq_ok.mpr ⟨_, hw, rfl⟩⟩

theorem succeeds_document (hoptions : options.isTrue = false) {k : DiagramKind} {g : Grammar}
    (hk : Grammar.ofKind? k = some g) (direction : Direction) (lines : List (List Token)) (isDark : Bool) :
    Succeeds ((g.ofTokens direction lines).render isDark overrides engine options) := by
  obtain ⟨themed, -, width, height, content, hthemed, -, -, hdrawn, hpaint⟩ :=
    Grammar.canvas_ok hoverrides hengine hk direction lines isDark
  obtain ⟨icon, hicons, hwidth, hheight, -⟩ := bundled_ok
  have hsvg : (g.ofTokens direction lines).painted isDark overrides engine options =
      .ok (Pen.canvas width height content).write := by
    rw [Document.painted, hthemed, RenderOptions.check_of_empty hoptions]
    exact hpaint
  unfold Document.render
  rw [hsvg, hicons]
  exact process_canvas hdrawn width height isDark hwidth hheight

end

theorem Sequence.canvas_ok (lines : List (List Token)) (isDark : Bool) :
    ∃ (width height : Float) (content : List Markup), (∀ i ∈ content, Pen.Drawn Legal i) ∧
      (Script.ofTokens lines).paint isDark = .ok (Pen.canvas width height content).write := by
  obtain ⟨chart, hpaint, hcolumns, -⟩ := paint_shows lines isDark
  exact ⟨_, _, _, drawn_script lines hcolumns isDark, hpaint⟩

theorem succeeds_instructions (s : Settings) (instructions : List Text) {engine options : Value}
    (hoverrides : s.overrides.isTrue = false) (hengine : engine.isTrue = false) (hoptions : options.isTrue = false) :
    Succeeds (renderInstructions s instructions engine options) := by
  unfold renderInstructions
  cases hk : Grammar.ofKind? s.kind with
  | some g => exact succeeds_document hoverrides hengine hoptions hk _ _ _
  | none =>
    obtain ⟨width, height, content, -, hpaint⟩ := Sequence.canvas_ok (instructions.map (split [.square])) s.isDark
    have hparse : (Sequence.Script.parse instructions).paint s.isDark =
        .ok (Pen.canvas width height content).write := hpaint
    dsimp only
    rw [hparse]
    exact .result _

theorem succeeds_text {draft : Draft × List Warning} {engine options : Value}
    (hoverrides : draft.1.overrides.isTrue = false) (hengine : engine.isTrue = false)
    (hoptions : options.isTrue = false) {s : Text} {k : DiagramKind}
    (hk : (((lastKind? (Source.lines s)).map Value.kind).getD draft.1.kind).kind? = some k) :
    ∃ svg, (render (.buffer (.text s)) draft engine options).1 = .ok svg := by
  obtain ⟨hempty, hother⟩ := (render_settles (.buffer (.text s)) (Source.lines s) rfl engine options).1 draft
  by_cases h : instructionsIn (Source.lines s) = []
  · exact ⟨_, hempty h⟩
  · obtain ⟨settings, -, -, -, hsettings, hresult⟩ := (hother h).2.2 k hk
    obtain ⟨svg, later, hsvg⟩ :=
      succeeds_instructions settings (instructionsIn (Source.lines s)) (hsettings ▸ hoverrides) hengine hoptions []
    exact ⟨svg, hresult.trans (congrArg Prod.fst hsvg)⟩

/-- Whatever a text says, it is drawn, unless the caller asks for something that cannot be had. No layout fails:
there are layers, places for all nodes, and lines with two ends; all widest lines are among some; and what is
painted can be read again. -/
theorem render_succeeds (draft : Draft × List Warning) (engine options : Value)
    (hoverrides : draft.1.overrides.isTrue = false) (hengine : engine.isTrue = false)
    (hoptions : options.isTrue = false) :
    (∀ s : Text, (((lastKind? (Source.lines s)).map Value.kind).getD draft.1.kind).kind?.isSome →
      ∃ svg, (render (.buffer (.text s)) draft engine options).1 = .ok svg) ∧
    (∀ asked : List (Text × Value), asked.filterMap Draft.kindIn? = [] →
      (Draft.ofOptions asked).1.kind.kind? = some .classes) ∧
    (∀ (k : DiagramKind) (direction : Direction) (isDark : Bool) (instructions : List Text),
      match Grammar.ofKind? k with
      | some g => ∃ (themed : Document) (layout : Layout Float) (painted : Text) (tree : Tree),
        (g.parse direction instructions).wrap isDark draft.1.overrides = .ok themed ∧
        Layout.ofDocument themed engine = .ok layout ∧ (∀ r ∈ layout.routes, 2 ≤ r.waypoints.length) ∧
        themed.paint engine = .ok painted ∧ readTree? painted = some tree
      | none => ∃ (painted : Text) (tree : Tree),
        (Sequence.Script.parse instructions).paint isDark = .ok painted ∧ readTree? painted = some tree) ∧
    (∀ n : Node, n.compartments ≠ []) ∧ ∀ s : Text, labelLines s ≠ [] := by
  refine ⟨fun s hkind => ?_, fun asked hasked => ?_, fun k direction isDark instructions => ?_,
    Node.compartments_ne_nil, Text.pieces_ne_nil⟩
  · obtain ⟨k, hk⟩ := Option.isSome_iff_exists.mp hkind
    exact succeeds_text hoverrides hengine hoptions hk
  · rw [Draft.ofOptions, (Draft.setAll_direction_kind {} asked).2, hasked]
    rfl
  · cases hk : Grammar.ofKind? k with
    | some g =>
      obtain ⟨themed, layout, width, height, content, hthemed, hlayout, hends, hdrawn, hpaint⟩ :=
        Grammar.canvas_ok hoverrides hengine hk direction (instructions.map (split g.brackets)) isDark
      exact ⟨themed, layout, _, _, hthemed, hlayout, hends, hpaint, Pen.readTree?_canvas hdrawn width height⟩
    | none =>
      obtain ⟨width, height, content, hdrawn, hpaint⟩ := Sequence.canvas_ok (instructions.map (split [.square])) isDark
      exact ⟨_, _, hpaint, Pen.readTree?_canvas hdrawn width height⟩

theorem render_succeeds_lenient :
    let s : Text := "// \x7btype:activity\x7d\n(a\u0001 & b\x7bbg:red\x7d)->(a\u0001 & b)-<c->\n// \x7bcolour:\x7d\n]\x7d(x->[y"
    ∃ svg, (render (.buffer (.text s)) (Draft.ofOptions [("dir", .text "RL"), ("isDark", .bool true)]) .none .none).1 =
      .ok svg := by
  intro s
  have hoverrides : (Draft.ofOptions [("dir", .text "RL"), ("isDark", .bool true)]).1.overrides.isTrue = false := by
    decide +kernel
  have hkind : (((lastKind? (Source.lines s)).map Value.kind).getD
      (Draft.ofOptions [("dir", .text "RL"), ("isDark", .bool true)]).1.kind).kind?.isSome := by
    decide +kernel
  exact (render_succeeds (Draft.ofOptions [("dir", .text "RL"), ("isDark", .bool true)]) .none .none hoverrides rfl
    rfl).1 s hkind

end Yuml
