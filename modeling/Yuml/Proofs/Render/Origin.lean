import Yuml.Proofs.Drawing.Backdrop
import Yuml.Proofs.Icon.Shading
import Yuml.Proofs.Render.Icons

namespace Yuml

open IconLibrary Notation Xml

def Value.Brings (overrides : Value) (c : Char) : Prop :=
  ∃ q ∈ Header.shown, ∃ v, overrides.Sets q.1 q.2 v ∧ c ∈ v

theorem IconLibrary.eq_or_legal_of_process {icon : Icon} (hwidth : (icon.width == 0.0) = false)
    (hheight : (icon.height == 0.0) = false) (hfigure : icon.children = Item.inSpaceAll svgSpace actorFigure)
    {P : Text → Prop} {content : List Markup} (h : ∀ i ∈ content, Pen.Drawn P i) (htidy : Item.TidyAll content)
    {width height : Float} {isDark : Bool} {svg : Text} {earlier : List Text}
    (hrun : ((process [("actor", icon)] isDark (Pen.canvas width height content).write).run.run earlier).1 = .ok svg) :
    svg = (Pen.canvas width height content).write ∨ Legal svg := by
  by_cases hlegal : Legal (Pen.canvas width height content).write
  · have hdrawn := Pen.drawn_of_legal h hlegal
    rw [process_canvas_eq hwidth hheight hfigure hdrawn htidy] at hrun
    obtain rfl := Except.ok.inj hrun
    have hink := (Theme.legal_choose isDark).1
    have hunified := Item.allWellFormed_unifiedAll content (Pen.allWellFormed_drawn hdrawn)
    split
    · exact .inr (Item.legal_write _ (Pen.wellFormed_canvas (allWellFormed_swapped icon hink hunified) width height))
    · exact .inl rfl
  · rw [process_of_illegal _ _ hlegal] at hrun
    split at hrun
    · cases hrun
    · exact .inl (Except.ok.inj hrun).symm

theorem Notation.Grammar.origin_render {k : DiagramKind} {g : Grammar} (hk : Grammar.ofKind? k = some g)
    {direction : Direction} {instructions : List Text} {isDark : Bool} {overrides engine options : Value} {svg : Text}
    {earlier : List Text}
    (h : (((g.parse direction instructions).render isDark overrides engine options).run.run earlier).1 = .ok svg) :
    ∀ c ∈ svg, isLegal c = true ∨ overrides.Brings c := by
  obtain ⟨icon, hicons, hwidth, hheight, hfigure⟩ := bundled_ok
  cases hpainted : (g.parse direction instructions).painted isDark overrides engine options with
  | error e =>
    unfold Document.render at h
    rw [hpainted] at h
    cases h
  | ok painted =>
    rw [Document.render_eq_process hpainted hicons] at h
    obtain ⟨themed, hthemed, hrest⟩ := Except.bind_eq_ok.mp hpainted
    obtain ⟨_, -, hpaint⟩ := Except.bind_eq_ok.mp hrest
    obtain ⟨m, hm, hwrite⟩ := Except.bind_eq_ok.mp hpaint
    obtain ⟨s, gaps, hs, hgaps⟩ := Document.settled_of_picture hm
    have hallows : Pen.Allows (fun v => ∀ c ∈ v, isLegal c = true ∨ overrides.Brings c) s :=
      Document.allows_of_wrap (fun v hv c hc => .inl (hv c hc)) hthemed
        (fun q hq v hset c hc => .inr ⟨q, hq, v, hset, hc⟩) hs
    obtain ⟨hnodes, hnamed⟩ : themed.nodes = (g.parse direction instructions).nodes ∧ themed.Named := by
      obtain ⟨header, rfl⟩ := Document.wrap_eq_ok hthemed
      exact ⟨rfl, (g.named_ofTokens direction (instructions.map (split g.brackets))).withHeader (some header)⟩
    obtain ⟨w, hw⟩ := Document.picture_ok hnamed hs hgaps
    obtain rfl := Except.ok.inj (hw.symm.trans hm)
    obtain rfl := Except.ok.inj hwrite
    have hcontent := Grammar.drawn_content hk hnodes w hallows
    rcases eq_or_legal_of_process hwidth hheight hfigure hcontent (w.tidy_content s) h with rfl | hlegal
    · exact Pen.of_mem_write_canvas (fun _ => .inl) hcontent w.width w.height
    · exact fun c hc => .inl (hlegal c hc)

theorem legal_emptyDocument : Legal emptyDocument :=
  legal_of_all (by decide)

theorem origin_instructions {s : Settings} {instructions : List Text} {engine options : Value} {svg : Text}
    {earlier : List Text} (h : ((renderInstructions s instructions engine options).run.run earlier).1 = .ok svg) :
    ∀ c ∈ svg, isLegal c = true ∨ s.overrides.Brings c := by
  unfold renderInstructions at h
  cases hk : Grammar.ofKind? s.kind with
  | some g =>
    rw [hk] at h
    exact Grammar.origin_render hk h
  | none =>
    rw [hk] at h
    obtain ⟨width, height, content, hdrawn, hpaint⟩ := Sequence.canvas_ok (instructions.map (split [.square])) s.isDark
    obtain rfl := Except.ok.inj (hpaint.symm.trans h)
    exact fun c hc => .inl (Item.legal_write _ (Pen.wellFormed_canvas (Pen.allWellFormed_drawn hdrawn) width height) c hc)

theorem IconLibrary.process_of_unmarked (icons : IconLibrary) (isDark : Bool) {svg : Text} (h : 'y' ∉ svg) :
    process icons isDark svg = pure svg := by
  have hmark : ¬ Text.occursIn placeholderMark svg = true := by
    rw [Text.occursIn_iff]
    exact fun hmark => h (hmark.subset (by decide))
  rw [process, if_neg hmark]

section Backdrop

variable (colour : Text) (hcolour : colour ≠ "transparent".toList) (hplain : 'y' ∉ colour)

include hcolour hplain

theorem Document.render_onBackdrop {d : Document} (hnodes : d.nodes = []) (hedges : d.edges = []) :
    ∃ svg, d.render false (.backdrop colour) .none .none = pure svg ∧ (Legal svg → Legal colour) := by
  have hd : d.Named := by
    constructor
    · rw [hnodes]
      exact List.nodup_nil
    · rw [hedges]
      exact List.forall_mem_nil _
  obtain ⟨themed, w, hwrap, hsame, hsame', hw⟩ := Document.picture_onBackdrop hd colour
  obtain ⟨icon, hicons, -⟩ := bundled_ok
  have hpainted : d.painted false (.backdrop colour) .none .none = .ok (w.picture (.onBackdrop colour)).write :=
    Except.bind_eq_ok.mpr ⟨themed, hwrap, Except.bind_eq_ok.mpr ⟨(), rfl, Except.bind_eq_ok.mpr ⟨_, hw, rfl⟩⟩⟩
  refine ⟨_, ?_, w.legal_of_onBackdrop hcolour⟩
  rw [Document.render_eq_process hpainted hicons]
  exact process_of_unmarked _ _ (w.not_mem_write_onBackdrop (hsame.trans hnodes) (hsame'.trans hedges) hplain)

theorem render_onBackdrop : ∃ svg,
    (render (.buffer (.text "a")) (Draft.ofOptions [("dotHeaderOverrides", .backdrop colour)]) .none .none).1 = .ok svg ∧
      (Legal svg → Legal colour) := by
  let d := Grammar.classes.parse ((lastDirection? (Source.lines "a")).getD .topDown) (instructionsIn (Source.lines "a"))
  have hnodes : d.nodes = [] := by decide +kernel
  have hedges : d.edges = [] := by decide +kernel
  have hsome : instructionsIn (Source.lines "a") ≠ [] := by decide +kernel
  have hkind : (((lastKind? (Source.lines "a")).map Value.kind).getD (.kind .classes)).kind? = some .classes := by
    decide +kernel
  obtain ⟨hsettles, -⟩ := render_settles (.buffer (.text "a")) (Source.lines "a") rfl .none .none
  obtain ⟨s, hk, hdirection, hdark, hover, hresult⟩ :=
    ((hsettles (Draft.ofOptions [("dotHeaderOverrides", .backdrop colour)])).2 hsome).2.2 .classes hkind
  have hdirection : s.direction = (lastDirection? (Source.lines "a")).getD .topDown := hdirection
  have hdark : s.isDark = false := hdark
  have hover : s.overrides = .backdrop colour := hover
  obtain ⟨svg, hsvg, hlegal⟩ := Document.render_onBackdrop colour hcolour hplain hnodes hedges
  refine ⟨svg, ?_, hlegal⟩
  rw [hresult, renderInstructions, hk, hdirection, hdark, hover]
  exact congrArg (fun r : Reporting Text => (r.run.run []).1) hsvg

end Backdrop

theorem render_legal_but_overrides (input : Source.Input) (draft : Draft × List Warning) (engine options : Value)
    {svg : Text} (h : (render input draft engine options).1 = .ok svg) :
    ∀ c ∈ svg, isLegal c = true ∨ draft.1.overrides.Brings c := by
  cases hread : input.lines with
  | mk lines stopped =>
    cases stopped with
    | some failure =>
      unfold render at h
      rw [hread] at h
      cases h
    | none =>
      obtain ⟨hempty, hother⟩ := (render_settles input lines hread engine options).1 draft
      by_cases hnone : instructionsIn lines = []
      · obtain rfl := Except.ok.inj ((hempty hnone).symm.trans h)
        exact fun c hc => .inl (legal_emptyDocument c hc)
      · obtain ⟨hmissing, hinvalid, hknown⟩ := hother hnone
        cases hkind : (((lastKind? lines).map Value.kind).getD draft.1.kind).kind? with
        | some k =>
          obtain ⟨s, -, -, -, hover, hresult⟩ := hknown k hkind
          rw [← hover]
          exact origin_instructions (hresult.symm.trans h)
        | none =>
          by_cases hgiven : ((lastKind? lines).map Value.kind).getD draft.1.kind = .none
          · cases (hmissing.mpr hgiven).symm.trans h
          · cases ((hinvalid _).mpr ⟨rfl, hgiven, hkind⟩).symm.trans h

theorem render_legal_but_overrides_on_colour : ∃ svg,
    (render (.buffer (.text "a")) (Draft.ofOptions [("dotHeaderOverrides", .backdrop "re\x01d")]) .none .none).1 =
        .ok svg ∧
      ∀ c ∈ svg, isLegal c = true ∨ c ∈ "re\x01d".toList := by
  obtain ⟨svg, hsvg, -⟩ := render_onBackdrop "re\x01d" (by decide) (by decide)
  have hall := render_legal_but_overrides (.buffer (.text "a"))
    (Draft.ofOptions [("dotHeaderOverrides", .backdrop "re\x01d")]) .none .none hsvg
  refine ⟨svg, hsvg, fun c hc => (hall c hc).imp_right ?_⟩
  rintro ⟨q, -, v, hset, hv⟩
  exact Value.eq_of_sets_backdrop hset ▸ hv

theorem render_not_legal_on_colour : ∃ svg,
    (render (.buffer (.text "a")) (Draft.ofOptions [("dotHeaderOverrides", .backdrop "re\x01d")]) .none .none).1 =
        .ok svg ∧
      ¬ Legal svg ∧ readTree? svg = none := by
  obtain ⟨svg, hsvg, hlegal⟩ := render_onBackdrop "re\x01d" (by decide) (by decide)
  have hcontrol : ¬ Legal "re\x01d".toList := fun h => absurd (h '\x01' (by decide)) (by decide)
  have hillegal : ¬ Legal svg := fun h => hcontrol (hlegal h)
  exact ⟨svg, hsvg, hillegal, readTree?_of_illegal hillegal⟩

end Yuml
