import Yuml.Proofs.Icon.Shading
import Yuml.Proofs.Render.Icons
import Yuml.Proofs.Sequence.Shading

namespace Yuml

open Xml Pen IconLibrary Notation
open Except (Alike)

section Documents

variable {d : Document} (hd : d.Named) (overrides engine options : Value)

include hd

theorem Document.painted_alike :
    Alike (fun svg svg' => ∃ m m', d.Restyled m m' ∧ svg = m.write ∧ svg' = m'.write)
      (d.painted false overrides engine options) (d.painted true overrides engine options) := by
  refine (d.wrap_alike overrides).bind fun t t' ht => ?_
  exact .step _ fun _ _ => paint_alike hd ht engine

theorem recolours_document :
    Recolours (d.render false overrides engine options) (d.render true overrides engine options) := by
  obtain ⟨icon, hicons, hwidth, hheight, hfigure⟩ := bundled_ok
  unfold Document.render
  rw [hicons]
  refine .bind (Document.painted_alike hd overrides engine options) ?_
  rintro _ _ ⟨_, _, ⟨w, s, s', hs, rfl, rfl⟩, rfl, rfl⟩
  have hdrawn (s : Style) := w.drawn_content (allows_anything s) (fun _ _ => trivial) fun _ _ _ _ => trivial
  exact process_recolours hwidth hheight hfigure (hdrawn s) (hdrawn s') (w.tidy_content s) (w.tidy_content s')
    (w.content_apart hs) w.width w.height

end Documents

theorem recolours_instructions (s : Settings) (instructions : List Text) (engine options : Value) :
    Recolours (renderInstructions { s with isDark := false } instructions engine options)
      (renderInstructions { s with isDark := true } instructions engine options) := by
  unfold renderInstructions
  dsimp only
  cases Grammar.ofKind? s.kind with
  | some g =>
    have hnamed := g.named_ofTokens s.direction (instructions.map (split g.brackets))
    exact recolours_document hnamed s.overrides engine options
  | none =>
    obtain ⟨svg, svg', hsvg, hlight, hdark⟩ := Sequence.paint_recolours (instructions.map (split [.square]))
    exact ⟨_, _, .ok hsvg, congrArg (fun r => ExceptT.mk (pure r)) hlight, congrArg (fun r => ExceptT.mk (pure r)) hdark⟩

namespace Draft

def inTheme (d : Draft) (isDark : Bool) : Draft :=
  { d with isDark }

theorem apply_inTheme (x : Directive) (d : Draft) (isDark : Bool) :
    x.apply (d.inTheme isDark) = ((x.apply d).1.inTheme isDark, (x.apply d).2) := by
  unfold Directive.apply
  split
  · split <;> rfl
  · split
    · split <;> rfl
    · split
      · split <;> rfl
      · rfl

theorem setAll_append (d : Draft) (before after : List (Text × Value)) :
    setAll d (before ++ after) =
      ((setAll (setAll d before).1 after).1, (setAll d before).2 ++ (setAll (setAll d before).1 after).2) := by
  induction before generalizing d with
  | nil => rfl
  | cons option before ih =>
    obtain ⟨name, v⟩ := option
    rw [List.cons_append, setAll, setAll]
    cases Field.ofName? name with
    | none => exact ih d
    | some field =>
      dsimp only
      rw [ih, List.append_assoc]

end Draft

namespace Collector

def inTheme (c : Collector) (isDark : Bool) : Collector :=
  { c with draft := c.draft.inTheme isDark }

theorem take_inTheme (c : Collector) (isDark : Bool) (line : Text) :
    (c.inTheme isDark).take line = (c.take line).inTheme isDark := by
  unfold take
  cases Statement.ofLine line with
  | blank => rfl
  | comment => rfl
  | instruction s => rfl
  | directive x =>
    have happly : x.apply (c.inTheme isDark).draft = ((x.apply c.draft).1.inTheme isDark, (x.apply c.draft).2) :=
      Draft.apply_inTheme x c.draft isDark
    dsimp only
    rw [happly]
    rfl

theorem takeAll_inTheme (c : Collector) (isDark : Bool) (lines : List Text) :
    (c.inTheme isDark).takeAll lines = (c.takeAll lines).inTheme isDark := by
  induction lines generalizing c with
  | nil => rfl
  | cons line lines ih =>
    change ((c.inTheme isDark).take line).takeAll lines = _
    rw [take_inTheme]
    exact ih (c.take line)

theorem recolours (c : Collector) (engine options : Value) :
    Recolours ((c.inTheme false).render engine options) ((c.inTheme true).render engine options) := by
  unfold render
  change Recolours (if c.instructions.isEmpty then _ else _) (if c.instructions.isEmpty then _ else _)
  split
  · exact .ok (.refl _)
  · have hsettle : Alike
        (fun s s' => ∃ s₀ : Settings, s = { s₀ with isDark := false } ∧ s' = { s₀ with isDark := true })
        (c.draft.inTheme false).settle (c.draft.inTheme true).settle :=
      .step c.draft.resolveKind fun kind _ =>
        .ok ⟨⟨c.draft.direction, kind, c.draft.isDark, c.draft.overrides, c.draft.generate⟩, rfl, rfl⟩
    refine .bind hsettle ?_
    rintro _ _ ⟨s, rfl, rfl⟩
    exact recolours_instructions s c.instructions engine options

end Collector

theorem render_recolours (input : Source.Input) (engine options : Value) :
    (∀ (draft : Draft) (warnings : List Warning),
      let light := render input ({ draft with isDark := false }, warnings) engine options
      let dark := render input ({ draft with isDark := true }, warnings) engine options
      Alike SvgApart light.1 dark.1 ∧ light.2 = dark.2) ∧
    ∀ (asked : List (Text × Value)) (isDark : Bool),
      Draft.ofOptions (asked ++ [("is_dark".toList, Value.bool isDark)]) =
        ({ (Draft.ofOptions asked).1 with isDark }, (Draft.ofOptions asked).2) := by
  refine ⟨fun draft warnings => ?_, fun asked isDark => ?_⟩
  · let c : Collector := ⟨draft, [], warnings⟩
    have htake (isDark : Bool) : Collector.takeAll ⟨{ draft with isDark }, [], warnings⟩ input.lines.1 =
        (c.takeAll input.lines.1).inTheme isDark := c.takeAll_inTheme isDark input.lines.1
    unfold render
    dsimp only
    rw [htake false, htake true]
    cases input.lines.2 with
    | some failure => exact ⟨.error _, rfl⟩
    | none =>
      obtain ⟨r, r', halike, hlight, hdark⟩ := (c.takeAll input.lines.1).recolours engine options
      dsimp only
      rw [hlight, hdark]
      exact ⟨halike, rfl⟩
  · rw [Draft.ofOptions, Draft.setAll_append]
    exact congrArg _ (List.append_nil _)

end Yuml
