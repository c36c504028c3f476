import Yuml.Proofs.Drawing.Recolouring
import Yuml.Proofs.Sequence.Picture

namespace Yuml.Sequence

open Number Xml Pen
open Notation (Token)

section

variable {t t' : Theme} (hfont : t.font = t'.font) (hink : InkApart t.ink t'.ink)

include hfont hink

theorem lettering_apart : (lettering t).Apart (lettering t') :=
  ⟨hfont, rfl, hink⟩

theorem columnPicture_apart (bottom : Float) (c : Column Float) :
    PicturesApart (columnPicture t bottom c) (columnPicture t' bottom c) := by
  refine .cons (rect_apart _ _ _ _ (stroke_apart hink _)) ?_
  refine pictures_append (label_apart (lettering_apart hfont hink) _ _ _ _) (.cons (apart_tag ?_ .nil _) .nil)
  exact attributes_cons (attributes_cons (attributes_cons (attributes_cons
    (attributes_ink paints_stroke hink (attributes_same _)))))

theorem callPicture_apart (c : Call Float) : PicturesApart (callPicture t c) (callPicture t' c) := by
  refine .cons (apart_tag ?_ .nil _) (pictures_append (arrow_apart _ _ _ hink) ?_)
  · exact attributes_cons (attributes_cons (attributes_ink paints_stroke hink (attributes_same _)))
  · unfold messageText
    split
    · exact .nil
    · exact label_apart (lettering_apart hfont hink) _ _ _ _

theorem figures_apart (c : Chart Float) : PicturesApart (figures t c) (figures t' c) :=
  pictures_append (pictures_flatMap _ fun col _ => columnPicture_apart hfont hink c.bottom col)
    (pictures_flatMap _ fun call _ => callPicture_apart hfont hink call)

end

theorem paint_recolours (lines : List (List Token)) : ∃ svg svg' : Text, SvgApart svg svg' ∧
    (Script.ofTokens lines).paint false = .ok svg ∧ (Script.ofTokens lines).paint true = .ok svg' := by
  obtain ⟨chart, hchart, hcolumns, -⟩ := Chart.ofScript_ok (10.0 : Float) fun m hm => Script.ends_mem_names lines hm
  have hpaint (isDark : Bool) :
      (Script.ofTokens lines).paint isDark = .ok (chart.picture (Theme.choose isDark)).write :=
    Except.bind_eq_ok.mpr ⟨chart, hchart, rfl⟩
  have hdrawn (isDark : Bool) := drawn_script lines hcolumns isDark
  have hfont : (Theme.choose false).font = (Theme.choose true).font := rfl
  have hink : InkApart (Theme.choose false).ink (Theme.choose true).ink := .inr ⟨rfl, rfl⟩
  have hapart : PicturesApart [.tag "g" [("class", "sequence")] (figures (Theme.choose false) chart)]
      [.tag "g" [("class", "sequence")] (figures (Theme.choose true) chart)] :=
    .cons (apart_tag (attributes_same _) (figures_apart hfont hink chart) _) .nil
  have hsvg := svgApart_drawn hapart (hdrawn false) (hdrawn true) chart.width chart.height
  exact ⟨_, _, hsvg, hpaint false, hpaint true⟩

end Yuml.Sequence
