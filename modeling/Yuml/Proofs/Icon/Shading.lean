import Yuml.Proofs.Drawing.Shading
import Yuml.Proofs.Icon.Inlined

namespace Yuml

open Xml Pen
open Item (Apart startTagsAll AllWellFormed DeclaresNoSpace)

namespace IconLibrary

open Item (swapAllImages unifiedAll TidyAll)

theorem iconGroup_apart (icon : Icon) (figure : List Markup) {a a' : Attributes} (h : AttributesApart a a') :
    Apart paints (iconGroup icon figure Theme.light.ink a) (iconGroup icon figure Theme.dark.ink a') := by
  have hnumber {name : Text} (hname : name ≠ "fill".toList) (hname' : name ≠ "stroke".toList) :
      Icon.Frame.numberIn a name = Icon.Frame.numberIn a' name := by
    rw [Icon.Frame.numberIn, Icon.Frame.numberIn, get?_eq h (not_or.mpr ⟨hname, hname'⟩)]
  have hframe : Icon.Frame.of a = Icon.Frame.of a' := by
    rw [Icon.Frame.of, Icon.Frame.of, hnumber (by decide) (by decide), hnumber (by decide) (by decide),
      hnumber (by decide) (by decide), hnumber (by decide) (by decide)]
  rw [iconGroup, iconGroup, ← hframe]
  exact apart_tag (attributes_cons (attributes_cons (attributes_ink paints_stroke (.inr ⟨rfl, rfl⟩) .nil)))
    (List.forall₂_same.mpr fun i _ => Item.apart_same _ i) _

theorem placeholderMark_apart {s t : Text} (h : Text.Apart s t) :
    Text.occursIn placeholderMark s = Text.occursIn placeholderMark t :=
  h.occursIn_eq (d := 'h') (p := "ref=\"yuml:".toList) (by decide) (by decide) (by decide)

theorem svgApart_swapped (icon : Icon) {content content' : List Markup} (h : ∀ i ∈ content, Drawn Legal i)
    (h' : ∀ i ∈ content', Drawn Legal i) (hapart : PicturesApart content content') (width height : Float) :
    SvgApart
      (canvas width height (swapAllImages (iconGroup icon actorFigure Theme.light.ink) (unifiedAll content))).write
      (canvas width height (swapAllImages (iconGroup icon actorFigure Theme.dark.ink) (unifiedAll content'))).write := by
  have hwell {c : List Markup} (hc : ∀ i ∈ c, Drawn Legal i) (isDark : Bool) :
      AllWellFormed (swapAllImages (iconGroup icon actorFigure (Theme.choose isDark).ink) (unifiedAll c)) :=
    allWellFormed_swapped icon (Theme.legal_choose isDark).1 (Item.allWellFormed_unifiedAll c (allWellFormed_drawn hc))
  have hspace {c : List Markup} (hc : ∀ i ∈ c, Drawn Legal i) (ink : Text) :
      DeclaresNoSpace (startTagsAll (swapAllImages (iconGroup icon actorFigure ink) (unifiedAll c))) := by
    refine declaresNoSpace_swapped icon ?_
    rw [Item.startTagsAll_unifiedAll]
    exact declaresNoSpace_drawn hc
  have hswapped := Item.swapAllImages_apart (fun _ _ => iconGroup_apart icon actorFigure) _ _
    (Item.unifiedAll_apart _ _ hapart)
  exact svgApart_canvas hswapped (hwell h false) (hspace h _) (hwell h' true) (hspace h' _) width height

def Recolours (x x' : Reporting Text) : Prop :=
  ∃ r r' : Except Failure Text, Except.Alike SvgApart r r' ∧ x = ExceptT.mk (pure r) ∧ x' = ExceptT.mk (pure r')

namespace Recolours

theorem ok {svg svg' : Text} (h : SvgApart svg svg') : Recolours (pure svg) (pure svg') :=
  ⟨_, _, .ok h, rfl, rfl⟩

theorem bind {α β : Type} {R : α → β → Prop} {x : Except Failure α} {x' : Except Failure β} {f : α → Reporting Text}
    {f' : β → Reporting Text} (h : Except.Alike R x x') (hf : ∀ a b, R a b → Recolours (f a) (f' b)) :
    Recolours (ExceptT.mk (pure x) >>= f) (ExceptT.mk (pure x') >>= f') := by
  cases h with
  | error e => exact ⟨_, _, .error e, rfl, rfl⟩
  | ok h => exact hf _ _ h

end Recolours

theorem process_of_illegal (icons : IconLibrary) (isDark : Bool) {svg : Text} (h : ¬ Legal svg) :
    process icons isDark svg =
      if Text.occursIn placeholderMark svg then throw Failure.malformedXml else pure svg := by
  rw [process, readTree?_of_illegal h]

theorem process_recolours {icon : Icon} (hwidth : (icon.width == 0.0) = false) (hheight : (icon.height == 0.0) = false)
    (hfigure : icon.children = Item.inSpaceAll svgSpace actorFigure) {content content' : List Markup} {P : Text → Prop}
    (h : ∀ i ∈ content, Drawn P i) (h' : ∀ i ∈ content', Drawn P i) (htidy : TidyAll content) (htidy' : TidyAll content')
    (hapart : PicturesApart content content') (width height : Float) :
    Recolours (process [("actor", icon)] false (canvas width height content).write)
      (process [("actor", icon)] true (canvas width height content').write) := by
  have hcanvas := canvas_apart hapart width height
  have htext := Item.write_apart _ _ hcanvas
  have hmark := placeholderMark_apart htext
  by_cases hlegal : Legal (canvas width height content).write
  · have hdrawn := drawn_of_legal h hlegal
    have hdrawn' := drawn_of_legal h' (htext.legal_iff.mp hlegal)
    rw [process_canvas_eq hwidth hheight hfigure hdrawn htidy, process_canvas_eq hwidth hheight hfigure hdrawn' htidy',
      ← hmark]
    split
    · exact .ok (svgApart_swapped icon hdrawn hdrawn' hapart width height)
    · exact .ok (svgApart_drawn hapart hdrawn hdrawn' width height)
  · -- A value that no document can hold stands in both pictures, so neither can be read.
    have hillegal' := mt htext.legal_iff.mpr hlegal
    rw [process_of_illegal _ _ hlegal, process_of_illegal _ _ hillegal', ← hmark]
    split
    · exact ⟨_, _, .error _, rfl, rfl⟩
    · refine .ok ⟨.inr ⟨_, _, hcanvas, rfl, rfl⟩, ?_⟩
      rw [readTree?_of_illegal hlegal, readTree?_of_illegal hillegal']
      exact .none

end IconLibrary

end Yuml
