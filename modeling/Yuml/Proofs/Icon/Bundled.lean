import Yuml.Icon.Basic
import Yuml.Proofs.Xml.Equality
import Yuml.Proofs.Xml.Namespace

namespace Yuml.IconLibrary

open Xml

def isActorOnly : IconLibrary → Bool
  | [(name, icon)] => name == "actor".toList && !(icon.width == 0.0) && !(icon.height == 0.0)
  | _ => false

def actorFigure : List Markup :=
  [.tag "circle" [("cx", "15"), ("cy", "6"), ("r", "5")], .text "\n  ",
    .tag "path" [("d", "M15 11 L15 26 M4 16 L26 16 M15 26 L6 38 M15 26 L24 38")], .text "\n"]

theorem bundled_ok : ∃ icon, bundled = .ok [("actor".toList, icon)] ∧ (icon.width == 0.0) = false ∧
    (icon.height == 0.0) = false ∧ icon.children = Item.inSpaceAll svgSpace actorFigure := by
  -- The icons are read once: a single evaluation says all that is known of them.
  have hactor : bundled.toOption.any (fun icons => isActorOnly icons && icons.all fun i =>
      Item.areSame i.2.children (Item.inSpaceAll svgSpace actorFigure)) = true := by decide +kernel
  revert hactor
  cases bundled with
  | error e => exact fun h => nomatch h
  | ok icons =>
    match icons with
    | [] => exact fun h => nomatch h
    | [(name, icon)] =>
      intro h
      obtain ⟨⟨⟨hname, hwidth⟩, hheight⟩, hsame⟩ : ((name = "actor".toList ∧ (icon.width == 0.0) = false) ∧
          (icon.height == 0.0) = false) ∧ Item.areSame icon.children (Item.inSpaceAll svgSpace actorFigure) = true := by
        simpa [isActorOnly, Except.toOption] using h
      exact ⟨icon, by rw [hname], hwidth, hheight, (Item.areSame_iff _ _).mp hsame⟩
    | _ :: _ :: _ => exact fun h => nomatch h

end Yuml.IconLibrary
