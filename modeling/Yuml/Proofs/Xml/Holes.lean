import Yuml.Proofs.Xml.Outline

namespace Yuml.Xml

namespace Outline

def isHole : Outline → Bool
  | element isHole _ => isHole
  | text _ => false

mutual

def filled : Outline → Outline
  | text s => text s
  | element _ children => element false (filledAll children)

def filledAll : List Outline → List Outline
  | [] => []
  | o :: os => filled o :: filledAll os

end

mutual

def outside : Outline → List Text
  | text s => [s]
  | element isHole children => if isHole then [] else outsideAll children

def outsideAll : List Outline → List Text
  | [] => []
  | o :: os => outside o ++ outsideAll os

end

mutual

def withoutTails : Outline → Outline
  | text s => text s
  | element isHole children => element isHole (if isHole then children else withoutTailsAll false children)

def withoutTailsAll (drop : Bool) : List Outline → List Outline
  | [] => []
  | o :: os =>
    if drop && !o.isElement then withoutTailsAll false os
    else withoutTails o :: withoutTailsAll o.isHole os

end

mutual

def Tailless : Outline → Prop
  | text _ => True
  | element isHole children => isHole = true ∨ TaillessAll children

def TaillessAll : List Outline → Prop
  | [] => True
  | o :: os => Tailless o ∧ (o.isHole = true → ∀ p ∈ os.head?, p.isElement = true) ∧ TaillessAll os

end

@[simp]
theorem isElement_withoutTails (o : Outline) : o.withoutTails.isElement = o.isElement := by
  cases o with
  | text s => rw [withoutTails]
  | element isHole children =>
    rw [withoutTails]
    rfl

@[simp]
theorem isElement_filled (o : Outline) : o.filled.isElement = o.isElement := by
  cases o with
  | text s => rw [filled]
  | element isHole children =>
    rw [filled]
    rfl

mutual

theorem withoutTails_of_tailless : ∀ o : Outline, o.Tailless → o.withoutTails = o
  | text s, _ => by
    rw [withoutTails]
  | element isHole children, h => by
    rw [withoutTails]
    cases isHole with
    | true => rfl
    | false => rw [if_neg Bool.false_ne_true, withoutTailsAll_of_tailless children false (by simp)
        (h.resolve_left Bool.false_ne_true)]

theorem withoutTailsAll_of_tailless : ∀ (os : List Outline) (drop : Bool),
    (drop = true → ∀ o ∈ os.head?, o.isElement = true) → TaillessAll os → withoutTailsAll drop os = os
  | [], drop, _, _ => by
    rw [withoutTailsAll]
  | o :: os, drop, hdrop, ⟨ho, hhole, hos⟩ => by
    have hkept : ¬ (drop && !o.isElement) = true := by
      cases drop with
      | false => exact Bool.false_ne_true
      | true => simp [hdrop rfl o rfl]
    rw [withoutTailsAll, if_neg hkept, withoutTails_of_tailless o ho, withoutTailsAll_of_tailless os _ hhole hos]

end

mutual

theorem spaced_withoutTails : ∀ o : Outline, o.Spaced → o.withoutTails.Spaced
  | text s, h => by
    rw [withoutTails]
    exact h
  | element isHole children, h => by
    rw [withoutTails]
    cases isHole with
    | true => exact h
    | false => exact allSpaced_withoutTailsAll children false h

theorem allSpaced_withoutTailsAll : ∀ (os : List Outline) (drop : Bool), AllSpaced os → AllSpaced (withoutTailsAll drop os)
  | [], drop, _ => by
    rw [withoutTailsAll]
    trivial
  | o :: os, drop, ⟨ho, hbeside, hos⟩ => by
    rw [withoutTailsAll]
    split
    · exact allSpaced_withoutTailsAll os false hos
    · refine ⟨spaced_withoutTails o ho, ?_, allSpaced_withoutTailsAll os _ hos⟩
      rw [isElement_withoutTails]
      refine hbeside.imp_right fun hhead => ?_
      cases os with
      | nil =>
        rw [withoutTailsAll]
        simp
      | cons p ps =>
        -- what follows a text is an element, so it stays
        have hp : p.isElement = true := hhead p rfl
        rw [withoutTailsAll, if_neg (by simp [hp])]
        simpa using hp

end

theorem filledAll_eq_map (os : List Outline) : filledAll os = os.map filled := by
  induction os with
  | nil => rw [filledAll, List.map_nil]
  | cons o os ih => rw [filledAll, ih, List.map_cons]

mutual

theorem spaced_filled : ∀ o : Outline, o.Spaced → o.filled.Spaced
  | text s, h => by
    rw [filled]
    exact h
  | element isHole children, h => by
    rw [filled]
    exact allSpaced_filledAll children h

theorem allSpaced_filledAll : ∀ os : List Outline, AllSpaced os → AllSpaced (filledAll os)
  | [], _ => by
    rw [filledAll]
    trivial
  | o :: os, ⟨ho, hbeside, hos⟩ => by
    rw [filledAll]
    refine ⟨spaced_filled o ho, ?_, allSpaced_filledAll os hos⟩
    rw [isElement_filled]
    refine hbeside.imp_right fun hhead => ?_
    simpa [filledAll_eq_map] using hhead

end

mutual

theorem filled_unified : ∀ o : Outline, o.unified.filled = o.filled.unified
  | text s => by
    rw [unified, filled, filled, unified]
  | element isHole children => by
    rw [unified, filled, filled, unified, filledAll_unifiedAll children]

theorem filledAll_unifiedAll : ∀ os : List Outline, filledAll (unifiedAll os) = unifiedAll (filledAll os)
  | [] => by
    rw [unifiedAll, filledAll, unifiedAll]
  | o :: os => by
    rw [unifiedAll, filledAll, filledAll, unifiedAll, filled_unified o, filledAll_unifiedAll os]

end

mutual

theorem outside_unified : ∀ o : Outline, o.unified.outside = o.outside.map Text.unifyLineEnds
  | text s => by
    rw [unified, outside, outside]
    rfl
  | element isHole children => by
    rw [unified, outside, outside]
    cases isHole with
    | true => rfl
    | false => exact outsideAll_unifiedAll children

theorem outsideAll_unifiedAll : ∀ os : List Outline, outsideAll (unifiedAll os) = (outsideAll os).map Text.unifyLineEnds
  | [] => by
    rw [unifiedAll, outsideAll]
    rfl
  | o :: os => by
    rw [unifiedAll, outsideAll, outsideAll, outside_unified o, outsideAll_unifiedAll os, List.map_append]

end

end Outline

namespace Item

variable {ν : Type}

mutual

theorem filled_outline (i : Item ν) : i.outline.filled = i.outline := by
  cases i with
  | text s => rw [outline, Outline.filled]
  | element name attributes children => rw [outline, Outline.filled, filledAll_outlineAll children]

theorem filledAll_outlineAll (is : List (Item ν)) : Outline.filledAll (outlineAll is) = outlineAll is := by
  cases is with
  | nil => rw [outlineAll, Outline.filledAll]
  | cons i is => rw [outlineAll, Outline.filledAll, filled_outline i, filledAll_outlineAll is]

end

end Item

end Yuml.Xml
