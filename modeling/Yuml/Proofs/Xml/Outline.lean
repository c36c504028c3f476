import Yuml.Proofs.Xml.Elements
import Yuml.Text.Basic

namespace Yuml.Xml

/-- A piece of a document without the names and the attributes of its elements. An element may be a
hole: a place where one thing stands for another. -/
inductive Outline
  | text (s : Text)
  | element (isHole : Bool) (children : List Outline)

namespace Outline

def isElement : Outline → Bool
  | element _ _ => true
  | text _ => false

mutual

def Spaced : Outline → Prop
  | text s => s ≠ []
  | element _ children => AllSpaced children

def AllSpaced : List Outline → Prop
  | [] => True
  | o :: os => Spaced o ∧ (o.isElement = true ∨ ∀ p ∈ os.head?, p.isElement = true) ∧ AllSpaced os

end

mutual

def unified : Outline → Outline
  | text s => text (Text.unifyLineEnds s)
  | element isHole children => element isHole (unifiedAll children)

def unifiedAll : List Outline → List Outline
  | [] => []
  | o :: os => unified o :: unifiedAll os

end

theorem allSpaced_of_suffix {os ps : List Outline} (hos : AllSpaced os) (h : ps <:+ os) : AllSpaced ps := by
  induction os with
  | nil => rwa [List.suffix_nil.mp h]
  | cons o os ih =>
    rcases List.suffix_cons_iff.mp h with rfl | h
    · exact hos
    · exact ih hos.2.2 h

theorem allSpaced_append_singleton {os : List Outline} {o : Outline} (hos : AllSpaced os) (ho : Spaced o)
    (hbeside : o.isElement = true ∨ ∀ p ∈ os.getLast?, p.isElement = true) : AllSpaced (os ++ [o]) := by
  induction os with
  | nil => exact ⟨ho, .inr (by simp), trivial⟩
  | cons p ps ih =>
    obtain ⟨hp, hhead, hps⟩ := hos
    cases ps with
    | nil =>
      refine ⟨hp, ?_, ho, .inr (by simp), trivial⟩
      refine hbeside.symm.imp (fun h => h p rfl) fun h => ?_
      rintro q ⟨⟩
      exact h
    | cons q qs =>
      refine ⟨hp, hhead, ih hps (hbeside.imp_right fun h => ?_)⟩
      rwa [List.getLast?_cons_cons] at h

end Outline

namespace Item

variable {ν : Type}

mutual

def outline : Item ν → Outline
  | text s => .text s
  | element _ _ children => .element false (outlineAll children)

def outlineAll : List (Item ν) → List Outline
  | [] => []
  | i :: is => outline i :: outlineAll is

end

theorem outlineAll_eq_map (is : List (Item ν)) : outlineAll is = is.map outline := by
  induction is with
  | nil => rw [outlineAll, List.map_nil]
  | cons i is ih => rw [outlineAll, ih, List.map_cons]

theorem isElement_outline (i : Item ν) : i.outline.isElement = i.isElement := by
  cases i with
  | text s =>
    rw [outline]
    rfl
  | element name attributes children =>
    rw [outline]
    rfl

theorem allSpaced_outlineAll_cons {i : Item ν} {is : List (Item ν)} :
    Outline.AllSpaced (outlineAll (i :: is)) ↔ i.outline.Spaced ∧
      (i.isElement = true ∨ ∀ j ∈ is.head?, j.isElement = true) ∧ Outline.AllSpaced (outlineAll is) := by
  have hhead : (∀ p ∈ (outlineAll is).head?, p.isElement = true) ↔ ∀ j ∈ is.head?, j.isElement = true := by
    simp [outlineAll_eq_map, isElement_outline]
  rw [outlineAll, Outline.AllSpaced, isElement_outline, hhead]

end Item

def TagsNamed {ν : Type} (P : ν → Prop) (tags : List (ν × List (ν × Text))) : Prop :=
  ∀ t ∈ tags, P t.1 ∧ ∀ p ∈ t.2, P p.1

end Yuml.Xml
