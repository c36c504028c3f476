import Yuml.Proofs.Drawing.Placeholders

namespace Yuml

open Xml

namespace Xml.Item

mutual

theorem elements_inSpace (space : Text) : ∀ i : Markup, elements (inSpace space i) = (elements i).map (inSpace space)
  | .text s => by
    rw [inSpace, elements, elements]
    rfl
  | .element name attributes children => by
    rw [inSpace, elements, elements, elementsAll_inSpaceAll space children, List.map_cons, inSpace]

theorem elementsAll_inSpaceAll (space : Text) : ∀ is : List Markup,
    elementsAll (inSpaceAll space is) = (elementsAll is).map (inSpace space)
  | [] => by
    rw [inSpaceAll, elementsAll, elementsAll]
    rfl
  | i :: is => by
    rw [inSpaceAll, elementsAll, elementsAll, elements_inSpace space i, elementsAll_inSpaceAll space is, List.map_append]

end

mutual

theorem write_infix_write : ∀ i : Markup, ∀ e ∈ elements i, write e <:+: write i
  | .text s => by
    rw [elements]
    exact fun _ he => nomatch he
  | .element name attributes children => by
    rw [elements]
    refine List.forall_mem_cons.mpr ⟨List.infix_rfl, fun e he => ?_⟩
    exact (write_infix_writeAll children e he).trans (writeAll_infix_write name attributes children)

theorem write_infix_writeAll : ∀ is : List Markup, ∀ e ∈ elementsAll is, write e <:+: writeAll is
  | [] => by
    rw [elementsAll]
    exact fun _ he => nomatch he
  | i :: is => by
    rw [elementsAll, writeAll]
    refine List.forall_mem_append.mpr ⟨fun e he => ?_, fun e he => ?_⟩
    · exact (write_infix_write i e he).trans (List.prefix_append _ _).isInfix
    · exact (write_infix_writeAll is e he).trans (List.suffix_append _ _).isInfix

end

theorem inSpaceAll_eq_map (space : Text) (is : List Markup) : inSpaceAll space is = is.map (inSpace space) := by
  induction is with
  | nil => rw [inSpaceAll, List.map_nil]
  | cons i is ih => rw [inSpaceAll, ih, List.map_cons]

section Swap

variable {f : Attributes → Markup}

theorem isElement_swapImages (hf : ∀ a, (f a).isElement = true) (i : Markup) :
    (swapImages f i).isElement = i.isElement := by
  cases i with
  | text s => rfl
  | element name attributes children =>
    rw [swapImages]
    split
    · exact hf attributes
    · rfl

theorem swapAllImages_eq_map (is : List Markup) : swapAllImages f is = is.map (swapImages f) := by
  induction is with
  | nil => rw [swapAllImages, List.map_nil]
  | cons i is ih => rw [swapAllImages, ih, List.map_cons]

mutual

theorem wellFormed_swapImages (hf : ∀ a, WellFormed (f a) ∧ (f a).isElement = true) :
    ∀ i : Markup, WellFormed i → WellFormed (swapImages f i)
  | .text s, h => by
    rw [swapImages]
    exact h
  | .element name attributes children, ⟨hname, hattributes, hchildren⟩ => by
    rw [swapImages]
    split
    · exact (hf attributes).1
    · exact ⟨hname, hattributes, allWellFormed_swapAllImages hf children hchildren⟩

theorem allWellFormed_swapAllImages (hf : ∀ a, WellFormed (f a) ∧ (f a).isElement = true) :
    ∀ is : List Markup, AllWellFormed is → AllWellFormed (swapAllImages f is)
  | [], _ => by
    rw [swapAllImages]
    trivial
  | i :: is, ⟨hi, hbeside, his⟩ => by
    have hkeeps := isElement_swapImages fun a => (hf a).2
    rw [swapAllImages]
    refine ⟨wellFormed_swapImages hf i hi, ?_, allWellFormed_swapAllImages hf is his⟩
    rw [hkeeps]
    refine hbeside.imp_right fun hhead => ?_
    cases is with
    | nil => exact fun _ hj => nomatch hj
    | cons j js =>
      rw [swapAllImages]
      rintro k ⟨⟩
      rw [hkeeps]
      exact hhead j rfl

end

mutual

theorem unified_swapImages (hf : ∀ a, unified (f a) = f a) :
    ∀ i : Markup, unified (swapImages f i) = swapImages f (unified i)
  | .text s => by
    rw [swapImages, unified, swapImages]
  | .element name attributes children => by
    rw [unified, swapImages, swapImages]
    split
    · exact hf attributes
    · rw [unified, unifiedAll_swapAllImages hf children]

theorem unifiedAll_swapAllImages (hf : ∀ a, unified (f a) = f a) :
    ∀ is : List Markup, unifiedAll (swapAllImages f is) = swapAllImages f (unifiedAll is)
  | [] => by
    rw [swapAllImages, unifiedAll, swapAllImages]
  | i :: is => by
    rw [swapAllImages, unifiedAll, unifiedAll, swapAllImages, unified_swapImages hf i, unifiedAll_swapAllImages hf is]

end

mutual

theorem declaresNoSpace_swapImages (hf : ∀ a, DeclaresNoSpace (startTags (f a))) :
    ∀ i : Markup, DeclaresNoSpace (startTags i) → DeclaresNoSpace (startTags (swapImages f i))
  | .text s, h => by
    rw [swapImages]
    exact h
  | .element name attributes children, h => by
    rw [startTags] at h
    rw [swapImages]
    split
    · exact hf attributes
    · rw [startTags]
      obtain ⟨hown, hinside⟩ := List.forall_mem_cons.mp h
      exact List.forall_mem_cons.mpr ⟨hown, declaresNoSpace_swapAllImages hf children hinside⟩

theorem declaresNoSpace_swapAllImages (hf : ∀ a, DeclaresNoSpace (startTags (f a))) :
    ∀ is : List Markup, DeclaresNoSpace (startTagsAll is) → DeclaresNoSpace (startTagsAll (swapAllImages f is))
  | [], _ => by
    rw [swapAllImages, startTagsAll]
    exact fun _ ht => nomatch ht
  | i :: is, h => by
    rw [startTagsAll] at h
    rw [swapAllImages, startTagsAll]
    obtain ⟨hi, his⟩ := List.forall_mem_append.mp h
    exact List.forall_mem_append.mpr ⟨declaresNoSpace_swapImages hf i hi, declaresNoSpace_swapAllImages hf is his⟩

end

mutual

theorem swapImages_of_none : ∀ i : Markup, named "image" i = [] → swapImages f i = i
  | .text s, _ => by
    rw [swapImages]
  | .element name attributes children, h => by
    rw [named, elements, List.filter_cons] at h
    split at h
    · cases h
    · next hname =>
      have hother : name ≠ "image".toList := fun heq => hname (decide_eq_true heq)
      rw [swapImages, if_neg hother, swapAllImages_of_none children h]

theorem swapAllImages_of_none : ∀ is : List Markup,
    (elementsAll is).filter (hasName "image") = [] → swapAllImages f is = is
  | [], _ => by
    rw [swapAllImages]
  | i :: is, h => by
    rw [elementsAll, List.filter_append, List.append_eq_nil_iff] at h
    rw [swapAllImages, swapImages_of_none i h.1, swapAllImages_of_none is h.2]

end

mutual

theorem images_swapImages (hf : ∀ a, named "image" (f a) = []) :
    ∀ i : Markup, named "image" (swapImages f i) = []
  | .text s => by
    rw [swapImages, named, elements]
    rfl
  | .element name attributes children => by
    rw [swapImages]
    split
    · exact hf attributes
    · next hname =>
      have hother : hasName "image".toList (element name attributes (swapAllImages f children)) = false :=
        decide_eq_false hname
      rw [named, elements, filter_cons_other hother, images_swapAllImages hf children]

theorem images_swapAllImages (hf : ∀ a, named "image" (f a) = []) :
    ∀ is : List Markup, (elementsAll (swapAllImages f is)).filter (hasName "image") = []
  | [] => by
    rw [swapAllImages, elementsAll]
    rfl
  | i :: is => by
    have hi := images_swapImages hf i
    rw [named] at hi
    rw [swapAllImages, elementsAll, List.filter_append, hi, images_swapAllImages hf is, List.append_nil]

end

end Swap

end Xml.Item

end Yuml
