import Yuml.Xml.Item

namespace Yuml.Xml.Item

variable {ν : Type}

mutual

def startTags : Item ν → List (ν × List (ν × Text))
  | element name attributes children => (name, attributes) :: startTagsAll children
  | text _ => []

def startTagsAll : List (Item ν) → List (ν × List (ν × Text))
  | [] => []
  | i :: is => startTags i ++ startTagsAll is

end

theorem startTagsAll_eq_flatMap (is : List (Item ν)) : startTagsAll is = is.flatMap startTags := by
  induction is with
  | nil => rw [startTagsAll, List.flatMap_nil]
  | cons i is ih => rw [startTagsAll, ih, List.flatMap_cons]

theorem mem_startTagsAll {is : List (Item ν)} {t : ν × List (ν × Text)} :
    t ∈ startTagsAll is ↔ ∃ i ∈ is, t ∈ startTags i := by
  rw [startTagsAll_eq_flatMap, List.mem_flatMap]

mutual

def elements : Item ν → List (Item ν)
  | element name attributes children => element name attributes children :: elementsAll children
  | text _ => []

def elementsAll : List (Item ν) → List (Item ν)
  | [] => []
  | i :: is => elements i ++ elementsAll is

end

theorem elementsAll_eq_flatMap (is : List (Item ν)) : elementsAll is = is.flatMap elements := by
  induction is with
  | nil => rw [elementsAll, List.flatMap_nil]
  | cons i is ih => rw [elementsAll, List.flatMap_cons, ih]

def hasName (name : Text) : Markup → Bool
  | .element n _ _ => n = name
  | .text _ => false

def named (name : Text) (m : Markup) : List Markup :=
  (elements m).filter (hasName name)

theorem hasName_unique {name other : Text} {i : Markup} (h : hasName name i = true) (h' : hasName other i = true) :
    name = other := by
  cases i with
  | element n a children => exact (of_decide_eq_true h).symm.trans (of_decide_eq_true h')
  | text s => cases h

theorem filter_hasName {is : List Markup} {others : List Text}
    (h : ∀ i ∈ is, ∃ other ∈ others, hasName other i = true) {name : Text} (hname : name ∉ others) :
    is.filter (hasName name) = [] := by
  refine List.filter_eq_nil_iff.mpr fun i hi hthis => ?_
  obtain ⟨other, hother, hi⟩ := h i hi
  exact hname (hasName_unique hthis hi ▸ hother)

theorem filter_cons_other {name : Text} {i : Markup} (h : hasName name i = false) (is : List Markup) :
    (i :: is).filter (hasName name) = is.filter (hasName name) :=
  List.filter_cons_of_neg (Bool.eq_false_iff.mp h)

end Yuml.Xml.Item
