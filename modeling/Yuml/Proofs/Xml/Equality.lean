import Yuml.Xml.Item

namespace Yuml.Xml.Item

variable {ν : Type} [DecidableEq ν]

mutual

def isSame : Item ν → Item ν → Bool
  | text s, text t => s = t
  | element name a children, element name' a' children' => name = name' && a = a' && areSame children children'
  | _, _ => false

def areSame : List (Item ν) → List (Item ν) → Bool
  | [], [] => true
  | i :: is, j :: js => isSame i j && areSame is js
  | _, _ => false

end

mutual

theorem isSame_iff : ∀ i j : Item ν, isSame i j = true ↔ i = j
  | text s, text t => by
    simp [isSame]
  | element name a children, element name' a' children' => by
    simp [isSame, areSame_iff children children', and_assoc]
  | text _, element _ _ _ => by
    simp [isSame]
  | element _ _ _, text _ => by
    simp [isSame]

theorem areSame_iff : ∀ is js : List (Item ν), areSame is js = true ↔ is = js
  | [], [] => by
    simp [areSame]
  | i :: is, j :: js => by
    simp [areSame, isSame_iff i j, areSame_iff is js]
  | [], _ :: _ => by
    simp [areSame]
  | _ :: _, [] => by
    simp [areSame]

end

instance : DecidableEq (Item ν) :=
  fun i j => decidable_of_iff _ (isSame_iff i j)

end Yuml.Xml.Item
