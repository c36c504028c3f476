import Yuml.Proofs.Xml.Namespace

namespace Yuml.Xml

namespace Scope

def drawing : Scope :=
  [([], svgSpace)]

theorem cover_svg (name : Text) : cover drawing ⟨some svgSpace, name⟩ = drawing := by
  have hknown : svgSpace = xmlSpace ∨ (prefixOf? drawing svgSpace).isSome = true := by decide
  rw [cover]
  exact if_pos hknown

theorem cover_first (name : Text) : cover [] ⟨some svgSpace, name⟩ = drawing := by
  have hunknown : ¬ (svgSpace = xmlSpace ∨ (prefixOf? [] svgSpace).isSome = true) := by decide
  have hprefix : wellKnown.prefixOf? svgSpace = some [] := by decide
  rw [cover]
  dsimp only
  rw [if_neg hunknown, hprefix]
  rfl

theorem cover_attributes (scope : Scope) (a : Attributes) :
    (a.map fun p => ((⟨none, p.1⟩ : Name), p.2)).foldl (fun s p => cover s p.1) scope = scope := by
  induction a with
  | nil => rfl
  | cons p a ih => exact ih

mutual

theorem coverItem_inSpace : ∀ i : Markup, coverItem drawing (Item.inSpace svgSpace i) = drawing
  | .text s => by
    rw [Item.inSpace, coverItem]
  | .element name attributes children => by
    rw [Item.inSpace, coverItem, cover_svg, cover_attributes, coverItems_inSpaceAll children]

theorem coverItems_inSpaceAll : ∀ is : List Markup, coverItems drawing (Item.inSpaceAll svgSpace is) = drawing
  | [] => by
    rw [Item.inSpaceAll, coverItems]
  | i :: is => by
    rw [Item.inSpaceAll, coverItems, coverItem_inSpace i, coverItems_inSpaceAll is]

end

theorem qualify_svg (name : Text) : qualify drawing ⟨some svgSpace, name⟩ = name := by
  have hspace : svgSpace ≠ xmlSpace := by decide
  have hprefix : prefixOf? drawing svgSpace = some [] := by decide
  rw [qualify]
  dsimp only
  rw [if_neg hspace, hprefix]
  rfl

theorem map_qualify (a : Attributes) :
    (a.map fun p => ((⟨none, p.1⟩ : Name), p.2)).map (fun p => (qualify drawing p.1, p.2)) = a := by
  rw [List.map_map]
  exact List.map_id a

mutual

theorem markup_inSpace : ∀ i : Markup, markup drawing (Item.inSpace svgSpace i) = i
  | .text s => by
    rw [Item.inSpace, markup]
  | .element name attributes children => by
    rw [Item.inSpace, markup, qualify_svg, map_qualify, markups_inSpaceAll children]

theorem markups_inSpaceAll : ∀ is : List Markup, markups drawing (Item.inSpaceAll svgSpace is) = is
  | [] => by
    rw [Item.inSpaceAll, markups]
  | i :: is => by
    rw [Item.inSpaceAll, markups, markup_inSpace i, markups_inSpaceAll is]

end

end Scope

theorem toMarkup_inSpace (name : Text) (attributes : Attributes) (children : List Markup) :
    Tree.toMarkup (Item.inSpace svgSpace (.element name attributes children)) =
      .element name (("xmlns", svgSpace) :: attributes) children := by
  have hscope : Scope.coverItem [] (Item.inSpace svgSpace (.element name attributes children)) = Scope.drawing := by
    rw [Item.inSpace, Scope.coverItem, Scope.cover_first, Scope.cover_attributes, Scope.coverItems_inSpaceAll]
  have hmarkup := Scope.markup_inSpace (.element name attributes children)
  have hdeclarations : Scope.drawing.declarations = [("xmlns".toList, svgSpace)] := by
    rw [Scope.declarations, Scope.drawing, List.mergeSort_singleton]
    rfl
  rw [Tree.toMarkup, hscope, hmarkup]
  dsimp only
  rw [hdeclarations]
  rfl

end Yuml.Xml
