import Yuml.Proofs.Drawing.Picture
import Yuml.Proofs.Xml.Elements

namespace Yuml.Pen

open Number Xml Layered

def isGroup (cls : Text) : Markup → Bool
  | .element name a _ => name = "g".toList ∧ Attributes.get? a "class" = some cls
  | .text _ => false

def groups (cls : Text) (m : Markup) : List Markup :=
  (Item.elements m).filter (isGroup cls)

def attribute? (name : Text) : Markup → Option Text
  | .element _ a _ => Attributes.get? a name
  | .text _ => none

def title? : Markup → Option Text
  | .element _ _ (.element name _ children :: _) =>
    if name = "title".toList then some (Item.allTexts children) else none
  | _ => none

theorem allTexts_ofText (s : Text) : Item.allTexts (Item.ofText s : List Markup) = s := by
  unfold Item.ofText
  split
  · next h => rw [Item.allTexts, List.isEmpty_iff.mp h]
  · simp [Item.allTexts, Item.allText]

theorem allText_textElement (name : Text) (a : Attributes) (s : Text) :
    Item.allText (textElement name a s) = legalText s := by
  rw [textElement, Item.tag, Item.allText, allTexts_ofText]

theorem title?_tag (name : Text) (a : Attributes) (s : Text) (children : List Markup) :
    title? (.tag name a (textElement "title" [] s :: children)) = some (legalText s) := by
  unfold textElement Item.tag title?
  dsimp only
  rw [if_pos rfl, allTexts_ofText]

theorem groups_tag (cls name : Text) (a : Attributes) (children : List Markup) :
    groups cls (.tag name a children) = (if isGroup cls (.tag name a children) then [.tag name a children] else []) ++
      children.flatMap (groups cls) := by
  rw [groups, Item.tag, Item.elements, Item.elementsAll_eq_flatMap, List.filter_cons, List.filter_flatMap]
  split
  · rfl
  · rfl

theorem elements_mark {P : Text → Prop} {i : Markup} (h : IsMark P i) : Item.elements i = [i] := by
  obtain ⟨name, a, s, rfl, -⟩ := h
  have hcontent : Item.elementsAll (Item.ofText (legalText s) : List Markup) = [] := by
    unfold Item.ofText
    split
    · rfl
    · rfl
  rw [textElement, Item.tag, Item.elements, hcontent]

theorem elements_marks {P : Text → Prop} {is : List Markup} (h : ∀ i ∈ is, IsMark P i) :
    Item.elementsAll is = is := by
  induction is with
  | nil => rw [Item.elementsAll]
  | cons i is ih =>
    obtain ⟨hi, his⟩ := List.forall_mem_cons.mp h
    rw [Item.elementsAll, elements_mark hi, ih his, List.singleton_append]

theorem groups_mark {P : Text → Prop} {i : Markup} (h : IsMark P i) (cls : Text) : groups cls i = [] := by
  have hother : ∀ n ∈ markNames, n ≠ "g".toList := by decide
  rw [groups, elements_mark h]
  obtain ⟨name, a, s, rfl, hname, -⟩ := h
  have hmark : isGroup cls (textElement name a s) = false := decide_eq_false fun h => hother name hname h.1
  rw [List.filter_singleton, hmark]
  rfl

theorem groups_marks {P : Text → Prop} {is : List Markup} (h : ∀ i ∈ is, IsMark P i) (cls : Text) :
    is.flatMap (groups cls) = [] :=
  List.flatMap_eq_nil_iff.mpr fun i hi => groups_mark (h i hi) cls

theorem isGroup_group (cls own : Text) (more : Attributes) (children : List Markup) :
    isGroup cls (.tag "g" (("class", own) :: more) children) = decide (own = cls) := by
  simp [isGroup, Item.tag, Attributes.get?]

theorem groups_group {P : Text → Prop} {children : List Markup} (h : ∀ i ∈ children, IsMark P i)
    (cls own : Text) (more : Attributes) : groups cls (.tag "g" (("class", own) :: more) children) =
      if own = cls then [.tag "g" (("class", own) :: more) children] else [] := by
  rw [groups_tag, groups_marks h, List.append_nil, isGroup_group]
  simp only [decide_eq_true_eq]

def anything : Text → Prop :=
  fun _ => True

theorem allows_anything (s : Style) : Allows anything s :=
  ⟨fun _ _ => trivial, trivial, trivial, trivial, trivial, trivial, trivial, trivial⟩

theorem groups_nodePicture (p : Place Float) (n : Node) (s : Style) (cls : Text) :
    groups cls (nodePicture p n s) = if "node".toList = cls then [nodePicture p n s] else [] := by
  refine groups_group (P := anything) (List.forall_mem_cons.mpr ⟨?_, ?_⟩) _ _ _
  · exact isMark_text _ (by decide) (by decide) rfl values_nil
  · exact isMark_shapePicture (allows_anything s) p n fun _ _ => trivial

theorem groups_edgePicture (r : Route Float) (s : Style) (cls : Text) :
    groups cls (edgePicture r s) = if "edge".toList = cls then [edgePicture r s] else [] := by
  refine groups_group (P := anything) (List.forall_mem_cons.mpr ⟨?_, ?_⟩) _ _ _
  · exact isMark_text _ (by decide) (by decide) rfl values_nil
  · split
    · exact fun _ hi => nomatch hi
    · exact isMark_linePicture (allows_anything s) _ _ _

end Yuml.Pen

namespace Yuml.Document

open Pen Xml

variable {d : Document}

theorem groups_background (s : Style) (cls : Text) : (background s).flatMap (groups cls) = [] := by
  unfold background
  split
  · rfl
  · refine groups_marks (P := anything) (List.forall_mem_singleton.mpr ?_) cls
    exact isMark_tag (by decide) (by decide) rfl (values_cons trivial (values_cons trivial (values_cons trivial values_nil)))

namespace Drawing

variable (w : Drawing d) (s : Style)

theorem groups_picture {cls : Text} (h : "graph".toList ≠ cls) : groups cls (w.picture s) =
    (if "edge".toList = cls then w.routes.map (edgePicture · s) else []) ++
      if "node".toList = cls then List.zipWith (fun p n => nodePicture p n s) w.boxes d.nodes else [] := by
  have hroot (a : Attributes) (children : List Markup) : isGroup cls (.tag "svg" a children) = false := by
    simp [isGroup, Item.tag]
  have hedges : (w.routes.map (edgePicture · s)).flatMap (groups cls) =
      if "edge".toList = cls then w.routes.map (edgePicture · s) else [] := by
    rw [List.flatMap_map]
    simp only [groups_edgePicture]
    split
    · exact List.map_eq_flatMap.symm
    · exact List.flatMap_eq_nil_iff.mpr fun _ _ => rfl
  have hnodes : (List.zipWith (fun p n => nodePicture p n s) w.boxes d.nodes).flatMap (groups cls) =
      if "node".toList = cls then List.zipWith (fun p n => nodePicture p n s) w.boxes d.nodes else [] := by
    rw [← List.map_uncurry_zip_eq_zipWith, List.flatMap_map]
    simp only [Function.uncurry, groups_nodePicture]
    split
    · exact List.map_eq_flatMap.symm
    · exact List.flatMap_eq_nil_iff.mpr fun _ _ => rfl
  rw [picture, canvas, groups_tag, hroot, content, List.flatMap_append, groups_background, List.flatMap_singleton,
    groups_tag, isGroup_group, decide_eq_false h, figures, List.flatMap_append, hedges, hnodes]
  rfl

theorem nodeGroups : groups "node" (w.picture s) =
    List.zipWith (fun p n => nodePicture p n s) w.boxes d.nodes := by
  rw [groups_picture w s (by decide), if_neg (by decide), if_pos rfl, List.nil_append]

theorem edgeGroups : groups "edge" (w.picture s) = w.routes.map (edgePicture · s) := by
  rw [groups_picture w s (by decide), if_pos rfl, if_neg (by decide), List.append_nil]

theorem map_nodeGroups : (groups "node" (w.picture s)).map (fun i => (attribute? "id" i, title? i)) =
    d.nodes.map fun n => (some n.id, some (legalText n.label)) := by
  have hlength : d.nodes.length ≤ w.boxes.length := by
    have h := congrArg List.length w.nodes
    rw [List.length_map, List.length_map] at h
    exact h.ge
  have hview (q : Layered.Place Float × Node) :
      (attribute? "id" (nodePicture q.1 q.2 s), title? (nodePicture q.1 q.2 s)) =
        (some q.2.id, some (legalText q.2.label)) :=
    congrArg (some q.2.id, ·) (title?_tag _ _ _ _)
  rw [nodeGroups, ← List.map_uncurry_zip_eq_zipWith, List.map_map]
  calc (w.boxes.zip d.nodes).map _
      = (w.boxes.zip d.nodes).map ((fun n => (some n.id, some (legalText n.label))) ∘ Prod.snd) :=
        List.map_congr_left fun q _ => hview q
    _ = _ := by rw [← List.map_map, List.map_snd_zip hlength]

theorem map_edgeGroups : (groups "edge" (w.picture s)).map title? =
    d.edges.map fun e => some (legalText (e.tail ++ "->".toList ++ e.head)) := by
  rw [edgeGroups, List.map_map, ← w.edges, List.map_map]
  exact List.map_congr_left fun r _ => title?_tag _ _ _ _

end Drawing

end Yuml.Document
