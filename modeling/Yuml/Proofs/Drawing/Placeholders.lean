import Yuml.Proofs.Icon.Placing
import Yuml.Proofs.Sequence.Picture

namespace Yuml.Pen

open Number Xml Layered
open Item (hasName named filter_hasName filter_cons_other)

theorem filter_images_label (x top : Float) (t : Text) (l : Lettering) (anchor : Text) :
    (label x top t l anchor).filter (hasName "image") = [] := by
  have htext : "text".toList ≠ "image".toList := by decide
  rw [filter_label, if_neg htext]

theorem filter_recordPicture (p : Place Float) (n : Node) (stroke : Attributes) (ink : Text) (l : Lettering) :
    (recordPicture p n stroke ink l).filter (hasName "image") = [] := by
  have hlower (c : Compartment Float) : (lowerCompartment p l ink c).filter (hasName "image") = [] :=
    (filter_cons_other rfl _).trans (filter_images_label _ _ _ _ _)
  rw [recordPicture, filter_cons_other rfl]
  split
  · rfl
  · rw [List.filter_append, filter_images_label, List.filter_flatMap, List.nil_append]
    exact List.flatMap_eq_nil_iff.mpr fun c _ => hlower c

theorem filter_shapePicture (p : Place Float) (n : Node) (s : Style) :
    (shapePicture p n s).filter (hasName "image") = if n.shape = .actor then [actorPlaceholder p] else [] := by
  have hone {i : Markup} (hi : hasName "image" i = false) (q : Place Float) (t : Text) :
      (i :: centred q t s.nodeText).filter (hasName "image") = [] :=
    (filter_cons_other hi _).trans (filter_images_label _ _ _ _ _)
  unfold shapePicture
  cases n.shape with
  | record => exact filter_recordPicture p n _ _ _
  | start => rfl
  | final => rfl
  | bar => rfl
  | actor => exact congrArg (actorPlaceholder p :: ·) (filter_images_label _ _ _ _ _)
  | ellipse => exact hone rfl _ _
  | diamond => exact hone rfl _ _
  | rounded => exact hone rfl _ _
  | box => exact hone rfl _ _
  | note => exact (filter_cons_other rfl _).trans (hone rfl _ _)
  | tab => exact (filter_cons_other rfl _).trans (hone rfl _ _)
  | box3d => exact (filter_cons_other rfl _).trans ((filter_cons_other rfl _).trans (hone rfl _ _))
  | component => exact (filter_cons_other rfl _).trans ((filter_cons_other rfl _).trans (hone rfl _ _))

theorem images_tag {name : Text} (hname : name ≠ "image".toList) (a : Attributes) (children : List Markup) :
    named "image" (.tag name a children) = children.flatMap (named "image") := by
  have hother : hasName "image".toList (.element name a children) = false := decide_eq_false hname
  rw [named, Item.tag, Item.elements, filter_cons_other hother, Item.elementsAll_eq_flatMap, List.filter_flatMap]
  rfl

theorem images_group {P : Text → Prop} {children : List Markup} (h : ∀ i ∈ children, IsMark P i) (a : Attributes) :
    named "image" (.tag "g" a children) = children.filter (hasName "image") := by
  have hname : "g".toList ≠ "image".toList := by decide
  have hother : hasName "image".toList (.element "g".toList a children) = false := decide_eq_false hname
  rw [named, Item.tag, Item.elements, filter_cons_other hother, elements_marks h]

theorem images_nodePicture (p : Place Float) (n : Node) (s : Style) :
    named "image" (nodePicture p n s) = if n.shape = .actor then [actorPlaceholder p] else [] := by
  rw [nodePicture, images_group (P := anything)]
  · rw [filter_cons_other rfl, filter_shapePicture]
  · refine List.forall_mem_cons.mpr ⟨isMark_text _ (by decide) (by decide) rfl values_nil, ?_⟩
    exact isMark_shapePicture (allows_anything s) p n fun _ _ => trivial

theorem filter_optional {t : Option Text} {draw : Text → List Markup}
    (hdraw : ∀ t, (draw t).filter (hasName "image") = []) : (optional t draw).filter (hasName "image") = [] := by
  unfold optional
  split
  · rfl
  · rfl
  · exact hdraw _

theorem filter_linePicture (e : Edge) (ps : List Point) (ends : Ends) (s : Style) :
    (linePicture e ps ends s).filter (hasName "image") = [] := by
  have harrow (prev tip : Point) (kind : Arrow) (color : Text) :
      (arrow prev tip kind color).filter (hasName "image") = [] :=
    filter_hasName (names_arrow prev tip kind color) (by decide)
  have hmid (t : Text) : (midLabel ps t s.edgeText).filter (hasName "image") = [] := by
    unfold midLabel
    split
    · rfl
    · exact filter_images_label _ _ _ _ _
  have hend (tip prev : Point) (t : Text) : (endLabel tip prev t s.edgeText).filter (hasName "image") = [] :=
    filter_images_label _ _ _ _ _
  have hpath (a : Attributes) : hasName "image".toList (.tag "path" a) = false := rfl
  unfold linePicture
  simp only [List.cons_append, filter_cons_other (hpath _), List.filter_append, harrow,
    filter_optional hmid, filter_optional (hend _ _), List.append_nil]

theorem images_edgePicture (r : Route Float) (s : Style) : named "image" (edgePicture r s) = [] := by
  have htitle (t : Text) : IsMark anything (textElement "title" [] t) :=
    isMark_text _ (by decide) (by decide) rfl values_nil
  unfold edgePicture
  cases Ends.of? r.waypoints with
  | none => exact images_group (List.forall_mem_singleton.mpr (htitle _)) _
  | some ends =>
    have hmarks := isMark_linePicture (allows_anything s) r.edge r.waypoints ends
    rw [images_group (List.forall_mem_cons.mpr ⟨htitle _, hmarks⟩), filter_cons_other rfl]
    exact filter_linePicture _ _ _ _

def IsPlaceholder (i : Markup) : Prop :=
  ∃ x y width height, i = placeholder x y width height

open Item (Tidy TidyAll)

theorem tidyAll_of_elements {is : List Markup} (h : ∀ i ∈ is, Tidy i ∧ i.isElement = true) : TidyAll is := by
  induction is with
  | nil => trivial
  | cons i is ih =>
    obtain ⟨hi, his⟩ := List.forall_mem_cons.mp h
    exact ⟨hi.1, fun _ j hj => (his j (List.mem_of_mem_head? hj)).2, ih his⟩

theorem tidy_of_drawn {P : Text → Prop} {i : Markup} (h : Drawn P i) (himages : ∀ j ∈ named "image" i, IsPlaceholder j) :
    Tidy i ∧ i.isElement = true := by
  induction h with
  | mark h =>
    have hself := elements_mark h
    obtain ⟨name, a, s, rfl, -⟩ := h
    refine ⟨⟨fun hname => ?_, ?_⟩, rfl⟩
    · have hmem : textElement name a s ∈ named "image" (textElement name a s) := by
        rw [named, hself]
        exact List.mem_filter.mpr ⟨List.mem_singleton_self _, decide_eq_true hname⟩
      obtain ⟨x, y, w, k, heq⟩ := himages _ hmem
      obtain ⟨-, hattributes, hcontent⟩ := Item.element.inj heq
      exact ⟨hcontent, x, y, w, k, hattributes⟩
    · unfold Item.ofText
      split
      · trivial
      · exact ⟨trivial, ⟨Bool.noConfusion, trivial⟩⟩
  | group _ _ _ ih =>
    have hname : "g".toList ≠ "image".toList := by decide
    rw [images_tag hname] at himages
    refine ⟨⟨fun heq => absurd heq hname, tidyAll_of_elements fun j hj => ?_⟩, rfl⟩
    exact ih j hj fun k hk => himages k (List.mem_flatMap.mpr ⟨j, hj, hk⟩)

end Yuml.Pen

namespace Yuml.Document

open Xml Pen
open Item (named)

namespace Drawing

variable {d : Document} (w : Drawing d) (s : Style)

theorem images_content : (w.content s).flatMap (named "image") =
    (w.boxes.zip d.nodes).flatMap fun q => if q.2.shape = .actor then [actorPlaceholder q.1] else [] := by
  have hgroup : "g".toList ≠ "image".toList := by decide
  have hbackground : (background s).flatMap (named "image") = [] := by
    unfold background
    split
    · rfl
    · rfl
  have hedges : (w.routes.map (edgePicture · s)).flatMap (named "image") = [] := by
    rw [List.flatMap_map]
    exact List.flatMap_eq_nil_iff.mpr fun r _ => images_edgePicture r s
  rw [content, List.flatMap_append, hbackground, List.nil_append, List.flatMap_singleton, images_tag hgroup, figures,
    List.flatMap_append, hedges, List.nil_append, ← List.map_uncurry_zip_eq_zipWith, List.flatMap_map]
  exact List.flatMap_congr fun q _ => images_nodePicture q.1 q.2 s

theorem length_images : ((w.content s).flatMap (named "image")).length =
    (d.nodes.filter (·.shape = .actor)).length := by
  have hlength : d.nodes.length ≤ w.boxes.length := by
    have h := congrArg List.length w.nodes
    rw [List.length_map, List.length_map] at h
    exact h.ge
  have hcount (qs : List (Layered.Place Float × Node)) :
      (qs.flatMap fun q => if q.2.shape = .actor then [actorPlaceholder q.1] else []).length =
        ((qs.map Prod.snd).filter (·.shape = .actor)).length := by
    induction qs with
    | nil => rfl
    | cons q qs ih =>
      rw [List.flatMap_cons, List.length_append, ih, List.map_cons, List.filter_cons]
      by_cases hactor : q.2.shape = .actor
      · simp [hactor, Nat.add_comm]
      · simp [hactor]
  rw [images_content, hcount, List.map_snd_zip hlength]

theorem tidy_content : Item.TidyAll (w.content s) := by
  refine tidyAll_of_elements fun i hi => ?_
  have hdrawn := w.drawn_content (allows_anything s) (fun _ _ => trivial) (fun _ _ _ _ => trivial) i hi
  refine tidy_of_drawn hdrawn fun j hj => ?_
  have hmem : j ∈ (w.content s).flatMap (named "image") := List.mem_flatMap.mpr ⟨i, hi, hj⟩
  rw [images_content] at hmem
  obtain ⟨q, -, hq⟩ := List.mem_flatMap.mp hmem
  split at hq
  · exact ⟨_, _, _, _, List.mem_singleton.mp hq⟩
  · cases hq

end Drawing

end Yuml.Document
