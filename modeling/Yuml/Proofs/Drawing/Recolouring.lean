import Yuml.Proofs.Drawing.Ink
import Yuml.Proofs.Drawing.Picture

namespace Yuml

structure Lettering.Apart (l l' : Lettering) : Prop where
  font : l.font = l'.font
  size : l.size = l'.size
  color : InkApart l.color l'.color

structure Style.Apart (s s' : Style) : Prop where
  ink : InkApart s.ink s'.ink
  background : s.background = s'.background
  nodeText : s.nodeText.Apart s'.nodeText
  edgeInk : InkApart s.edgeInk s'.edgeInk
  edgeText : s.edgeText.Apart s'.edgeText

namespace Pen

open Number Xml Layered
open Item (Apart)

abbrev AttributesApart : Attributes → Attributes → Prop :=
  List.Forall₂ (AttributeApart paints)

abbrev PicturesApart : List Markup → List Markup → Prop :=
  List.Forall₂ (Apart paints)

section Lists

variable {name v v' : Text} {a a' : Attributes} {children children' : List Markup}

theorem attributes_same (a : Attributes) : AttributesApart a a :=
  List.forall₂_same.mpr fun _ _ => ⟨rfl, .inl rfl⟩

theorem attributes_cons (h : AttributesApart a a') : AttributesApart ((name, v) :: a) ((name, v) :: a') :=
  .cons ⟨rfl, .inl rfl⟩ h

theorem attributes_ink (hname : paints name) (hv : InkApart v v') (h : AttributesApart a a') :
    AttributesApart ((name, v) :: a) ((name, v') :: a') :=
  .cons ⟨rfl, hv.imp_right fun hink => ⟨hname, hink⟩⟩ h

theorem attributes_append {b b' : Attributes} (h : AttributesApart a a') (h' : AttributesApart b b') :
    AttributesApart (a ++ b) (a' ++ b') :=
  List.rel_append h h'

theorem apart_tag (h : AttributesApart a a') (hc : PicturesApart children children') (name : Text) :
    Apart paints (.tag name a children) (.tag name a' children') :=
  .element h hc

theorem pictures_append {is is' js js' : List Markup} (h : PicturesApart is is') (h' : PicturesApart js js') :
    PicturesApart (is ++ js) (is' ++ js') :=
  List.rel_append h h'

theorem pictures_map {α : Type} {f f' : α → Markup} (xs : List α) (h : ∀ x ∈ xs, Apart paints (f x) (f' x)) :
    PicturesApart (xs.map f) (xs.map f') :=
  List.forall₂_map_left_iff.mpr (List.forall₂_map_right_iff.mpr (List.forall₂_same.mpr h))

theorem pictures_flatMap {α : Type} {f f' : α → List Markup} (xs : List α) (h : ∀ x ∈ xs, PicturesApart (f x) (f' x)) :
    PicturesApart (xs.flatMap f) (xs.flatMap f') := by
  induction xs with
  | nil => exact .nil
  | cons x xs ih =>
    obtain ⟨hx, hxs⟩ := List.forall_mem_cons.mp h
    exact pictures_append hx (ih hxs)

theorem apart_textElement (h : AttributesApart a a') (name s : Text) :
    Apart paints (textElement name a s) (textElement name a' s) := by
  refine apart_tag h ?_ name
  unfold Item.ofText
  split
  · exact .nil
  · exact .cons (.text _) .nil

theorem get?_eq (h : AttributesApart a a') (hname : ¬ paints name) :
    a.get? name = a'.get? name := by
  induction h with
  | nil => rfl
  | @cons p q a a' hpq _ ih =>
    obtain ⟨n, v⟩ := p
    obtain ⟨n', v'⟩ := q
    obtain ⟨heq, hvalue⟩ := hpq
    obtain rfl : n = n' := heq
    rw [Attributes.get?_cons, Attributes.get?_cons, ih]
    split
    · next hn =>
      rcases hvalue with hsame | ⟨hpaints, -⟩
      · exact congrArg some hsame
      · exact absurd (hn ▸ hpaints) hname
    · rfl

end Lists

theorem paints_fill : paints "fill" :=
  .inl rfl

theorem paints_stroke : paints "stroke" :=
  .inr rfl

section Marks

variable {ink ink' : Text} (hink : InkApart ink ink') {l l' : Lettering} (hl : l.Apart l')

include hink in
theorem stroke_apart (fill : Text) : AttributesApart [("fill", fill), ("stroke", ink)] [("fill", fill), ("stroke", ink')] :=
  attributes_cons (attributes_ink paints_stroke hink .nil)

include hink in
theorem solid_apart : AttributesApart [("fill", ink)] [("fill", ink')] :=
  attributes_ink paints_fill hink .nil

include hl in
theorem label_apart (x top : Float) (s anchor : Text) : PicturesApart (label x top s l anchor) (label x top s l' anchor) := by
  refine pictures_map _ fun q _ => ?_
  unfold labelLine
  rw [← hl.font, ← hl.size]
  exact apart_textElement (attributes_cons (attributes_cons (attributes_cons (attributes_cons
    (attributes_ink paints_fill hl.color (attributes_same _)))))) _ _

include hl in
theorem centred_apart (p : Place Float) (s : Text) : PicturesApart (centred p s l) (centred p s l') := by
  unfold centred
  rw [← hl.size]
  exact label_apart hl _ _ _ _

theorem rect_apart (x y w k : Float) {more more' : Attributes} (h : AttributesApart more more') :
    Apart paints (rect x y w k more) (rect x y w k more') :=
  apart_tag (attributes_cons (attributes_cons (attributes_cons (attributes_cons h)))) .nil _

theorem circle_apart (p : Place Float) (r : Float) {more more' : Attributes} (h : AttributesApart more more') :
    Apart paints (circle p r more) (circle p r more') :=
  apart_tag (attributes_cons (attributes_cons (attributes_cons h))) .nil _

theorem polygon_apart (ps : List Point) {more more' : Attributes} (h : AttributesApart more more') :
    Apart paints (polygon ps more) (polygon ps more') :=
  apart_tag (attributes_cons h) .nil _

include hink hl

theorem lowerCompartment_apart (p : Place Float) (c : Compartment Float) :
    PicturesApart (lowerCompartment p l ink c) (lowerCompartment p l' ink' c) :=
  .cons (apart_tag (attributes_cons (attributes_cons (attributes_cons (attributes_cons
    (attributes_ink paints_stroke hink .nil))))) .nil _) (label_apart hl _ _ _ _)

theorem recordPicture_apart (p : Place Float) (n : Node) {stroke stroke' : Attributes}
    (hstroke : AttributesApart stroke stroke') :
    PicturesApart (recordPicture p n stroke ink l) (recordPicture p n stroke' ink' l') := by
  unfold recordPicture
  rw [← hl.size]
  refine .cons (rect_apart _ _ _ _ hstroke) ?_
  split
  · exact .nil
  · exact pictures_append (label_apart hl _ _ _ _) (pictures_flatMap _ fun c _ => lowerCompartment_apart hink hl p c)

end Marks

section Pictures

variable {s s' : Style} (h : s.Apart s')

include h

theorem shapePicture_apart (p : Place Float) (n : Node) : PicturesApart (shapePicture p n s) (shapePicture p n s') := by
  have hstroke := stroke_apart h.ink (fillText n.fill)
  have hsolid := solid_apart h.ink
  have hline := stroke_apart h.ink "none"
  have hlabel (q : Place Float) := centred_apart h.nodeText q n.label
  unfold shapePicture
  cases n.shape with
  | record => exact recordPicture_apart h.ink h.nodeText p n hstroke
  | start => exact .cons (circle_apart _ _ hsolid) .nil
  | final => exact .cons (circle_apart _ _ hline) (.cons (circle_apart _ _ hsolid) .nil)
  | bar => exact .cons (rect_apart _ _ _ _ hsolid) .nil
  | actor => exact .cons (apart_tag (attributes_same _) .nil _) (label_apart h.nodeText _ _ _ _)
  | ellipse =>
    exact .cons (apart_tag (attributes_cons (attributes_cons (attributes_cons (attributes_cons hstroke)))) .nil _) (hlabel _)
  | diamond => exact .cons (polygon_apart _ hstroke) (hlabel _)
  | rounded => exact .cons (rect_apart _ _ _ _ (attributes_append hstroke (attributes_same _))) (hlabel _)
  | box => exact .cons (rect_apart _ _ _ _ hstroke) (hlabel _)
  | note => exact .cons (polygon_apart _ hstroke) (.cons (apart_tag (attributes_cons hline) .nil _) (hlabel _))
  | tab =>
    exact .cons (apart_tag (attributes_cons (attributes_cons (attributes_cons (attributes_cons hstroke)))) .nil _)
      (.cons (rect_apart _ _ _ _ hstroke) (hlabel _))
  | box3d =>
    exact .cons (polygon_apart _ hstroke) (.cons (polygon_apart _ hstroke) (.cons (rect_apart _ _ _ _ hstroke) (hlabel _)))
  | component =>
    have hlug (y : Float) : Apart paints
        (.tag "rect" (("x", fmt p.x) :: ("y", fmt y) :: ("width", "12") :: ("height", "6") :: [("fill", fillText n.fill),
          ("stroke", s.ink)]))
        (.tag "rect" (("x", fmt p.x) :: ("y", fmt y) :: ("width", "12") :: ("height", "6") :: [("fill", fillText n.fill),
          ("stroke", s'.ink)])) :=
      apart_tag (attributes_cons (attributes_cons (attributes_cons (attributes_cons hstroke)))) .nil _
    exact .cons (rect_apart _ _ _ _ hstroke) (.cons (hlug _) (.cons (hlug _) (hlabel _)))

theorem nodePicture_apart (p : Place Float) (n : Node) : Apart paints (nodePicture p n s) (nodePicture p n s') :=
  apart_tag (attributes_same _) (.cons (apart_textElement .nil _ _) (shapePicture_apart h p n)) _

omit h in
theorem arrow_apart (prev tip : Point) (kind : Arrow) {color color' : Text} (hcolor : InkApart color color') :
    PicturesApart (arrow prev tip kind color) (arrow prev tip kind color') := by
  have hopen (name : Text) (ps : List Point) : PicturesApart
      [.tag name [("points", corners ps), ("fill", "none"), ("stroke", color)]]
      [.tag name [("points", corners ps), ("fill", "none"), ("stroke", color')]] :=
    .cons (apart_tag (attributes_cons (stroke_apart hcolor _)) .nil _) .nil
  have hfilled (ps : List Point) : PicturesApart
      [.tag "polygon" [("points", corners ps), ("fill", color), ("stroke", color)]]
      [.tag "polygon" [("points", corners ps), ("fill", color'), ("stroke", color')]] :=
    .cons (apart_tag (attributes_cons (attributes_ink paints_fill hcolor (attributes_ink paints_stroke hcolor .nil))) .nil _)
      .nil
  unfold arrow
  cases kind with
  | none => exact .nil
  | vee => exact hopen _ _
  | filled => exact hfilled _
  | triangle => exact hopen _ _
  | diamond => exact hopen _ _
  | filledDiamond => exact hfilled _

omit h in
theorem optional_apart (t : Option Text) {draw draw' : Text → List Markup} (hdraw : ∀ t, PicturesApart (draw t) (draw' t)) :
    PicturesApart (optional t draw) (optional t draw') := by
  unfold optional
  split
  · exact .nil
  · exact .nil
  · exact hdraw _

theorem linePicture_apart (e : Edge) (ps : List Point) (ends : Ends) :
    PicturesApart (linePicture e ps ends s) (linePicture e ps ends s') := by
  have hmid (t : Text) : PicturesApart (midLabel ps t s.edgeText) (midLabel ps t s'.edgeText) := by
    unfold midLabel
    rw [← h.edgeText.size]
    split
    · exact .nil
    · exact label_apart h.edgeText _ _ _ _
  have hend (tip prev : Point) (t : Text) :
      PicturesApart (endLabel tip prev t s.edgeText) (endLabel tip prev t s'.edgeText) := by
    unfold endLabel
    rw [← h.edgeText.size]
    exact label_apart h.edgeText _ _ _ _
  have harrow (prev tip : Point) (kind : Arrow) := arrow_apart prev tip kind h.edgeInk
  refine .cons (apart_tag (attributes_cons (attributes_cons (attributes_ink paints_stroke h.edgeInk
    (attributes_same _)))) .nil _) ?_
  exact pictures_append (pictures_append (pictures_append (pictures_append (harrow _ _ _) (harrow _ _ _))
    (optional_apart _ hmid)) (optional_apart _ (hend _ _))) (optional_apart _ (hend _ _))

theorem edgePicture_apart (r : Route Float) : Apart paints (edgePicture r s) (edgePicture r s') := by
  refine apart_tag (attributes_same _) (.cons (apart_textElement .nil _ _) ?_) _
  split
  · exact .nil
  · exact linePicture_apart h _ _ _

end Pictures

section Canvas

open Item (AllWellFormed DeclaresNoSpace startTagsAll)

variable {content content' : List Markup} (hapart : PicturesApart content content')

include hapart

theorem canvas_apart (width height : Float) :
    Apart paints (canvas width height content) (canvas width height content') :=
  apart_tag (attributes_same _) hapart _

theorem svgApart_canvas (h : AllWellFormed content) (hspace : DeclaresNoSpace (startTagsAll content))
    (h' : AllWellFormed content') (hspace' : DeclaresNoSpace (startTagsAll content')) (width height : Float) :
    SvgApart (canvas width height content).write (canvas width height content').write := by
  refine ⟨.inr ⟨_, _, canvas_apart hapart width height, rfl, rfl⟩, ?_⟩
  rw [readTree?_canvas_of_wellFormed h hspace, readTree?_canvas_of_wellFormed h' hspace']
  have hsheet := apart_tag (attributes_same (canvasSize width height)) (Item.unifiedAll_apart _ _ hapart) "svg"
  exact .some (Item.inSpace_apart svgSpace _ _ hsheet)

theorem svgApart_drawn (h : ∀ i ∈ content, Drawn Legal i) (h' : ∀ i ∈ content', Drawn Legal i) (width height : Float) :
    SvgApart (canvas width height content).write (canvas width height content').write :=
  svgApart_canvas hapart (allWellFormed_drawn h) (declaresNoSpace_drawn h) (allWellFormed_drawn h')
    (declaresNoSpace_drawn h') width height

end Canvas

end Pen

namespace Document.Drawing

open Pen Xml

variable {d : Document} (w : Drawing d) {s s' : Style} (h : s.Apart s')

include h

theorem content_apart : PicturesApart (w.content s) (w.content s') := by
  have hbackground : PicturesApart (background s) (background s') := by
    unfold background
    rw [← h.background]
    split
    · exact .nil
    · exact .cons (apart_tag (attributes_same _) .nil _) .nil
  refine pictures_append hbackground (.cons (apart_tag (attributes_same _) ?_ _) .nil)
  refine pictures_append (pictures_map _ fun r _ => edgePicture_apart h r) ?_
  rw [← List.map_uncurry_zip_eq_zipWith, ← List.map_uncurry_zip_eq_zipWith]
  exact pictures_map _ fun q _ => nodePicture_apart h q.1 q.2

end Document.Drawing

end Yuml
