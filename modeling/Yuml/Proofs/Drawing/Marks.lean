import Yuml.Drawing.EdgePicture
import Yuml.Drawing.NodePicture
import Yuml.Proofs.Xml.Character
import Yuml.Proofs.Xml.Elements
import Yuml.Xml.Basic

namespace Yuml.Pen

open Number Xml Layered
open Item (hasName)

def markNames : List Text :=
  ["title", "text", "rect", "circle", "ellipse", "polygon", "polyline", "line", "path", "image"]

def areSeparate (names : List Text) : Bool :=
  names.all (fun n => isPlainName n && n != "xmlns".toList) && decide names.Nodup

def HasBox (a : Attributes) : Prop :=
  ∀ p ∈ a, p.1 ∈ ["x".toList, "y".toList, "width".toList, "height".toList] → ∃ x, p.2 = fmt x

def IsMark (P : Text → Prop) (i : Markup) : Prop :=
  ∃ name a s, i = textElement name a s ∧ name ∈ markNames ∧ areSeparate (a.map (·.1)) = true ∧
    (∀ p ∈ a, P p.2) ∧ (name = "image".toList → HasBox a)

structure Allows (P : Text → Prop) (s : Style) : Prop where
  legal : ∀ v, Legal v → P v
  ink : P s.ink
  background : P s.background
  nodeFont : P s.nodeText.font
  nodeColor : P s.nodeText.color
  edgeInk : P s.edgeInk
  edgeFont : P s.edgeText.font
  edgeColor : P s.edgeText.color

theorem legal_joinWith {sep : Text} (hsep : Legal sep) {ts : List Text} (h : ∀ t ∈ ts, Legal t) :
    Legal (Text.joinWith sep ts) := by
  induction ts with
  | nil => exact fun _ hc => nomatch hc
  | cons t ts ih =>
    have ht := h t List.mem_cons_self
    cases ts with
    | nil => simpa [Text.joinWith] using ht
    | cons u us =>
      have hrest := ih fun v hv => h v (List.mem_cons_of_mem _ hv)
      rw [Text.joinWith, List.intercalate_cons_cons]
      exact legal_append (legal_append ht hsep) hrest

theorem legal_position (p : Point) : Legal (position p) :=
  legal_append (legal_fmt _) (List.forall_mem_cons.mpr ⟨rfl, legal_fmt _⟩)

theorem legal_corners (ps : List Point) : Legal (corners ps) := by
  refine legal_joinWith (legal_of_all (by decide)) fun t ht => ?_
  obtain ⟨p, -, rfl⟩ := List.mem_map.mp ht
  exact legal_position p

theorem legal_path (ps : List Point) : Legal (path ps) := by
  refine List.forall_mem_cons.mpr ⟨rfl, legal_joinWith (legal_of_all (by decide)) fun t ht => ?_⟩
  obtain ⟨p, -, rfl⟩ := List.mem_map.mp ht
  exact legal_position p

section Values

variable {P : Text → Prop} {name v : Text} {a : Attributes}

theorem values_nil : ∀ p ∈ ([] : Attributes), P p.2 :=
  fun _ hp => nomatch hp

theorem values_cons (h : P v) (ha : ∀ p ∈ a, P p.2) : ∀ p ∈ (name, v) :: a, P p.2 :=
  List.forall_mem_cons.mpr ⟨h, ha⟩

theorem isMark_text {name : Text} {a : Attributes} (s : Text) (hname : name ∈ markNames) (himage : name ≠ "image".toList)
    (hnames : areSeparate (a.map (·.1)) = true) (hvalues : ∀ p ∈ a, P p.2) :
    IsMark P (textElement name a s) :=
  ⟨name, a, s, rfl, hname, hnames, hvalues, fun h => absurd h himage⟩

theorem isMark_tag {name : Text} {a : Attributes} (hname : name ∈ markNames) (himage : name ≠ "image".toList)
    (hnames : areSeparate (a.map (·.1)) = true) (hvalues : ∀ p ∈ a, P p.2) :
    IsMark P (.tag name a) :=
  isMark_text [] hname himage hnames hvalues

end Values

section Shapes

variable {P : Text → Prop}

theorem values_fillText (hP : ∀ v, Legal v → P v) {fill : Option Text} (h : ∀ c, fill = some c → P c) :
    P (fillText fill) := by
  unfold fillText
  split
  · exact hP _ (legal_of_all (by decide))
  · exact hP _ (legal_of_all (by decide))
  · exact h _ rfl

theorem isMark_label (hP : ∀ v, Legal v → P v) (x top : Float) (s : Text) {l : Lettering} (hfont : P l.font)
    (hcolor : P l.color) {anchor : Text} (hanchor : Legal anchor) :
    ∀ i ∈ label x top s l anchor, IsMark P i := by
  intro i hi
  obtain ⟨⟨line, n⟩, -, rfl⟩ := List.mem_map.mp hi
  have hnumber (x : Float) : P (fmt x) := hP _ (legal_fmt x)
  exact isMark_text line (by decide) (by decide) rfl (values_cons (hnumber _) (values_cons (hnumber _)
    (values_cons hfont (values_cons (hnumber _) (values_cons hcolor (values_cons (hP _ hanchor) values_nil))))))

theorem isMark_arrow (hP : ∀ v, Legal v → P v) (prev tip : Point) (kind : Arrow) {color : Text}
    (hcolor : P color) : ∀ i ∈ arrow prev tip kind color, IsMark P i := by
  have hshape {name : Text} (ps : List Point) {fill : Text} (hname : name ∈ markNames)
      (himage : name ≠ "image".toList) (hfill : P fill) :
      ∀ i ∈ [(.tag name [("points", corners ps), ("fill", fill), ("stroke", color)] : Markup)], IsMark P i :=
    List.forall_mem_singleton.mpr (isMark_tag hname himage rfl
      (values_cons (hP _ (legal_corners ps)) (values_cons hfill (values_cons hcolor values_nil))))
  have hopen : P "none".toList := hP _ (legal_of_all (by decide))
  unfold arrow
  cases kind with
  | none => exact fun _ hi => nomatch hi
  | vee => exact hshape _ (by decide) (by decide) hopen
  | filled => exact hshape _ (by decide) (by decide) hcolor
  | triangle => exact hshape _ (by decide) (by decide) hopen
  | diamond => exact hshape _ (by decide) (by decide) hopen
  | filledDiamond => exact hshape _ (by decide) (by decide) hcolor

theorem filter_label (name : Text) (x top : Float) (s : Text) (l : Lettering) (anchor : Text) :
    (label x top s l anchor).filter (hasName name) =
      if "text".toList = name then label x top s l anchor else [] := by
  have hlabel : ∀ i ∈ label x top s l anchor, hasName name i = decide ("text".toList = name) := by
    intro i hi
    obtain ⟨q, -, rfl⟩ := List.mem_map.mp hi
    rfl
  rw [List.filter_congr hlabel]
  split
  · next h => exact List.filter_eq_self.mpr fun _ _ => decide_eq_true h
  · next h => exact List.filter_eq_nil_iff.mpr fun _ _ heq => h (of_decide_eq_true heq)

theorem names_arrow (prev tip : Point) (kind : Arrow) (color : Text) :
    ∀ i ∈ arrow prev tip kind color, ∃ other ∈ ["polyline".toList, "polygon".toList], hasName other i = true := by
  have hline : "polyline".toList ∈ ["polyline".toList, "polygon".toList] := by decide
  have hgon : "polygon".toList ∈ ["polyline".toList, "polygon".toList] := by decide
  unfold arrow
  cases kind with
  | none => exact fun _ hi => nomatch hi
  | vee => exact List.forall_mem_singleton.mpr ⟨_, hline, rfl⟩
  | filled => exact List.forall_mem_singleton.mpr ⟨_, hgon, rfl⟩
  | triangle => exact List.forall_mem_singleton.mpr ⟨_, hgon, rfl⟩
  | diamond => exact List.forall_mem_singleton.mpr ⟨_, hgon, rfl⟩
  | filledDiamond => exact List.forall_mem_singleton.mpr ⟨_, hgon, rfl⟩

theorem isMark_path (hP : ∀ v, Legal v → P v) (ps : List Point) {color : Text} (hcolor : P color)
    {dashes : Attributes} (hdashes : dashes = [] ∨ dashes = [("stroke-dasharray".toList, dash)]) :
    IsMark P (.tag "path" (("d", path ps) :: ("fill", "none") :: ("stroke", color) :: dashes)) := by
  have hline : P "none".toList := hP _ (legal_of_all (by decide))
  have hdash : P dash := hP _ (legal_of_all (by decide))
  rcases hdashes with rfl | rfl
  · exact isMark_tag (by decide) (by decide) rfl (values_cons (hP _ (legal_path ps)) (values_cons hline
      (values_cons hcolor values_nil)))
  · exact isMark_tag (by decide) (by decide) rfl (values_cons (hP _ (legal_path ps)) (values_cons hline
      (values_cons hcolor (values_cons hdash values_nil))))

theorem isMark_optional (t : Option Text) {draw : Text → List Markup}
    (hdraw : ∀ t, ∀ i ∈ draw t, IsMark P i) : ∀ i ∈ optional t draw, IsMark P i := by
  unfold optional
  split
  · exact fun _ hi => nomatch hi
  · exact fun _ hi => nomatch hi
  · exact hdraw _

variable {s : Style} (h : Allows P s)

include h

theorem Allows.number (x : Float) : P (fmt x) :=
  h.legal _ (legal_fmt x)

theorem Allows.literal {v : Text} (hv : v.all isLegal = true) : P v :=
  h.legal v (legal_of_all hv)

theorem Allows.corners (ps : List Point) : P (corners ps) :=
  h.legal _ (legal_corners ps)

theorem isMark_nodeLabel (x top : Float) (t : Text) {anchor : Text} (hanchor : Legal anchor) :
    ∀ i ∈ label x top t s.nodeText anchor, IsMark P i :=
  isMark_label h.legal x top t h.nodeFont h.nodeColor hanchor

theorem isMark_edgeLabel (x top : Float) (t : Text) {anchor : Text} (hanchor : Legal anchor) :
    ∀ i ∈ label x top t s.edgeText anchor, IsMark P i :=
  isMark_label h.legal x top t h.edgeFont h.edgeColor hanchor

theorem isMark_centred (p : Place Float) (t : Text) : ∀ i ∈ centred p t s.nodeText, IsMark P i :=
  isMark_nodeLabel h _ _ t (legal_of_all (by decide))

theorem isMark_rect (x y w k : Float) {more : Attributes}
    (hnames : areSeparate ("x".toList :: "y".toList :: "width".toList :: "height".toList :: more.map (·.1)) = true)
    (hmore : ∀ p ∈ more, P p.2) : IsMark P (rect x y w k more) :=
  isMark_tag (by decide) (by decide) hnames (values_cons (h.number x) (values_cons (h.number y)
    (values_cons (h.number w) (values_cons (h.number k) hmore))))

theorem isMark_circle (p : Place Float) (r : Float) {more : Attributes}
    (hnames : areSeparate ("cx".toList :: "cy".toList :: "r".toList :: more.map (·.1)) = true)
    (hmore : ∀ p ∈ more, P p.2) : IsMark P (circle p r more) :=
  isMark_tag (by decide) (by decide) hnames
    (values_cons (h.number _) (values_cons (h.number _) (values_cons (h.number _) hmore)))

theorem isMark_polygon (ps : List Point) {more : Attributes}
    (hnames : areSeparate ("points".toList :: more.map (·.1)) = true) (hmore : ∀ p ∈ more, P p.2) :
    IsMark P (polygon ps more) :=
  isMark_tag (by decide) (by decide) hnames (values_cons (h.corners ps) hmore)

theorem isMark_lowerCompartment (p : Place Float) (c : Compartment Float) :
    ∀ i ∈ lowerCompartment p s.nodeText s.ink c, IsMark P i :=
  List.forall_mem_cons.mpr ⟨isMark_tag (by decide) (by decide) rfl (values_cons (h.number _)
    (values_cons (h.number _) (values_cons (h.number _) (values_cons (h.number _) (values_cons h.ink values_nil))))),
    isMark_nodeLabel h _ _ _ (legal_of_all (by decide))⟩

theorem isMark_recordPicture (p : Place Float) (n : Node) {fill : Text} (hfill : P fill) :
    ∀ i ∈ recordPicture p n [("fill", fill), ("stroke", s.ink)] s.ink s.nodeText, IsMark P i := by
  have hstroke : ∀ p ∈ [("fill".toList, fill), ("stroke".toList, s.ink)], P p.2 :=
    values_cons hfill (values_cons h.ink values_nil)
  refine List.forall_mem_cons.mpr ⟨isMark_rect h _ _ _ _ rfl hstroke, ?_⟩
  split
  · exact fun _ hi => nomatch hi
  · refine List.forall_mem_append.mpr ⟨isMark_nodeLabel h _ _ _ (legal_of_all (by decide)), fun i hi => ?_⟩
    obtain ⟨c, -, hi⟩ := List.mem_flatMap.mp hi
    exact isMark_lowerCompartment h p c i hi

theorem isMark_shapePicture (p : Place Float) (n : Node) (hfill : ∀ c, n.fill = some c → P c) :
    ∀ i ∈ shapePicture p n s, IsMark P i := by
  unfold shapePicture
  dsimp only
  have hstroke : ∀ p ∈ ([("fill", fillText n.fill), ("stroke", s.ink)] : Attributes), P p.2 :=
    values_cons (values_fillText h.legal hfill) (values_cons h.ink values_nil)
  have hsolid : ∀ p ∈ ([("fill", s.ink)] : Attributes), P p.2 := values_cons h.ink values_nil
  have houtline : ∀ p ∈ ([("fill", "none"), ("stroke", s.ink)] : Attributes), P p.2 :=
    values_cons (h.literal (by decide)) (values_cons h.ink values_nil)
  split
  · exact isMark_recordPicture h p n (values_fillText h.legal hfill)
  · exact List.forall_mem_singleton.mpr (isMark_circle h p _ rfl hsolid)
  · exact List.forall_mem_cons.mpr ⟨isMark_circle h p _ rfl houtline,
      List.forall_mem_singleton.mpr (isMark_circle h p _ rfl hsolid)⟩
  · exact List.forall_mem_singleton.mpr (isMark_rect h _ _ _ _ rfl hsolid)
  · refine List.forall_mem_cons.mpr ⟨⟨"image", _, [], rfl, by decide, rfl, ?_, fun _ => ?_⟩,
      isMark_nodeLabel h _ _ _ (legal_of_all (by decide))⟩
    · exact values_cons (h.literal (by decide)) (values_cons (h.number _) (values_cons (h.number _)
        (values_cons (h.number _) (values_cons (h.number _) values_nil))))
    · have href : "href".toList ∉ ["x".toList, "y".toList, "width".toList, "height".toList] := by decide
      refine List.forall_mem_cons.mpr ⟨fun hmem => absurd hmem href, ?_⟩
      exact List.forall_mem_cons.mpr ⟨fun _ => ⟨_, rfl⟩, List.forall_mem_cons.mpr ⟨fun _ => ⟨_, rfl⟩,
        List.forall_mem_cons.mpr ⟨fun _ => ⟨actorWidth, rfl⟩, List.forall_mem_cons.mpr
          ⟨fun _ => ⟨actorHeight, rfl⟩, fun _ hp => nomatch hp⟩⟩⟩⟩
  · exact List.forall_mem_cons.mpr ⟨isMark_tag (by decide) (by decide) rfl (values_cons (h.number _)
      (values_cons (h.number _) (values_cons (h.number _) (values_cons (h.number _) hstroke)))),
      isMark_centred h p n.label⟩
  · exact List.forall_mem_cons.mpr ⟨isMark_polygon h _ rfl hstroke, isMark_centred h p n.label⟩
  · exact List.forall_mem_cons.mpr ⟨isMark_polygon h _ rfl hstroke, List.forall_mem_cons.mpr
      ⟨isMark_tag (by decide) (by decide) rfl (values_cons (h.corners _) houtline), isMark_centred h p n.label⟩⟩
  · exact List.forall_mem_cons.mpr ⟨isMark_polygon h _ rfl hstroke, List.forall_mem_cons.mpr
      ⟨isMark_polygon h _ rfl hstroke, List.forall_mem_cons.mpr
        ⟨isMark_rect h _ _ _ _ rfl hstroke, isMark_centred h p n.label⟩⟩⟩
  · have hlug (y : Float) : IsMark P (.tag "rect" (("x", fmt p.x) :: ("y", fmt y) :: ("width", "12") ::
        ("height", "6") :: [("fill", fillText n.fill), ("stroke", s.ink)])) :=
      isMark_tag (by decide) (by decide) rfl (values_cons (h.number _) (values_cons (h.number _)
        (values_cons (h.literal (by decide)) (values_cons (h.literal (by decide)) hstroke))))
    exact List.forall_mem_cons.mpr ⟨isMark_rect h _ _ _ _ rfl hstroke, List.forall_mem_cons.mpr
      ⟨hlug _, List.forall_mem_cons.mpr ⟨hlug _, isMark_centred h p n.label⟩⟩⟩
  · exact List.forall_mem_cons.mpr ⟨isMark_tag (by decide) (by decide) rfl (values_cons (h.number _)
      (values_cons (h.number _) (values_cons (h.number _) (values_cons (h.literal (by decide)) hstroke)))),
      List.forall_mem_cons.mpr ⟨isMark_rect h _ _ _ _ rfl hstroke, isMark_centred h _ n.label⟩⟩
  · have hcorners : ∀ p ∈ ([("rx", "10"), ("ry", "10")] : Attributes), P p.2 :=
      values_cons (h.literal (by decide)) (values_cons (h.literal (by decide)) values_nil)
    have hround := List.forall_mem_append.mpr ⟨hstroke, hcorners⟩
    exact List.forall_mem_cons.mpr ⟨isMark_rect h _ _ _ _ rfl hround, isMark_centred h p n.label⟩
  · exact List.forall_mem_cons.mpr ⟨isMark_rect h _ _ _ _ rfl hstroke, isMark_centred h p n.label⟩

theorem isMark_midLabel (ps : List Point) (t : Text) : ∀ i ∈ midLabel ps t s.edgeText, IsMark P i := by
  unfold midLabel
  split
  · exact fun _ hi => nomatch hi
  · exact isMark_edgeLabel h _ _ t (legal_of_all (by decide))

theorem isMark_endLabel (tip prev : Point) (t : Text) : ∀ i ∈ endLabel tip prev t s.edgeText, IsMark P i :=
  isMark_edgeLabel h _ _ t (legal_of_all (by decide))

theorem isMark_linePicture (e : Edge) (ps : List Point) (ends : Ends) :
    ∀ i ∈ linePicture e ps ends s, IsMark P i := by
  have harrow (prev tip : Point) (kind : Arrow) := isMark_arrow h.legal prev tip kind h.edgeInk
  unfold linePicture
  refine List.forall_mem_cons.mpr ⟨isMark_path h.legal _ h.edgeInk ?_, List.forall_mem_append.mpr
    ⟨List.forall_mem_append.mpr ⟨List.forall_mem_append.mpr ⟨List.forall_mem_append.mpr ⟨harrow _ _ _,
      harrow _ _ _⟩, ?_⟩, ?_⟩, ?_⟩⟩
  · cases e.style with
    | solid => exact .inl rfl
    | dashed => exact .inr rfl
  · exact isMark_optional _ fun t => isMark_midLabel h ps t
  · exact isMark_optional _ fun t => isMark_endLabel h _ _ t
  · exact isMark_optional _ fun t => isMark_endLabel h _ _ t

end Shapes

end Yuml.Pen
