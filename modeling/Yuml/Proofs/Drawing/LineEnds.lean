import Yuml.Proofs.Drawing.Compartments
import Yuml.Proofs.Drawing.Picture
import Yuml.Proofs.Notation.Labels

namespace Yuml.Pen

open Number Xml Layered Notation
open Item (unified unifiedAll unifiedAll_eq_self)
open Text (NoReturn)

theorem unified_textElement (name : Text) (a : Attributes) {s : Text} (h : NoReturn s) :
    unified (textElement name a s) = textElement name a s := by
  have hlegal : NoReturn (legalText s) := h.of_subset (List.filter_subset_self _)
  have hcontent : unifiedAll (Item.ofText (legalText s)) = Item.ofText (legalText s) := by
    refine unifiedAll_eq_self fun i hi => ?_
    unfold Item.ofText at hi
    split at hi
    · cases hi
    · rw [List.mem_singleton.mp hi, unified, Text.unifyLineEnds_eq_self hlegal]
  rw [textElement, Item.tag, unified, hcontent]

theorem unified_tag (name : Text) (a : Attributes) {children : List Markup} (h : ∀ i ∈ children, unified i = i) :
    unified (.tag name a children) = .tag name a children := by
  rw [Item.tag, unified, unifiedAll_eq_self h]

theorem unified_label (x top : Float) {t : Text} (h : NoReturn t) (l : Lettering) (anchor : Text) :
    ∀ i ∈ label x top t l anchor, unified i = i := by
  intro i hi
  obtain ⟨⟨line, n⟩, hmem, rfl⟩ := List.mem_map.mp hi
  have hline : line ∈ labelLines t := List.fst_mem_of_mem_zipIdx hmem
  exact unified_textElement _ _ (h.of_subset (Text.pieces_subset hline))

theorem noReturn_compartments {n : Node} (h : NoReturns n.label n.fields) : ∀ t ∈ n.compartments, NoReturn t := by
  unfold Node.compartments
  split
  · exact List.forall_mem_singleton.mpr h.1
  · exact h.2

theorem unified_recordPicture (p : Place Float) {n : Node} (h : NoReturns n.label n.fields) (stroke : Attributes)
    (ink : Text) (l : Lettering) : ∀ i ∈ recordPicture p n stroke ink l, unified i = i := by
  have htext : ∀ c ∈ stackCompartments l.size p.y n.compartments, NoReturn c.text := fun c hc =>
    noReturn_compartments h c.text (text_mem_of_mem_stackCompartments hc)
  unfold recordPicture
  refine List.forall_mem_cons.mpr ⟨rfl, ?_⟩
  revert htext
  cases stackCompartments l.size p.y n.compartments with
  | nil => exact fun _ _ hi => nomatch hi
  | cons name rest =>
    intro htext
    obtain ⟨hname, hrest⟩ := List.forall_mem_cons.mp htext
    refine List.forall_mem_append.mpr ⟨unified_label _ _ hname _ _, fun i hi => ?_⟩
    obtain ⟨c, hc, hi⟩ := List.mem_flatMap.mp hi
    rcases List.mem_cons.mp hi with rfl | hi
    · rfl
    · exact unified_label _ _ (hrest c hc) _ _ i hi

theorem unified_shapePicture (p : Place Float) {n : Node} (h : NoReturns n.label n.fields) (s : Style) :
    ∀ i ∈ shapePicture p n s, unified i = i := by
  have hlabel (q : Place Float) : ∀ i ∈ centred q n.label s.nodeText, unified i = i := unified_label _ _ h.1 _ _
  unfold shapePicture
  cases n.shape with
  | record => exact unified_recordPicture p h _ _ _
  | start => exact List.forall_mem_singleton.mpr rfl
  | final => exact List.forall_mem_cons.mpr ⟨rfl, List.forall_mem_singleton.mpr rfl⟩
  | bar => exact List.forall_mem_singleton.mpr rfl
  | actor => exact List.forall_mem_cons.mpr ⟨rfl, unified_label _ _ h.1 _ _⟩
  | ellipse => exact List.forall_mem_cons.mpr ⟨rfl, hlabel _⟩
  | diamond => exact List.forall_mem_cons.mpr ⟨rfl, hlabel _⟩
  | rounded => exact List.forall_mem_cons.mpr ⟨rfl, hlabel _⟩
  | box => exact List.forall_mem_cons.mpr ⟨rfl, hlabel _⟩
  | note => exact List.forall_mem_cons.mpr ⟨rfl, List.forall_mem_cons.mpr ⟨rfl, hlabel _⟩⟩
  | tab => exact List.forall_mem_cons.mpr ⟨rfl, List.forall_mem_cons.mpr ⟨rfl, hlabel _⟩⟩
  | box3d => exact List.forall_mem_cons.mpr ⟨rfl, List.forall_mem_cons.mpr ⟨rfl, List.forall_mem_cons.mpr ⟨rfl, hlabel _⟩⟩⟩
  | component =>
    exact List.forall_mem_cons.mpr ⟨rfl, List.forall_mem_cons.mpr ⟨rfl, List.forall_mem_cons.mpr ⟨rfl, hlabel _⟩⟩⟩

theorem unified_nodePicture (p : Place Float) {n : Node} (h : NoReturns n.label n.fields) (s : Style) :
    unified (nodePicture p n s) = nodePicture p n s :=
  unified_tag _ _ (List.forall_mem_cons.mpr ⟨unified_textElement _ _ h.1, unified_shapePicture p h s⟩)

theorem unified_arrow (prev tip : Point) (kind : Arrow) (color : Text) :
    ∀ i ∈ arrow prev tip kind color, unified i = i := by
  unfold arrow
  cases kind with
  | none => exact fun _ hi => nomatch hi
  | vee => exact List.forall_mem_singleton.mpr rfl
  | filled => exact List.forall_mem_singleton.mpr rfl
  | triangle => exact List.forall_mem_singleton.mpr rfl
  | diamond => exact List.forall_mem_singleton.mpr rfl
  | filledDiamond => exact List.forall_mem_singleton.mpr rfl

theorem unified_optional {t : Option Text} (h : ∀ s ∈ t, NoReturn s) {draw : Text → List Markup}
    (hdraw : ∀ s, NoReturn s → ∀ i ∈ draw s, unified i = i) : ∀ i ∈ optional t draw, unified i = i := by
  unfold optional
  split
  · exact fun _ hi => nomatch hi
  · exact fun _ hi => nomatch hi
  · exact hdraw _ (h _ rfl)

theorem unified_linePicture {e : Edge} (h : NoReturnsAlong [e.label, e.headLabel, e.tailLabel]) (ps : List Point)
    (ends : Ends) (s : Style) : ∀ i ∈ linePicture e ps ends s, unified i = i := by
  obtain ⟨hlabel, h⟩ := List.forall_mem_cons.mp h
  obtain ⟨hhead, h⟩ := List.forall_mem_cons.mp h
  have htail := List.forall_mem_singleton.mp h
  have hmid (t : Text) (ht : NoReturn t) : ∀ i ∈ midLabel ps t s.edgeText, unified i = i := by
    unfold midLabel
    split
    · exact fun _ hi => nomatch hi
    · exact unified_label _ _ ht _ _
  have hend (tip prev : Point) (t : Text) (ht : NoReturn t) : ∀ i ∈ endLabel tip prev t s.edgeText, unified i = i :=
    unified_label _ _ ht _ _
  unfold linePicture
  refine List.forall_mem_cons.mpr ⟨rfl, List.forall_mem_append.mpr ⟨List.forall_mem_append.mpr
    ⟨List.forall_mem_append.mpr ⟨List.forall_mem_append.mpr ⟨unified_arrow _ _ _ _, unified_arrow _ _ _ _⟩, ?_⟩, ?_⟩, ?_⟩⟩
  · exact unified_optional hlabel hmid
  · exact unified_optional hhead (hend _ _)
  · exact unified_optional htail (hend _ _)

theorem unified_edgePicture {r : Route Float} (h : NoReturnsAlong [r.edge.label, r.edge.headLabel, r.edge.tailLabel])
    (hends : NoReturn r.edge.tail ∧ NoReturn r.edge.head) (s : Style) : unified (edgePicture r s) = edgePicture r s := by
  have harrow : NoReturn "->".toList := by decide
  refine unified_tag _ _ (List.forall_mem_cons.mpr ⟨unified_textElement _ _ ((hends.1.append harrow).append hends.2), ?_⟩)
  split
  · exact fun _ hi => nomatch hi
  · exact unified_linePicture h _ _ _

end Yuml.Pen

namespace Yuml.Document

open Pen Xml Notation
open Item (unified unifiedAll)
open Text (NoReturn)

theorem Drawing.unified_content {d : Document} (w : Drawing d) (s : Style) (h : ShowsNoReturn d)
    (hends : ∀ e ∈ d.edges, NoReturn e.tail ∧ NoReturn e.head) : unifiedAll (w.content s) = w.content s := by
  have hbackground : ∀ i ∈ background s, unified i = i := by
    unfold background
    split
    · exact fun _ hi => nomatch hi
    · exact List.forall_mem_singleton.mpr rfl
  refine Item.unifiedAll_eq_self (List.forall_mem_append.mpr ⟨hbackground, List.forall_mem_singleton.mpr ?_⟩)
  refine unified_tag _ _ (List.forall_mem_append.mpr ⟨fun i hi => ?_, fun i hi => ?_⟩)
  · obtain ⟨r, hr, rfl⟩ := List.mem_map.mp hi
    have hmem : r.edge ∈ d.edges := w.edges ▸ List.mem_map_of_mem hr
    exact unified_edgePicture (h.edges r.edge hmem) (hends r.edge hmem) s
  · rw [← List.map_uncurry_zip_eq_zipWith] at hi
    obtain ⟨q, hq, rfl⟩ := List.mem_map.mp hi
    exact unified_nodePicture q.1 (h.nodes q.2 (List.of_mem_zip hq).2) s

end Yuml.Document
