import Yuml.Drawing.Picture
import Yuml.Proofs.Drawing.Canvas
import Yuml.Proofs.Drawing.Theme
import Yuml.Proofs.Layered.Layout

namespace Except

variable {ε α β γ : Type}

theorem mapM_zipWith {f : α → Except ε β} (g : β → α → γ) {xs : List α} {ys : List β} (h : xs.mapM f = .ok ys) :
    xs.mapM (fun x => return g (← f x) x) = .ok (List.zipWith g ys xs) := by
  induction xs generalizing ys with
  | nil =>
    cases h
    rfl
  | cons x xs ih =>
    rw [List.mapM_cons] at h
    obtain ⟨y, hy, h⟩ := bind_eq_ok.mp h
    obtain ⟨ys, hys, h⟩ := bind_eq_ok.mp h
    cases h
    rw [List.mapM_cons, ih hys, hy]
    rfl

end Except

namespace Yuml

open Number Xml Layered

namespace Layered.Layout

theorem gaps_of_empty {options : Value} (h : options.isTrue = false) :
    gaps options = .ok (defaultRankGap, defaultNodeGap) := by
  cases options with
  | mapping entries =>
    obtain rfl := Value.entries_eq_nil h
    rfl
  | _ => simp [gaps, h]

end Layered.Layout

namespace Document

structure Named (d : Document) : Prop where
  nodup : (d.nodes.map (·.id)).Nodup
  ends : ∀ e ∈ d.edges, e.tail ∈ d.nodes.map (·.id) ∧ e.head ∈ d.nodes.map (·.id)

theorem Named.withHeader {d : Document} (h : d.Named) (header : Option Header) : { d with header }.Named :=
  ⟨h.nodup, h.ends⟩

structure Drawing (d : Document) where
  width : Float
  height : Float
  routes : List (Route Float)
  boxes : List (Place Float)
  edges : routes.map (·.edge) = d.edges
  hasEnds : ∀ r ∈ routes, 2 ≤ r.waypoints.length
  nodes : boxes.map (·.id) = d.nodes.map (·.id)

variable {d : Document}

namespace Drawing

variable (w : Drawing d) (s : Style)

def figures : List Markup :=
  w.routes.map (Pen.edgePicture · s) ++ List.zipWith (fun p n => Pen.nodePicture p n s) w.boxes d.nodes

def content : List Markup :=
  background s ++ [.tag "g" [("class", "graph")] (w.figures s)]

def picture : Markup :=
  Pen.canvas w.width w.height (w.content s)

end Drawing

theorem pictureOf_ok {l : Layout Float} (hnodes : l.nodes.map (·.id) = d.nodes.map (·.id))
    (hedges : l.routes.map (·.edge) = d.edges) (hends : ∀ r ∈ l.routes, 2 ≤ r.waypoints.length) :
    ∃ w : Drawing d, ∀ s, d.pictureOf s l = .ok (w.picture s) := by
  obtain ⟨boxes, hboxes, hids, -⟩ := mapM_placeOf_ok (d.nodes.map (·.id)) fun id hid => hnodes ▸ hid
  rw [List.mapM_map] at hboxes
  have hothers : l.nodes.filter (fun p => (d.node? p.id).isNone) = [] := by
    refine List.filter_eq_nil_iff.mpr fun p hp hnone => ?_
    have hid : p.id ∈ d.nodes.map (·.id) := hnodes ▸ List.mem_map_of_mem hp
    obtain ⟨n, hn, heq⟩ := List.mem_map.mp hid
    have hmissing := List.find?_eq_none.mp (Option.isNone_iff_eq_none.mp hnone) n hn
    exact hmissing (decide_eq_true heq)
  refine ⟨⟨l.width, l.height, l.routes, boxes, hedges, hends, hids⟩, fun s => ?_⟩
  have hmarks := Except.mapM_zipWith (fun p n => Pen.nodePicture p n s) hboxes
  unfold pictureOf
  simp only [hothers, List.map_nil, List.append_nil]
  exact Except.bind_eq_ok.mpr ⟨_, hmarks, rfl⟩

theorem layout_ok (hd : d.Named) {s : Style} (hs : Style.ofHeader d.header = .ok s) {options : Value}
    {gaps : Float × Float} (hgaps : Layout.gaps options = .ok gaps) :
    ∃ l, Layout.ofDocument d options = .ok l ∧ l.nodes.map (·.id) = d.nodes.map (·.id) ∧
      l.routes.map (·.edge) = d.edges ∧ ∀ r ∈ l.routes, 2 ≤ r.waypoints.length := by
  let sizes := d.nodes.map fun n => (n.id, n.measure s.nodeText.size d.direction)
  obtain ⟨l, hl, hnodes, hedges, hends⟩ := Layout.ofSketch_ok (Sketch.ofDocument d sizes) gaps.1 gaps.2
  have hgraph : (Sketch.ofDocument d sizes).graph.nodes = d.nodes.map (·.id) := by
    refine Digraph.nodes_ofLists hd.nodup fun e he => ?_
    obtain ⟨edge, hedge, rfl⟩ := List.mem_map.mp he
    exact hd.ends edge hedge
  have hlayout : Layout.ofDocument d options = .ok l :=
    Except.bind_eq_ok.mpr ⟨s, hs, Except.bind_eq_ok.mpr ⟨gaps, hgaps, hl⟩⟩
  exact ⟨l, hlayout, hnodes.trans hgraph, hedges, hends⟩

theorem picture_ok (hd : d.Named) {s : Style} (hs : Style.ofHeader d.header = .ok s) {options : Value}
    {gaps : Float × Float} (hgaps : Layout.gaps options = .ok gaps) :
    ∃ w : Drawing d, d.picture options = .ok (w.picture s) := by
  obtain ⟨l, hl, hnodes, hedges, hends⟩ := layout_ok hd hs hgaps
  obtain ⟨w, hw⟩ := pictureOf_ok hnodes hedges hends
  exact ⟨w, Except.bind_eq_ok.mpr ⟨s, hs, Except.bind_eq_ok.mpr ⟨l, hl, hw s⟩⟩⟩

theorem settled_of_layout {options : Value} {l : Layout Float} (h : Layout.ofDocument d options = .ok l) :
    ∃ s gaps, Style.ofHeader d.header = .ok s ∧ Layout.gaps options = .ok gaps := by
  obtain ⟨s, hs, hrest⟩ := Except.bind_eq_ok.mp h
  obtain ⟨gaps, hgaps, -⟩ := Except.bind_eq_ok.mp hrest
  exact ⟨s, gaps, hs, hgaps⟩

theorem layout_spec (hd : d.Named) {options : Value} {l : Layout Float} (h : Layout.ofDocument d options = .ok l) :
    l.nodes.map (·.id) = d.nodes.map (·.id) ∧ l.routes.map (·.edge) = d.edges ∧
      ∀ r ∈ l.routes, 2 ≤ r.waypoints.length := by
  obtain ⟨s, gaps, hs, hgaps⟩ := settled_of_layout h
  obtain ⟨l', hl', hspec⟩ := layout_ok hd hs hgaps
  obtain rfl := Except.ok.inj (hl'.symm.trans h)
  exact hspec

theorem settled_of_picture {options : Value} {m : Markup} (h : d.picture options = .ok m) :
    ∃ s gaps, Style.ofHeader d.header = .ok s ∧ Layout.gaps options = .ok gaps := by
  obtain ⟨_, _, hrest⟩ := Except.bind_eq_ok.mp h
  obtain ⟨l, hl, -⟩ := Except.bind_eq_ok.mp hrest
  exact settled_of_layout hl

theorem exists_drawing (hd : d.Named) {options : Value} {m : Markup} (h : d.picture options = .ok m) :
    ∃ (w : Drawing d) (s : Style), m = w.picture s := by
  obtain ⟨s, gaps, hs, hgaps⟩ := settled_of_picture h
  obtain ⟨w, hw⟩ := picture_ok hd hs hgaps
  exact ⟨w, s, Except.ok.inj (h.symm.trans hw)⟩

section Drawn

variable {P : Text → Prop} {s : Style} (h : Pen.Allows P s) (hid : ∀ n ∈ d.nodes, P n.id)
  (hfill : ∀ n ∈ d.nodes, ∀ c, n.fill = some c → P c)

include h hid hfill

theorem Drawing.drawn_figures (w : Drawing d) : ∀ i ∈ w.figures s, Pen.Drawn P i := by
  refine List.forall_mem_append.mpr ⟨fun i hi => ?_, fun i hi => ?_⟩
  · obtain ⟨r, -, rfl⟩ := List.mem_map.mp hi
    exact Pen.drawn_edgePicture h r
  · rw [← List.map_uncurry_zip_eq_zipWith] at hi
    obtain ⟨q, hq, rfl⟩ := List.mem_map.mp hi
    have hn := (List.of_mem_zip hq).2
    exact Pen.drawn_nodePicture h q.1 q.2 (hid q.2 hn) (hfill q.2 hn)

theorem Drawing.drawn_content (w : Drawing d) : ∀ i ∈ w.content s, Pen.Drawn P i := by
  refine List.forall_mem_append.mpr ⟨?_, List.forall_mem_singleton.mpr ?_⟩
  · unfold background
    split
    · exact fun _ hi => nomatch hi
    · refine List.forall_mem_singleton.mpr (.mark (Pen.isMark_tag (by decide) (by decide) rfl ?_))
      exact Pen.values_cons (h.literal (by decide)) (Pen.values_cons (h.literal (by decide))
        (Pen.values_cons h.background Pen.values_nil))
  · exact .group rfl (Pen.values_cons (h.literal (by decide)) Pen.values_nil) (w.drawn_figures h hid hfill)

end Drawn

end Document

end Yuml
