import Yuml.Layered.Layout
import Yuml.Proofs.Graph.CycleRemoval
import Yuml.Proofs.Layered.Crossings
import Yuml.Proofs.Layered.Placement

namespace Yuml.Layered

open Number

theorem Augmented.Extends.of_nodes_eq {a : Augmented} {g g' : Digraph Text} (h : a.Extends g)
    (heq : g.nodes = g'.nodes) : a.Extends g' where
  keeps := heq ▸ h.keeps
  new := heq ▸ h.new
  covers := h.covers
  chain_mem := h.chain_mem

theorem Arrangement.ofGraph_ok (g : Digraph Text) :
    ∃ a, Arrangement.ofGraph g = .ok a ∧ a.augmented.Extends g ∧
      a.rows.flatten.Perm a.augmented.graph.nodes ∧ a.rows ≠ [] := by
  obtain ⟨layers, hlayers, hcovers⟩ := assignLayers_ok g.acyclic_removeCycles
  obtain ⟨augmented, haugmented, hextends⟩ := insertDummies_ok hcovers
  have hlayered := Augmented.isLayered_of_covers hextends.covers
  obtain ⟨rows, hrows, hsame⟩ := Augmented.arrange_ok hlayered
  refine ⟨⟨augmented, g.removeCycles.turned, rows⟩, ?_, ?_, ?_, ?_⟩
  · simp only [ofGraph, hlayers, haugmented, hrows, bind, Except.bind, pure, Except.pure]
  · exact hextends.of_nodes_eq g.nodes_removeCycles
  · exact hsame.flatten.symm.trans (Augmented.flatten_layerNodes_perm hlayered)
  · have hcount : 0 < augmented.layerCount := hextends.covers.count_pos
    have hlength := Augmented.length_arrange hextends.covers hrows
    have hpos : 0 < rows.length := by omega
    exact List.ne_nil_of_length_pos hpos

theorem Arrangement.extends_of_ofGraph {g : Digraph Text} {a : Arrangement} (h : Arrangement.ofGraph g = .ok a) :
    a.augmented.Extends g ∧ a.rows.flatten.Perm a.augmented.graph.nodes := by
  obtain ⟨a', ha', hextends, hperm, -⟩ := Arrangement.ofGraph_ok g
  obtain rfl := Except.ok.inj (h.symm.trans ha')
  exact ⟨hextends, hperm⟩

theorem placeOf_ok {α : Type} {places : List (Place α)} {id : Text} (h : id ∈ places.map (·.id)) :
    ∃ q, placeOf places id = .ok q ∧ q ∈ places ∧ q.id = id := by
  obtain ⟨q, hq, hid, hfound⟩ := List.exists_find?_key (fun _ => beq_iff_eq) h
  exact ⟨q, by rw [placeOf, hfound], hq, hid⟩

theorem of_placeOf {α : Type} {places : List (Place α)} {id : Text} {q : Place α} (h : placeOf places id = .ok q) :
    q ∈ places ∧ q.id = id := by
  rw [placeOf] at h
  split at h
  · next hfound =>
    obtain rfl := Except.ok.inj h
    exact ⟨List.mem_of_find?_eq_some hfound, by simpa using List.find?_some hfound⟩
  · cases h

theorem of_mapM_placeOf {α : Type} {places : List (Place α)} {ids : List Text} {qs : List (Place α)}
    (h : ids.mapM (placeOf places) = .ok qs) : qs.map (·.id) = ids ∧ ∀ q ∈ qs, q ∈ places := by
  have hforall := Except.forall₂_of_mapM h
  clear h
  induction hforall with
  | nil => exact ⟨rfl, fun q hq => nomatch hq⟩
  | cons hfirst _ ih =>
    obtain ⟨hmem, hid⟩ := of_placeOf hfirst
    exact ⟨by rw [List.map_cons, hid, ih.1], List.forall_mem_cons.mpr ⟨hmem, ih.2⟩⟩

theorem mapM_placeOf_ok {α : Type} {places : List (Place α)} (ids : List Text)
    (h : ∀ id ∈ ids, id ∈ places.map (·.id)) :
    ∃ qs, ids.mapM (placeOf places) = .ok qs ∧ qs.map (·.id) = ids ∧ ∀ q ∈ qs, q ∈ places := by
  obtain ⟨qs, hqs, -⟩ := Except.mapM_ok ids fun id hid => placeOf_ok (h id hid)
  exact ⟨qs, hqs, of_mapM_placeOf hqs⟩

theorem mem_chainOf {a : Augmented} {g : Digraph Text} (h : a.Extends g)
    {turned : List (Text × Text)} {e : Edge} {id : Text} (hid : id ∈ chainOf a turned e) :
    id ∈ a.graph.nodes ∧ isDummy id = true := by
  rw [chainOf] at hid
  split at hid
  · exact Augmented.mem_chain h (List.mem_reverse.mp hid)
  · exact Augmented.mem_chain h hid

section Routes

variable {α : Type} [Scalar α] {a : Augmented} {g : Digraph Text} {places : List (Place α)}
  {edges : List Edge}

section

variable {d : Direction} {turned : List (Text × Text)} {e : Edge} {number : Nat} {r : Route α}
  (h : route d a turned places edges e number = .ok r)

include h

theorem edge_of_route : r.edge = e ∧ r.number = number := by
  obtain ⟨tail, -, h⟩ := Except.bind_eq_ok.mp h
  split at h
  · obtain rfl := Except.ok.inj h
    exact ⟨rfl, rfl⟩
  · obtain ⟨head, -, h⟩ := Except.bind_eq_ok.mp h
    obtain ⟨dummies, -, h⟩ := Except.bind_eq_ok.mp h
    obtain rfl := Except.ok.inj h
    exact ⟨rfl, rfl⟩

theorem loop_of_route (hloop : e.tail = e.head) : ∃ tail, placeOf places e.tail = .ok tail ∧ r.waypoints = tail.loop := by
  obtain ⟨tail, htail, h⟩ := Except.bind_eq_ok.mp h
  rw [if_pos hloop] at h
  obtain rfl := Except.ok.inj h
  exact ⟨tail, htail, rfl⟩

theorem line_of_route (hne : e.tail ≠ e.head) :
    ∃ tail head dummies, placeOf places e.tail = .ok tail ∧ placeOf places e.head = .ok head ∧
      (chainOf a turned e).mapM (placeOf places) = .ok dummies ∧
      let shift : α := parallelShift (bundle edges e) number
      r.waypoints = lineThrough tail head (tail.centre.shift d shift) (dummies.map fun q => q.centre.shift d shift)
        (head.centre.shift d shift) := by
  obtain ⟨tail, htail, h⟩ := Except.bind_eq_ok.mp h
  rw [if_neg hne] at h
  obtain ⟨head, hhead, h⟩ := Except.bind_eq_ok.mp h
  obtain ⟨dummies, hdummies, h⟩ := Except.bind_eq_ok.mp h
  obtain rfl := Except.ok.inj h
  exact ⟨tail, head, dummies, htail, hhead, hdummies, rfl⟩

end

theorem route_ok (h : a.Extends g) (hplaces : ∀ id ∈ a.graph.nodes, id ∈ places.map (·.id))
    (d : Direction) (turned : List (Text × Text)) (edges : List Edge) {e : Edge}
    (he : (e.tail, e.head) ∈ g.edges) (number : Nat) :
    ∃ r, route d a turned places edges e number = .ok r ∧ r.edge = e ∧ 2 ≤ r.waypoints.length := by
  obtain ⟨tail, htail, -⟩ := placeOf_ok (hplaces e.tail (h.keeps e.tail (Digraph.fst_mem he)))
  obtain ⟨head, hhead, -⟩ := placeOf_ok (hplaces e.head (h.keeps e.head (Digraph.snd_mem he)))
  obtain ⟨dummies, hdummies, -⟩ := mapM_placeOf_ok (chainOf a turned e)
    fun id hid => hplaces id (mem_chainOf h hid).1
  by_cases hloop : e.tail = e.head
  · simp only [route, htail, if_pos hloop, bind, Except.bind]
    exact ⟨_, rfl, rfl, by simp [Place.loop]⟩
  · simp only [route, htail, hhead, hdummies, if_neg hloop, bind, Except.bind]
    exact ⟨_, rfl, rfl, by simp [lineThrough]⟩

theorem routeAll_ok (h : a.Extends g) (hplaces : ∀ id ∈ a.graph.nodes, id ∈ places.map (·.id))
    (d : Direction) (turned : List (Text × Text)) (hedges : ∀ e ∈ edges, (e.tail, e.head) ∈ g.edges) :
    ∃ routes, routeAll d a turned places edges = .ok routes ∧ routes.map (·.edge) = edges ∧
      ∀ r ∈ routes, 2 ≤ r.waypoints.length := by
  obtain ⟨routes, hroutes, hforall⟩ := Except.mapM_ok edges.zipIdx
    (f := fun e : Edge × Nat => route d a turned places edges e.1 e.2)
    (R := fun e r => r.edge = e.1 ∧ 2 ≤ r.waypoints.length) fun e he =>
      route_ok h hplaces d turned edges (hedges e.1 (List.fst_mem_of_mem_zipIdx he)) e.2
  have hedge : List.Forall₂ (fun r e => r = e) (routes.map (·.edge)) (edges.zipIdx.map (·.1)) :=
    List.forall₂_map_left_iff.mpr (List.forall₂_map_right_iff.mpr (hforall.flip.imp fun _ _ hr => hr.1))
  refine ⟨routes, hroutes, ?_, fun r hr => ?_⟩
  · rw [List.forall₂_eq_eq_eq] at hedge
    rw [hedge, List.zipIdx_map_fst]
  · obtain ⟨e, -, hr⟩ := hforall.exists_of_mem hr
    exact hr.2

end Routes

theorem Plan.mem_ids_places {α : Type} [Scalar α] (p : Plan α) {a : Arrangement}
    (hperm : a.rows.flatten.Perm a.augmented.graph.nodes) :
    ∀ id ∈ a.augmented.graph.nodes, id ∈ (p.places a.augmented.graph a.rows).map (·.id) := by
  intro id hid
  rw [map_id_places]
  exact hperm.mem_iff.mpr hid

theorem Plan.sized_of_extends {p : Plan Rat} {a : Augmented} {g : Digraph Text} (h : a.Extends g)
    (hsize : ∀ id ∈ g.nodes, 0 ≤ (p.size id).1 ∧ 0 ≤ (p.size id).2) {row : List Text}
    (hrow : ∀ id ∈ row, id ∈ a.graph.nodes) : p.Sized row := by
  intro id hid
  apply p.extent_nonneg
  rcases h.new id (hrow id hid) with hnode | hdummy
  · exact .inr (hsize id hnode)
  · exact .inl hdummy

theorem Plan.sized_rows {p : Plan Rat} {a : Arrangement} {g : Digraph Text} (hextends : a.augmented.Extends g)
    (hperm : a.rows.flatten.Perm a.augmented.graph.nodes)
    (hsize : ∀ id ∈ g.nodes, 0 ≤ (p.size id).1 ∧ 0 ≤ (p.size id).2) : ∀ row ∈ a.rows, p.Sized row :=
  fun _ hrow => sized_of_extends hextends hsize fun _ hid => hperm.mem_iff.mp (List.mem_flatten_of_mem hrow hid)

namespace Layout

section AnyScalar

variable {α : Type} [Scalar α] {s : Sketch α} {a : Arrangement}

theorem ofArrangement_ok (hextends : a.augmented.Extends s.graph)
    (hperm : a.rows.flatten.Perm a.augmented.graph.nodes) (rankGap nodeGap : α) :
    ∃ l, ofArrangement s a rankGap nodeGap = .ok l ∧ l.nodes.map (·.id) = s.graph.nodes ∧
      l.routes.map (·.edge) = s.edges ∧ ∀ r ∈ l.routes, 2 ≤ r.waypoints.length := by
  have hplaces := Plan.mem_ids_places ⟨s.direction, s.size, rankGap, nodeGap⟩ hperm
  obtain ⟨routes, hroutes, hedges, hwaypoints⟩ :=
    routeAll_ok hextends hplaces s.direction a.turned s.edge_mem
  obtain ⟨nodes, hnodes, hids, -⟩ := mapM_placeOf_ok s.graph.nodes fun id hid =>
    hplaces id (hextends.keeps id hid)
  exact ⟨_, Except.bind_eq_ok.mpr ⟨routes, hroutes, Except.bind_eq_ok.mpr ⟨nodes, hnodes, rfl⟩⟩,
    hids, hedges, hwaypoints⟩

theorem of_ofArrangement {rankGap nodeGap : α} {l : Layout α}
    (h : ofArrangement s a rankGap nodeGap = .ok l) :
    let places := (Plan.mk s.direction s.size rankGap nodeGap).places a.augmented.graph a.rows
    routeAll s.direction a.augmented a.turned places s.edges = .ok l.routes ∧
      s.graph.nodes.mapM (placeOf places) = .ok l.nodes ∧
      l.width = reach (l.nodes.map (fun p => p.x + p.width) ++ (l.routes.flatMap (·.waypoints)).map (·.x)) ∧
      l.height = reach (l.nodes.map (fun p => p.y + p.height) ++ (l.routes.flatMap (·.waypoints)).map (·.y)) := by
  obtain ⟨routes, hroutes, h⟩ := Except.bind_eq_ok.mp h
  obtain ⟨nodes, hnodes, h⟩ := Except.bind_eq_ok.mp h
  obtain rfl := Except.ok.inj h
  exact ⟨hroutes, hnodes, rfl, rfl⟩

theorem ofSketch_ok (s : Sketch α) (rankGap nodeGap : α) :
    ∃ l, ofSketch s rankGap nodeGap = .ok l ∧ l.nodes.map (·.id) = s.graph.nodes ∧
      l.routes.map (·.edge) = s.edges ∧ ∀ r ∈ l.routes, 2 ≤ r.waypoints.length := by
  obtain ⟨a, ha, hextends, hperm, -⟩ := Arrangement.ofGraph_ok s.graph
  rw [ofSketch, ha]
  exact ofArrangement_ok hextends hperm rankGap nodeGap

end AnyScalar

theorem add_margin_le_reach {xs : List Rat} {x : Rat} (h : x ∈ xs) : x + margin ≤ reach xs :=
  add_le_add_left (Scalar.le_largest? h) margin

/-- What is promised of a layout: every node of the sketch has one box, of its own size; no two boxes,
of nodes or dummies, come nearer than the gaps; and all boxes keep the margin, those of nodes on every
side. -/
structure Fits (l : Layout Rat) (s : Sketch Rat) (rankGap nodeGap : Rat) : Prop where
  ids : l.nodes.map (·.id) = s.graph.nodes
  nodup : ((l.nodes ++ l.dummies).map (·.id)).Nodup
  size : ∀ q ∈ l.nodes, (q.width, q.height) = s.size q.id
  apart : ∀ q ∈ l.nodes ++ l.dummies, ∀ r ∈ l.nodes ++ l.dummies, q.id ≠ r.id →
    q.Apart s.direction rankGap nodeGap r
  starts : ∀ q ∈ l.nodes ++ l.dummies, margin ≤ q.x ∧ margin ≤ q.y
  ends : ∀ q ∈ l.nodes, q.x + q.width + margin ≤ l.width ∧ q.y + q.height + margin ≤ l.height

theorem ofArrangement_fits {s : Sketch Rat} {a : Arrangement} {rankGap nodeGap : Rat}
    (hextends : a.augmented.Extends s.graph) (hperm : a.rows.flatten.Perm a.augmented.graph.nodes)
    (hrank : 0 ≤ rankGap) (hnode : 0 ≤ nodeGap) (hreal : ∀ id ∈ s.graph.nodes, isDummy id = false)
    (hsize : ∀ id ∈ s.graph.nodes, 0 ≤ (s.size id).1 ∧ 0 ≤ (s.size id).2) :
    ∃ l, ofArrangement s a rankGap nodeGap = .ok l ∧ l.Fits s rankGap nodeGap := by
  let p : Plan Rat := ⟨s.direction, s.size, rankGap, nodeGap⟩
  let places := p.places a.augmented.graph a.rows
  have hrows : a.rows.flatten.Nodup := hperm.nodup_iff.mpr a.augmented.graph.nodes_nodup
  have hsized : ∀ row ∈ a.rows, p.Sized row := Plan.sized_rows hextends hperm hsize
  have hplaces := p.mem_ids_places hperm
  obtain ⟨routes, hroutes, -⟩ := routeAll_ok hextends hplaces s.direction a.turned s.edge_mem
  obtain ⟨nodes, hnodes, hids, hmem⟩ := mapM_placeOf_ok s.graph.nodes fun id hid =>
    hplaces id (hextends.keeps id hid)
  have hnodeReal : ∀ q ∈ nodes, isDummy q.id = false := fun q hq =>
    hreal q.id (hids ▸ List.mem_map_of_mem hq)
  have hdummy : ∀ q ∈ places.filter (isDummy ·.id), q ∈ places ∧ isDummy q.id = true := fun q hq =>
    List.mem_filter.mp hq
  have hall : ∀ q ∈ nodes ++ places.filter (isDummy ·.id), q ∈ places := fun q hq =>
    (List.mem_append.mp hq).elim (hmem q) fun hq => (hdummy q hq).1
  refine ⟨_, Except.bind_eq_ok.mpr ⟨routes, hroutes, Except.bind_eq_ok.mpr ⟨nodes, hnodes, rfl⟩⟩,
    hids, ?_, ?_, ?_, ?_, ?_⟩
  · rw [List.map_append, hids]
    refine s.graph.nodes_nodup.append ?_ fun id hid hid' => ?_
    · have hplacesNodup : (places.map (·.id)).Nodup := by rwa [Plan.map_id_places]
      exact hplacesNodup.sublist (List.filter_sublist.map _)
    · obtain ⟨q, hq, rfl⟩ := List.mem_map.mp hid'
      exact Bool.false_ne_true ((hreal q.id hid).symm.trans (hdummy q hq).2)
  · exact fun q hq => Plan.size_of_mem_places (hmem q hq) (hnodeReal q hq)
  · exact fun q hq r hr hne => Plan.apart_of_mem_places hrows hrank hnode hsized (hall q hq) (hall r hr) hne
  · exact fun q hq => Plan.margin_le_of_mem_places hrank hsized (hall q hq)
  · intro q hq
    exact ⟨add_margin_le_reach (List.mem_append_left _ (List.mem_map_of_mem hq)),
      add_margin_le_reach (List.mem_append_left _ (List.mem_map_of_mem hq))⟩

theorem ofSketch_fits {s : Sketch Rat} {rankGap nodeGap : Rat} (hrank : 0 ≤ rankGap)
    (hnode : 0 ≤ nodeGap) (hreal : ∀ id ∈ s.graph.nodes, isDummy id = false)
    (hsize : ∀ id ∈ s.graph.nodes, 0 ≤ (s.size id).1 ∧ 0 ≤ (s.size id).2) :
    ∃ l, ofSketch s rankGap nodeGap = .ok l ∧ l.Fits s rankGap nodeGap := by
  obtain ⟨a, ha, hextends, hperm, -⟩ := Arrangement.ofGraph_ok s.graph
  rw [ofSketch, ha]
  exact ofArrangement_fits hextends hperm hrank hnode hreal hsize

theorem ofSketch_fits_cycle :
    let ends : List (String × String) := [("a", "b"), ("b", "c"), ("c", "a"), ("b", "b")]
    let edges : List Edge := ends.map fun e => { tail := e.1, head := e.2 }
    let sizes : List (Text × Rat × Rat) := [("a", 40, 20), ("b", 0, 30), ("c", 25, 10)]
    let s := Sketch.ofDocument { direction := .rightToLeft, edges } sizes
    ∃ l, ofSketch s 50 0 = .ok l ∧ l.Fits s 50 0 :=
  ofSketch_fits (by norm_num) (by norm_num) (by decide +kernel) (by decide +kernel)

end Layout

end Yuml.Layered
