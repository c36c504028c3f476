import Mathlib.Algebra.Order.BigOperators.Group.List
import Yuml.Proofs.Layered.LastLayer
import Yuml.Proofs.Layered.Waypoints

namespace Yuml.Layered

open Number

def Place.stretched (d : Direction) (count : Nat) (distance : Rat) (q : Place Rat) : Place Rat :=
  match d with
  | .topDown => { q with y := q.y + q.layer * distance }
  | .leftToRight => { q with x := q.x + q.layer * distance }
  | .rightToLeft => { q with x := q.x + ((count : Rat) - 1 - q.layer) * distance }

theorem Place.id_stretched (d : Direction) (count : Nat) (distance : Rat) (q : Place Rat) :
    (q.stretched d count distance).id = q.id := by
  cases d <;> rfl

namespace Plan

variable (p : Plan Rat)

def withRankGap (gap : Rat) : Plan Rat :=
  { p with rankGap := gap }

variable (gap : Rat)

theorem sameAlong_withRankGap : p.SameAlong (p.withRankGap gap) :=
  ⟨rfl, rfl⟩

theorem zipIdx_bands_withRankGap (next : Rat) (rows : List (List Text)) (k : Nat) :
    ((p.withRankGap gap).bands (next + k * (gap - p.rankGap)) rows).zipIdx k =
      ((p.bands next rows).zipIdx k).map fun b => ((b.1.1, b.1.2 + b.2 * (gap - p.rankGap)), b.2) := by
  induction rows generalizing next k with
  | nil => rfl
  | cons row rows ih =>
    have hnext : next + k * (gap - p.rankGap) + (p.rowDepth row + gap) =
        next + (p.rowDepth row + p.rankGap) + ((k + 1 : Nat) : Rat) * (gap - p.rankGap) := by
      push_cast
      ring
    have hrest := ih (next + (p.rowDepth row + p.rankGap)) (k + 1)
    rw [← hnext] at hrest
    rw [bands_cons, bands_cons, List.zipIdx_cons, List.zipIdx_cons, List.map_cons, ← hrest]
    rfl

theorem placeAt_withRankGap (low total middle start rowDepth : Rat) (count layer order : Nat) (id : Text) :
    (p.withRankGap gap).placeAt low (total + ((count : Rat) - 1) * (gap - p.rankGap)) middle
        (start + layer * (gap - p.rankGap)) rowDepth layer order id =
      (p.placeAt low total middle start rowDepth layer order id).stretched p.direction count (gap - p.rankGap) := by
  have hextent : (p.withRankGap gap).extent = p.extent := rfl
  have hdirection : (p.withRankGap gap).direction = p.direction := rfl
  have hdown (moved rest : Rat) : start + moved + rest + margin = start + rest + margin + moved := by
    ring
  have hback (n k distance rest depth : Rat) :
      total + (n - 1) * distance - (start + k * distance + rest) - depth + margin =
        total - (start + rest) - depth + margin + (n - 1 - k) * distance := by
    ring
  simp only [placeAt, hextent, hdirection]
  cases p.direction with
  | topDown =>
    exact congrArg (Place.mk id layer order _ · _ _) (hdown ..)
  | leftToRight =>
    exact congrArg (Place.mk id layer order · _ _ _) (hdown ..)
  | rightToLeft =>
    exact congrArg (Place.mk id layer order · _ _ _) (hback ..)

variable {p} {gap} {rows : List (List Text)}

theorem totalDepth_of_sized (hrank : 0 ≤ p.rankGap) (hne : rows ≠ []) (hsized : ∀ row ∈ rows, p.Sized row) :
    p.totalDepth rows = (rows.map p.rowDepth).sum + ((rows.length : Rat) - 1) * p.rankGap := by
  have hdepths : 0 ≤ (rows.map p.rowDepth).sum := by
    refine List.sum_nonneg fun depth hdepth => ?_
    obtain ⟨row, hrow, rfl⟩ := List.mem_map.mp hdepth
    exact rowDepth_nonneg (hsized row hrow)
  have hgaps : 0 ≤ ((rows.length - 1 : Nat) : Rat) * p.rankGap := mul_nonneg (Nat.cast_nonneg _) hrank
  rw [p.totalDepth_eq_sum hne, max_eq_right (add_nonneg hdepths hgaps), Nat.cast_sub (List.length_pos_iff.mpr hne),
    Nat.cast_one]

theorem totalDepth_withRankGap (hrank : 0 ≤ p.rankGap) (hgap : 0 ≤ gap) (hne : rows ≠ [])
    (hsized : ∀ row ∈ rows, p.Sized row) :
    (p.withRankGap gap).totalDepth rows = p.totalDepth rows + ((rows.length : Rat) - 1) * (gap - p.rankGap) := by
  have hdepth : (p.withRankGap gap).rowDepth = p.rowDepth := rfl
  have htotal := totalDepth_of_sized (p := p.withRankGap gap) hgap hne hsized
  rw [htotal, totalDepth_of_sized hrank hne hsized, hdepth, withRankGap]
  ring

theorem places_withRankGap (g : Digraph Text) (hrank : 0 ≤ p.rankGap) (hgap : 0 ≤ gap) (hne : rows ≠ [])
    (hsized : ∀ row ∈ rows, p.Sized row) :
    (p.withRankGap gap).places g rows =
      (p.places g rows).map (Place.stretched p.direction rows.length (gap - p.rankGap)) := by
  have hbands := p.zipIdx_bands_withRankGap gap 0 rows 0
  rw [Nat.cast_zero, zero_mul, add_zero] at hbands
  rw [places_eq, places_eq, hbands, List.flatMap_map, List.map_flatMap]
  refine List.flatMap_congr fun b _ => ?_
  rw [List.map_map]
  refine List.map_congr_left fun i _ => ?_
  have hsame := p.sameAlong_withRankGap gap
  rw [Function.comp_apply, placeIn, placeIn, ← placeAt_withRankGap, ← hsame.middles, ← hsame.lowest, ← hsame.rowDepth,
    totalDepth_withRankGap hrank hgap hne hsized]

theorem bottom_le_totalDepth {g : Digraph Text} (hd : p.direction ≠ .rightToLeft) (hrank : 0 ≤ p.rankGap)
    (hsized : ∀ row ∈ rows, p.Sized row) {q : Place Rat} (hq : q ∈ p.places g rows) :
    q.bottom p.direction ≤ p.totalDepth rows + margin := by
  obtain ⟨layer, band, order, id, hband, hid, rfl⟩ := mem_places.mp hq
  have hend := le_totalDepth hrank hsized (mem_rows_of_band hband).1
  have hwithin := (p.descent_within (List.mem_of_getElem? hid)).2
  rw [placeIn, bottom_placeAt, top_placeAt, if_neg hd]
  linarith

theorem exists_bottom_eq_totalDepth (g : Digraph Text) (hd : p.direction ≠ .rightToLeft) (hrank : 0 ≤ p.rankGap)
    (hsized : ∀ row ∈ rows, p.Sized row) {row : List Text} (hlast : rows.getLast? = some row) (hne : row ≠ []) :
    ∃ q ∈ p.places g rows, q.bottom p.direction = p.totalDepth rows + margin ∧
      (isDummy q.id = true → q.top p.direction = q.bottom p.direction) := by
  rw [← p.map_fst_bands 0 rows, List.getLast?_map] at hlast
  obtain ⟨band, hband, rfl⟩ := Option.map_eq_some_iff.mp hlast
  obtain ⟨id, hid, hdepth⟩ := exists_depth_eq_rowDepth (p := p) hne
  obtain ⟨order, horder⟩ := List.mem_iff_getElem?.mp hid
  have htotal := totalDepth_eq_last hrank hsized hband
  rw [List.getLast?_eq_getElem?] at hband
  refine ⟨_, mem_places.mpr ⟨_, band, order, id, hband, horder, rfl⟩, ?_, ?_⟩
  · rw [placeIn, bottom_placeAt, top_placeAt, if_neg hd, descent, hdepth, htotal]
    ring
  · rw [placeIn, id_placeAt, bottom_placeAt]
    intro hdummy
    rw [extent, if_pos hdummy, Scalar.decimal_zero, add_zero]

end Plan

theorem placeOf_of_mem {places : List (Place Rat)} (h : (places.map (·.id)).Nodup) {q : Place Rat} (hq : q ∈ places) :
    placeOf places q.id = .ok q := by
  obtain ⟨q', hfound, hq', hid⟩ := placeOf_ok (List.mem_map_of_mem (f := (·.id)) hq)
  rw [hfound, List.inj_on_of_nodup_map h hq' hq hid]

theorem Place.le_bottom_of_mem_loop {q : Place Rat} (hheight : 0 ≤ q.height) {c : Point Rat} (h : c ∈ q.loop) :
    c.y ≤ q.y + q.height := by
  have hfour : (4.0 : Rat) = 4 := by norm_num
  simp only [loop, cy, Scalar.decimal_two, hfour, List.mem_cons, List.not_mem_nil, or_false] at h
  rcases h with rfl | rfl | rfl | rfl
  all_goals
    dsimp only
    linarith

theorem exists_le_bottom_of_mem_waypoints {d : Direction} (hd : d = .topDown) {a : Augmented}
    {turned : List (Text × Text)} {places : List (Place Rat)} {edges : List Edge} {e : Edge} {number : Nat}
    {r : Route Rat} {c : Point Rat} (hsize : ∀ q ∈ places, 0 ≤ q.width ∧ 0 ≤ q.height)
    (h : route d a turned places edges e number = .ok r) (hc : c ∈ r.waypoints) :
    ∃ q ∈ places, c.y ≤ q.y + q.height := by
  by_cases hloop : e.tail = e.head
  · obtain ⟨q, hq, hwaypoints⟩ := loop_of_route h hloop
    have hmem := (of_placeOf hq).1
    exact ⟨q, hmem, Place.le_bottom_of_mem_loop (hsize q hmem).2 (hwaypoints ▸ hc)⟩
  · obtain ⟨q, hq, hholds⟩ := holds_of_mem_waypoints hsize h hloop hc
    subst hd
    exact ⟨q, hq, hholds.bottom⟩

theorem exists_waypoint_of_mem_chainOf {d : Direction} {a : Augmented} {turned : List (Text × Text)}
    {places : List (Place Rat)} {edges : List Edge} {e : Edge} {number : Nat} {r : Route Rat} {q : Place Rat}
    (h : route d a turned places edges e number = .ok r) (hne : e.tail ≠ e.head) (hid : q.id ∈ chainOf a turned e)
    (hq : placeOf places q.id = .ok q) : ∃ shift, q.centre.shift d shift ∈ r.waypoints := by
  obtain ⟨tail, head, dummies, -, -, hdummies, hwaypoints⟩ := line_of_route h hne
  obtain ⟨i, hi⟩ := List.mem_iff_getElem?.mp hid
  obtain ⟨q', hq', hplace⟩ := (Except.forall₂_of_mapM hdummies).exists_getElem? hi
  obtain rfl := Except.ok.inj (hq.symm.trans hplace)
  refine ⟨parallelShift (bundle edges e) number, ?_⟩
  rw [hwaypoints, lineThrough]
  exact List.mem_append_left _ (List.mem_cons_of_mem _ (List.mem_map_of_mem (List.mem_of_getElem? hq')))

theorem Sketch.exists_edge_of_mem_graph (d : Document) (sizes : List (Text × Rat × Rat)) :
    ∀ e ∈ (ofDocument d sizes).graph.edges, ∃ f ∈ (ofDocument d sizes).edges, (f.tail, f.head) = e :=
  fun _ he => List.mem_map.mp (Digraph.mem_edges_ofLists.mp he)

namespace Layout

variable {s : Sketch Rat} {a : Arrangement} {rankGap nodeGap : Rat} {l : Layout Rat}

section

variable (ha : Arrangement.ofGraph s.graph = .ok a) (hl : ofArrangement s a rankGap nodeGap = .ok l)

include ha hl

theorem centre_mem_or_bottom_mem (hd : s.direction = .topDown)
    (hdrawn : ∀ e ∈ s.graph.edges, ∃ f ∈ s.edges, (f.tail, f.head) = e) {q : Place Rat}
    (hq : q ∈ (Plan.mk s.direction s.size rankGap nodeGap).places a.augmented.graph a.rows)
    (hflat : isDummy q.id = true → q.top s.direction = q.bottom s.direction) :
    q.y + q.height ∈ l.nodes.map (fun p => p.y + p.height) ++ (l.routes.flatMap (·.waypoints)).map (·.y) := by
  obtain ⟨hextends, hperm⟩ := Arrangement.extends_of_ofGraph ha
  obtain ⟨hroutes, hnodes, -, -⟩ := of_ofArrangement hl
  have hids : (((Plan.mk s.direction s.size rankGap nodeGap).places a.augmented.graph a.rows).map (·.id)).Nodup := by
    rw [Plan.map_id_places]
    exact hperm.nodup_iff.mpr a.augmented.graph.nodes_nodup
  have hplace := placeOf_of_mem hids hq
  have hmem : q.id ∈ a.augmented.graph.nodes := by
    have := List.mem_map_of_mem (f := (·.id)) hq
    rw [Plan.map_id_places] at this
    exact hperm.mem_iff.mp this
  by_cases hnew : q.id ∈ s.graph.nodes
  · refine List.mem_append_left _ (List.mem_map.mpr ⟨q, ?_, rfl⟩)
    obtain ⟨i, hi⟩ := List.mem_iff_getElem?.mp hnew
    obtain ⟨q', hq', hplace'⟩ := (Except.forall₂_of_mapM hnodes).exists_getElem? hi
    obtain rfl := Except.ok.inj (hplace.symm.trans hplace')
    exact List.mem_of_getElem? hq'
  · obtain ⟨e, he, hne, hchain⟩ := Arrangement.exists_chainOf_of_new ha hmem hnew
    obtain ⟨f, hf, rfl⟩ := hdrawn e he
    obtain ⟨r, hr, hedge⟩ : ∃ r ∈ l.routes, r.edge = f := by
      obtain ⟨i, hi⟩ := List.mem_iff_getElem?.mp hf
      have hnumbered : (f, i) ∈ s.edges.zipIdx := List.mem_zipIdx_iff_getElem?.mpr hi
      rw [← map_routes hl] at hnumbered
      obtain ⟨r, hr, heq⟩ := List.mem_map.mp hnumbered
      exact ⟨r, hr, congrArg Prod.fst heq⟩
    obtain ⟨-, hroute⟩ := exists_edge_of_mem_routes hl hr
    rw [hedge] at hroute
    obtain ⟨shift, hwaypoint⟩ := exists_waypoint_of_mem_chainOf hroute hne (hchain f rfl) hplace
    refine List.mem_append_right _ (List.mem_map.mpr ⟨_, List.mem_flatMap.mpr ⟨r, hr, hwaypoint⟩, ?_⟩)
    have hflat := hflat ((hextends.new q.id hmem).resolve_left hnew)
    rw [hd] at hflat ⊢
    have hflat : q.y = q.y + q.height := hflat
    change q.y + q.height / 2.0 = q.y + q.height
    rw [Scalar.decimal_two]
    linarith

theorem height_eq (hd : s.direction = .topDown) (hdrawn : ∀ e ∈ s.graph.edges, ∃ f ∈ s.edges, (f.tail, f.head) = e)
    (hne : s.graph.nodes ≠ []) (hrank : 0 ≤ rankGap)
    (hsize : ∀ id ∈ s.graph.nodes, 0 ≤ (s.size id).1 ∧ 0 ≤ (s.size id).2) :
    l.height = (Plan.mk s.direction s.size rankGap nodeGap).totalDepth a.rows + margin + margin := by
  obtain ⟨hextends, hperm⟩ := Arrangement.extends_of_ofGraph ha
  obtain ⟨hroutes, hnodes, -, hheight⟩ := of_ofArrangement hl
  let p : Plan Rat := ⟨s.direction, s.size, rankGap, nodeGap⟩
  have hsized : ∀ row ∈ a.rows, p.Sized row := Plan.sized_rows hextends hperm hsize
  have hdown : p.direction ≠ .rightToLeft := by
    rw [show p.direction = .topDown from hd]
    decide
  have hbottom {q : Place Rat} (hq : q ∈ p.places a.augmented.graph a.rows) :
      q.y + q.height ≤ p.totalDepth a.rows + margin := by
    have := Plan.bottom_le_totalDepth hdown hrank hsized hq
    rwa [show p.direction = .topDown from hd] at this
  rw [hheight, reach, Scalar.largest?_eq (x := p.totalDepth a.rows + margin)]
  · obtain ⟨row, v, hlast, hv⟩ := Arrangement.exists_mem_last ha hne
    obtain ⟨q, hq, hreaches, hflat⟩ :=
      Plan.exists_bottom_eq_totalDepth a.augmented.graph hdown hrank hsized hlast (List.ne_nil_of_mem hv)
    rw [← hreaches, show p.direction = .topDown from hd]
    exact centre_mem_or_bottom_mem ha hl hd hdrawn hq hflat
  · intro y hy
    rcases List.mem_append.mp hy with hy | hy
    · obtain ⟨q, hq, rfl⟩ := List.mem_map.mp hy
      obtain ⟨id, -, hid⟩ := (Except.forall₂_of_mapM hnodes).exists_of_mem hq
      exact hbottom (of_placeOf hid).1
    · obtain ⟨c, hc, rfl⟩ := List.mem_map.mp hy
      obtain ⟨r, hr, hc⟩ := List.mem_flatMap.mp hc
      obtain ⟨-, hroute⟩ := exists_edge_of_mem_routes hl hr
      obtain ⟨q, hq, hle⟩ :=
        exists_le_bottom_of_mem_waypoints hd (fun q => Plan.size_nonneg_of_mem_places hsized) hroute hc
      exact hle.trans (hbottom hq)

end

theorem ofSketch_stretches (s : Sketch Rat) {gap gap' : Rat} (hgap : 0 ≤ gap) (hgap' : 0 ≤ gap') (nodeGap : Rat)
    (hsize : ∀ id ∈ s.graph.nodes, 0 ≤ (s.size id).1 ∧ 0 ≤ (s.size id).2) :
    ∃ a l l', Arrangement.ofGraph s.graph = .ok a ∧ (a.rows.length : Int) = a.augmented.layerCount ∧
      ofSketch s gap nodeGap = .ok l ∧ ofSketch s gap' nodeGap = .ok l' ∧
      l'.nodes = l.nodes.map (Place.stretched s.direction a.rows.length (gap' - gap)) ∧
      l'.dummies = l.dummies.map (Place.stretched s.direction a.rows.length (gap' - gap)) ∧
      (s.direction = .topDown → s.graph.nodes ≠ [] → (∀ e ∈ s.graph.edges, ∃ f ∈ s.edges, (f.tail, f.head) = e) →
        l'.height = l.height + ((a.rows.length : Rat) - 1) * (gap' - gap)) := by
  obtain ⟨a, ha, hextends, hperm, hrows⟩ := Arrangement.ofGraph_ok s.graph
  obtain ⟨l, hl, -⟩ := ofArrangement_ok hextends hperm gap nodeGap
  obtain ⟨l', hl', -⟩ := ofArrangement_ok hextends hperm gap' nodeGap
  let p : Plan Rat := ⟨s.direction, s.size, gap, nodeGap⟩
  have hsized : ∀ row ∈ a.rows, p.Sized row := Plan.sized_rows hextends hperm hsize
  have hplaces := Plan.places_withRankGap (p := p) a.augmented.graph hgap hgap' hrows hsized
  let move := Place.stretched s.direction a.rows.length (gap' - gap)
  have hid : ∀ q, (move q).id = q.id := Place.id_stretched s.direction a.rows.length (gap' - gap)
  refine ⟨a, l, l', ha, Arrangement.length_rows ha, by rw [ofSketch, ha]; exact hl, by rw [ofSketch, ha]; exact hl', ?_,
    ?_, fun hd hne hdrawn => ?_⟩
  · have hnodes := mapM_placeOf_map hid (p.places a.augmented.graph a.rows) s.graph.nodes
    rw [(of_ofArrangement hl).2.1, ← hplaces] at hnodes
    exact Except.ok.inj ((of_ofArrangement hl').2.1.symm.trans hnodes)
  · have hfilter : ((p.places a.augmented.graph a.rows).map move).filter (isDummy ·.id) = l.dummies.map move := by
      rw [List.filter_map, (drawn_ofArrangement hl).2]
      simp only [Function.comp_def, hid]
      rfl
    rw [(drawn_ofArrangement hl').2, ← hfilter, ← hplaces]
    rfl
  · have htotal := Plan.totalDepth_withRankGap (p := p) hgap hgap' hrows hsized
    rw [height_eq ha hl' hd hdrawn hne hgap' hsize, height_eq ha hl hd hdrawn hne hgap hsize]
    exact (congrArg (· + margin + margin) htotal).trans (by ring)

theorem ofSketch_stretches_cycle :
    let ends : List (String × String) := [("a", "b"), ("b", "c"), ("a", "c"), ("a", "c"), ("c", "a"), ("c", "c")]
    let edges : List Edge := ends.map fun e => { tail := e.1, head := e.2 }
    let sizes : List (Text × Rat × Rat) := [("a", 40, 20), ("b", 0, 30), ("c", 25, 10)]
    let s := Sketch.ofDocument { edges } sizes
    ∃ a l l', Arrangement.ofGraph s.graph = .ok a ∧ (a.rows.length : Int) = a.augmented.layerCount ∧
      ofSketch s 0 30 = .ok l ∧ ofSketch s 80 30 = .ok l' ∧
      l'.nodes = l.nodes.map (Place.stretched s.direction a.rows.length (80 - 0)) ∧
      l'.dummies = l.dummies.map (Place.stretched s.direction a.rows.length (80 - 0)) ∧
      l'.height = l.height + ((a.rows.length : Rat) - 1) * (80 - 0) := by
  intro ends edges sizes s
  have hgap : (0 : Rat) ≤ 0 := le_rfl
  have hgap' : (0 : Rat) ≤ 80 := by norm_num
  have hne : s.graph.nodes ≠ [] := by decide +kernel
  obtain ⟨a, l, l', ha, hlength, hl, hl', hnodes, hdummies, hheight⟩ :=
    ofSketch_stretches s hgap hgap' 30 (by decide +kernel)
  exact ⟨a, l, l', ha, hlength, hl, hl', hnodes, hdummies, hheight rfl hne (Sketch.exists_edge_of_mem_graph _ _)⟩

end Layout

end Yuml.Layered
