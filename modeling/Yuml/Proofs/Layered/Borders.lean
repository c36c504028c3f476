import Yuml.Proofs.Layered.Routes
import Yuml.Proofs.Layered.Waypoints

namespace Yuml.Layered

open Number

namespace Place

variable {d : Direction} {q : Place Rat} {shift : Rat} {c : Point Rat}

structure Borders (d : Direction) (q : Place Rat) (shift : Rat) (c : Point Rat) : Prop extends q.Holds d shift c where
  side : c.along d = q.near d + shift ∨ c.along d = q.far d + shift ∨ c.across d = q.top d ∨ c.across d = q.bottom d

theorem abs_mul_div_abs {dx half : Rat} (hdx : dx ≠ 0) (hhalf : 0 ≤ half) : |dx * (half / |dx|)| = half := by
  rw [abs_mul, abs_of_nonneg (div_nonneg hhalf (abs_nonneg dx)), mul_div_cancel₀ _ (abs_ne_zero.mpr hdx)]

theorem exit_side (hwidth : 0 ≤ q.width) (hheight : 0 ≤ q.height) {dx dy : Rat} (h : ¬(dx = 0 ∧ dy = 0)) :
    |dx * exitScale q dx dy| = q.width / 2 ∨ |dy * exitScale q dx dy| = q.height / 2 := by
  have hacross : 0 ≤ q.width / 2 := div_nonneg hwidth zero_le_two
  have hup : 0 ≤ q.height / 2 := div_nonneg hheight zero_le_two
  rw [exitScale_eq]
  by_cases hdx : dx = 0
  · rw [if_pos hdx]
    exact .inr (abs_mul_div_abs (fun hdy => h ⟨hdx, hdy⟩) hup)
  · rw [if_neg hdx]
    by_cases hdy : dy = 0
    · rw [if_pos hdy]
      exact .inl (abs_mul_div_abs hdx hacross)
    · rw [if_neg hdy]
      rcases min_choice (q.width / 2 / |dx|) (q.height / 2 / |dy|) with hmin | hmin
      · rw [hmin]
        exact .inl (abs_mul_div_abs hdx hacross)
      · rw [hmin]
        exact .inr (abs_mul_div_abs hdy hup)

theorem along_shift_centre (d : Direction) (q : Place Rat) (shift : Rat) :
    (q.centre.shift d shift).along d = (q.near d + q.far d) / 2 + shift := by
  simp only [Point.along, Point.shift, centre, cx, cy, near, far, Scalar.decimal_two]
  cases d.isHorizontal
  · simp only [Bool.false_eq_true, if_false]
    ring
  · simp only [if_true]
    ring

theorem across_shift_centre (d : Direction) (q : Place Rat) (shift : Rat) :
    (q.centre.shift d shift).across d = (q.top d + q.bottom d) / 2 := by
  simp only [Point.across, Point.shift, centre, cx, cy, top, bottom, Scalar.decimal_two]
  cases d.isHorizontal
  · simp only [Bool.false_eq_true, if_false]
    ring
  · simp only [if_true]
    ring

theorem borders_of_abs (hholds : q.Holds d shift c)
    (h : |c.x - (q.centre.shift d shift).x| = q.width / 2 ∨ |c.y - (q.centre.shift d shift).y| = q.height / 2) :
    q.Borders d shift c := by
  have hsides : |c.along d - (q.centre.shift d shift).along d| = (q.far d - q.near d) / 2 ∨
      |c.across d - (q.centre.shift d shift).across d| = (q.bottom d - q.top d) / 2 := by
    simp only [Point.along, Point.across, near, far, top, bottom]
    cases d.isHorizontal
    · simpa using h
    · simpa using h.symm
  rw [along_shift_centre, across_shift_centre] at hsides
  refine ⟨hholds, ?_⟩
  rcases hsides with halong | hacross
  · rcases eq_or_eq_neg_of_abs_eq halong with hfar | hnear
    · exact .inr (.inl (by linarith))
    · exact .inl (by linarith)
  · rcases eq_or_eq_neg_of_abs_eq hacross with hbottom | htop
    · exact .inr (.inr (.inr (by linarith)))
    · exact .inr (.inr (.inl (by linarith)))

theorem borders_clip (hwidth : 0 ≤ q.width) (hheight : 0 ≤ q.height) {r : Point Rat}
    (hne : q.centre.shift d shift ≠ r) : q.Borders d shift ((q.moveTo (q.centre.shift d shift)).clip r) := by
  have hway : ¬(r.x - (q.centre.shift d shift).x = 0 ∧ r.y - (q.centre.shift d shift).y = 0) := by
    rintro ⟨hx, hy⟩
    exact hne (congrArg₂ Point.mk (sub_eq_zero.mp hx) (sub_eq_zero.mp hy)).symm
  apply borders_of_abs (holds_clip hwidth hheight d shift r)
  rw [clip_moveTo, if_neg hway, add_sub_cancel_left, add_sub_cancel_left]
  exact exit_side hwidth hheight hway

theorem borders_of_flat (h : q.bottom d = q.top d) (hholds : q.Holds d shift c) : q.Borders d shift c :=
  ⟨hholds, .inr (.inr (.inl (le_antisymm (hholds.bottom.trans_eq h) hholds.top)))⟩

theorem borders_right (hwidth : 0 ≤ q.width) (d : Direction) {y : Rat} (htop : q.y ≤ y) (hbottom : y ≤ q.y + q.height) :
    q.Borders d 0 ⟨q.x + q.width, y⟩ := by
  cases hd : d.isHorizontal
  · refine ⟨⟨?_, ?_, ?_, ?_⟩, .inr (.inl ?_)⟩
    all_goals
      simp only [near, far, top, bottom, Point.along, Point.across, hd, Bool.false_eq_true, if_false]
      linarith
  · refine ⟨⟨?_, ?_, ?_, ?_⟩, .inr (.inr (.inr (by simp only [Point.across, bottom, hd, if_true])))⟩
    all_goals
      simp only [near, far, top, bottom, Point.along, Point.across, hd, if_true]
      linarith

theorem borders_loop (hwidth : 0 ≤ q.width) (hheight : 0 ≤ q.height) (d : Direction) :
    ∃ start finish, q.loop.head? = some start ∧ q.loop.getLast? = some finish ∧
      q.Borders d 0 start ∧ q.Borders d 0 finish := by
  have hfour : (4.0 : Rat) = 4 := by norm_num
  refine ⟨_, _, rfl, rfl, borders_right hwidth d ?_ ?_, borders_right hwidth d ?_ ?_⟩
  all_goals
    rw [cy, Scalar.decimal_two, hfour]
    linarith

end Place

namespace Plan

variable {p : Plan Rat} {g : Digraph Text} {rows : List (List Text)}

theorem span_of_mem_places {q : Place Rat} (hq : q ∈ p.places g rows) :
    q.far p.direction = q.near p.direction + (p.extent q.id).breadth ∧
      q.bottom p.direction = q.top p.direction + (p.extent q.id).depth := by
  obtain ⟨i, band, k, v, -, -, rfl⟩ := mem_places.mp hq
  simp only [placeIn, id_placeAt, bottom_placeAt, and_true]
  rw [far_placeAt, near_placeAt, ← p.half_add_half v]
  ring

theorem breadth_pos {id : Text} (h : isDummy id = true ∨ 0 < (p.size id).1 ∧ 0 < (p.size id).2) :
    0 < (p.extent id).breadth := by
  rw [extent]
  by_cases hdummy : isDummy id = true
  · rw [if_pos hdummy]
    norm_num [dummyBreadth]
  · have hsize := h.resolve_left hdummy
    rw [if_neg hdummy]
    split
    · exact hsize.2
    · exact hsize.1

section

variable (hrank : 0 < p.rankGap) (hsized : ∀ row ∈ rows, p.Sized row) {q r : Place Rat}
  (hq : q ∈ p.places g rows) (hr : r ∈ p.places g rows)

section

variable {x y : Rat} {c c' : Point Rat}

include hrank hsized hq hr

theorem not_layer_lt_of_holds (hqc : q.Holds p.direction x c) (hrc : r.Holds p.direction y c')
    (hacross : c.across p.direction = c'.across p.direction) : ¬ q.layer < r.layer := by
  intro hlt
  obtain ⟨hdown, hback⟩ := across_of_mem_places hrank.le hsized hq hr hlt
  have := hqc.top
  have := hqc.bottom
  have := hrc.top
  have := hrc.bottom
  by_cases hd : p.direction = .rightToLeft
  · have := hback hd
    linarith
  · have := hdown hd
    linarith

theorem layer_eq_of_holds (hqc : q.Holds p.direction x c) (hrc : r.Holds p.direction y c')
    (hacross : c.across p.direction = c'.across p.direction) : q.layer = r.layer :=
  Nat.le_antisymm (Nat.not_lt.mp (not_layer_lt_of_holds hrank hsized hr hq hrc hqc hacross.symm))
    (Nat.not_lt.mp (not_layer_lt_of_holds hrank hsized hq hr hqc hrc hacross))

end

variable (shift : Rat)

include hsized hq in
theorem holds_centre_of_mem_places : q.Holds p.direction shift (q.centre.shift p.direction shift) := by
  obtain ⟨hwidth, hheight⟩ := size_nonneg_of_mem_places hsized hq
  exact Place.holds_shift_centre hwidth hheight p.direction shift

include hrank hsized hq hr

theorem shift_centre_ne_of_layer_ne (hne : q.layer ≠ r.layer) :
    q.centre.shift p.direction shift ≠ r.centre.shift p.direction shift := fun heq =>
  hne (layer_eq_of_holds hrank hsized hq hr (holds_centre_of_mem_places hsized hq shift)
    (holds_centre_of_mem_places hsized hr shift) (congrArg (Point.across p.direction) heq))

theorem shift_centre_ne_of_id_ne (hrows : rows.flatten.Nodup) (hnode : 0 ≤ p.nodeGap)
    (hbreadth : ∀ id ∈ rows.flatten, 0 < (p.extent id).breadth) (hne : q.id ≠ r.id) :
    q.centre.shift p.direction shift ≠ r.centre.shift p.direction shift := by
  by_cases hlayer : q.layer = r.layer
  · intro heq
    have halong := congrArg (Point.along p.direction) heq
    rw [Place.along_shift_centre, Place.along_shift_centre] at halong
    have hspan {q : Place Rat} (hq : q ∈ p.places g rows) : q.near p.direction < q.far p.direction := by
      obtain ⟨row, hrow, hid⟩ := exists_row_of_mem_places hq
      have hpos := hbreadth q.id (List.mem_flatten_of_mem (List.mem_of_getElem? hrow) hid)
      have hspan := (span_of_mem_places hq).1
      linarith
    have hfirst := hspan hq
    have hsecond := hspan hr
    have hapart := apart_of_mem_places hrows hrank.le hnode hsized hq hr hne
    have hapart' := apart_of_mem_places hrows hrank.le hnode hsized hr hq hne.symm
    rcases Nat.lt_or_gt_of_ne (hapart.order_ne hlayer) with hlt | hlt
    · have := hapart.along hlayer hlt
      linarith
    · have := hapart'.along hlayer.symm hlt
      linarith
  · exact shift_centre_ne_of_layer_ne hrank hsized hq hr shift hlayer

end

theorem borders_start {a : Arrangement} {u v : Text} {ids : List Text} {tail head : Place Rat}
    {dummies : List (Place Rat)} (hextends : a.augmented.Extends g) (hperm : a.rows.flatten.Perm a.augmented.graph.nodes)
    (harrange : a.augmented.arrange = .ok a.rows) (hrank : 0 < p.rankGap)
    (hsize : ∀ id ∈ g.nodes, 0 < (p.size id).1 ∧ 0 < (p.size id).2) (hparts : 0 ≤ p.nodeGap ∨ a.augmented.Spans u v ids)
    (hne : u ≠ v) (hids : ∀ id ∈ ids, isDummy id = true)
    (htail : placeOf (p.places a.augmented.graph a.rows) u = .ok tail)
    (hhead : placeOf (p.places a.augmented.graph a.rows) v = .ok head)
    (hdummies : ids.mapM (placeOf (p.places a.augmented.graph a.rows)) = .ok dummies) (shift : Rat) :
    ∃ c, (lineThrough tail head (tail.centre.shift p.direction shift)
      (dummies.map fun q => q.centre.shift p.direction shift) (head.centre.shift p.direction shift)).head? = some c ∧
        tail.Borders p.direction shift c := by
  have hsized := sized_rows hextends hperm fun id hid => ⟨(hsize id hid).1.le, (hsize id hid).2.le⟩
  obtain ⟨htailMem, rfl⟩ := of_placeOf htail
  obtain ⟨hwidth, hheight⟩ := size_nonneg_of_mem_places hsized htailMem
  -- the next point is the middle of a box, of a dummy or of the head
  obtain ⟨q, hq, hid, hnext⟩ : ∃ q ∈ p.places a.augmented.graph a.rows, q.id ∈ ids ++ [v] ∧
      (dummies.map fun q => q.centre.shift p.direction shift).headD (head.centre.shift p.direction shift) =
        q.centre.shift p.direction shift := by
    cases dummies with
    | nil =>
      obtain ⟨hmem, rfl⟩ := of_placeOf hhead
      exact ⟨head, hmem, List.mem_append_right _ (List.mem_singleton_self _), rfl⟩
    | cons q qs =>
      obtain ⟨id, hid, hplace⟩ := (Except.forall₂_of_mapM hdummies).exists_of_mem List.mem_cons_self
      obtain ⟨hmem, rfl⟩ := of_placeOf hplace
      exact ⟨q, hmem, List.mem_append_left _ hid, rfl⟩
  rw [head?_lineThrough, hnext]
  refine ⟨_, rfl, ?_⟩
  rcases hparts with hnode | hspans
  · by_cases hflat : isDummy tail.id = true
    · have hdepth : (p.extent tail.id).depth = 0 := by
        rw [extent, if_pos hflat]
        exact Scalar.decimal_zero
      refine Place.borders_of_flat ?_ (Place.holds_clip hwidth hheight _ _ _)
      rw [(span_of_mem_places htailMem).2, hdepth, add_zero]
    · have hother : tail.id ≠ q.id := by
        intro heq
        rcases List.mem_append.mp hid with hid | hid
        · exact hflat (heq ▸ hids q.id hid)
        · exact hne (heq.trans (List.mem_singleton.mp hid))
      have hbreadth : ∀ id ∈ a.rows.flatten, 0 < (p.extent id).breadth := fun id hid =>
        breadth_pos ((hextends.new id (hperm.mem_iff.mp hid)).symm.imp_right (hsize id))
      have hrows : a.rows.flatten.Nodup := hperm.nodup_iff.mpr a.augmented.graph.nodes_nodup
      exact Place.borders_clip hwidth hheight
        (shift_centre_ne_of_id_ne hrank hsized htailMem hq shift hrows hnode hbreadth hother)
  · have hlayer : tail.layer ≠ q.layer := by
      intro heq
      apply hspans.layer_ne hid
      rw [layer_of_mem_places hextends.covers harrange htailMem, layer_of_mem_places hextends.covers harrange hq, heq]
    exact Place.borders_clip hwidth hheight (shift_centre_ne_of_layer_ne hrank hsized htailMem hq shift hlayer)

end Plan

def Route.shift (edges : List Edge) (r : Route Rat) : Rat :=
  if r.edge.tail = r.edge.head then 0 else parallelShift (bundle edges r.edge) r.number

theorem Route.shift_eq_zero {edges : List Edge} {r : Route Rat}
    (h : r.edge.tail = r.edge.head ∨ 2 * (bundle edges r.edge).idxOf r.number + 1 = (bundle edges r.edge).length) :
    r.shift edges = 0 := by
  rw [Route.shift]
  split
  · rfl
  · next hne =>
    rw [parallelShift_eq, ← h.resolve_left hne, Nat.add_sub_cancel]
    push_cast
    ring

def Route.Borders (l : Layout Rat) (shift : Rat) (r : Route Rat) : Prop :=
  ∃ tail head start finish, l.node? r.edge.tail = some tail ∧ l.node? r.edge.head = some head ∧
    r.waypoints.head? = some start ∧ r.waypoints.getLast? = some finish ∧
    tail.Borders l.direction shift start ∧ head.Borders l.direction shift finish

namespace Layout

theorem ofSketch_borders_moved_boxes {s : Sketch Rat} {rankGap nodeGap : Rat} (hrank : 0 < rankGap)
    (hsize : ∀ id ∈ s.graph.nodes, 0 < (s.size id).1 ∧ 0 < (s.size id).2)
    (hparts : 0 ≤ nodeGap ∨ ∀ id ∈ s.graph.nodes, isDummy id = false) :
    ∃ l, ofSketch s rankGap nodeGap = .ok l ∧ ∀ r ∈ l.routes, r.Borders l (r.shift s.edges) ∧
      (r.edge.tail = r.edge.head ∨ 2 * (bundle s.edges r.edge).idxOf r.number + 1 = (bundle s.edges r.edge).length →
        r.Borders l 0) := by
  obtain ⟨a, ha, hextends, hperm, -⟩ := Arrangement.ofGraph_ok s.graph
  obtain ⟨l, hl, -⟩ := ofArrangement_ok hextends hperm rankGap nodeGap
  obtain ⟨-, -, -, harrange, -⟩ := Arrangement.of_ofGraph ha
  refine ⟨l, by rw [ofSketch, ha]; exact hl, fun r hr => ?_⟩
  suffices hborders : r.Borders l (r.shift s.edges) from
    ⟨hborders, fun hmiddle => Route.shift_eq_zero hmiddle ▸ hborders⟩
  obtain ⟨hnumber, hroute⟩ := exists_edge_of_mem_routes hl hr
  have hedge := s.edge_mem _ (List.mem_of_getElem? hnumber)
  obtain ⟨tail, htail, htailPlace⟩ := exists_node? hextends hperm hl (Digraph.fst_mem hedge)
  obtain ⟨head, hhead, hheadPlace⟩ := exists_node? hextends hperm hl (Digraph.snd_mem hedge)
  suffices hends : ∃ start finish, r.waypoints.head? = some start ∧ r.waypoints.getLast? = some finish ∧
      tail.Borders s.direction (r.shift s.edges) start ∧ head.Borders s.direction (r.shift s.edges) finish by
    obtain ⟨start, finish, hends⟩ := hends
    rw [← (drawn_ofArrangement hl).1] at hends
    exact ⟨tail, head, start, finish, htail, hhead, hends⟩
  by_cases hloop : r.edge.tail = r.edge.head
  · obtain ⟨_, hplace, hwaypoints⟩ := loop_of_route hroute hloop
    obtain rfl := Except.ok.inj (htailPlace.symm.trans hplace)
    rw [← hloop] at hheadPlace
    obtain rfl := Except.ok.inj (htailPlace.symm.trans hheadPlace)
    have hsized : ∀ row ∈ a.rows, Plan.Sized ⟨s.direction, s.size, rankGap, nodeGap⟩ row :=
      Plan.sized_rows hextends hperm fun id hid => ⟨(hsize id hid).1.le, (hsize id hid).2.le⟩
    obtain ⟨hwidth, hheight⟩ := Plan.size_nonneg_of_mem_places hsized (of_placeOf htailPlace).1
    rw [Route.shift, if_pos hloop, hwaypoints]
    exact Place.borders_loop hwidth hheight s.direction
  · obtain ⟨_, _, dummies, htail', hhead', hdummies, hline⟩ := line_of_route hroute hloop
    obtain rfl := Except.ok.inj (htailPlace.symm.trans htail')
    obtain rfl := Except.ok.inj (hheadPlace.symm.trans hhead')
    have hspans : 0 ≤ nodeGap ∨ a.augmented.Spans r.edge.tail r.edge.head (chainOf a.augmented a.turned r.edge) :=
      hparts.imp_right fun hreal => Arrangement.spans_chainOf hreal ha hedge hloop
    have hids : ∀ id ∈ chainOf a.augmented a.turned r.edge, isDummy id = true := fun id hid =>
      (mem_chainOf hextends hid).2
    obtain ⟨start, hstart, hborders⟩ := Plan.borders_start (p := ⟨s.direction, s.size, rankGap, nodeGap⟩) hextends hperm
      harrange hrank hsize hspans hloop hids htailPlace hheadPlace hdummies (r.shift s.edges)
    -- backwards the line is that of an edge from the head to the tail
    obtain ⟨finish, hfinish, hborders'⟩ := Plan.borders_start (p := ⟨s.direction, s.size, rankGap, nodeGap⟩) hextends hperm
      harrange hrank hsize (hspans.imp_right Augmented.Spans.reverse) (Ne.symm hloop)
      (fun id hid => hids id (List.mem_reverse.mp hid)) hheadPlace htailPlace (Except.mapM_reverse hdummies)
      (r.shift s.edges)
    rw [List.map_reverse, lineThrough_reverse, List.head?_reverse] at hfinish
    rw [Route.shift, if_neg hloop] at hstart hfinish
    exact ⟨start, finish, hline ▸ hstart, hline ▸ hfinish, hborders, hborders'⟩

theorem ofSketch_borders_moved_boxes_overlapping :
    let ends : List (String × String) := [("a", "b"), ("b", "c"), ("a", "c"), ("c", "a"), ("a", "d"), ("b", "b")]
    let edges : List Edge := ends.map fun e => { tail := e.1, head := e.2 }
    let sizes : List (Text × Rat × Rat) := [("a", 40, 20), ("b", 10, 30), ("c", 25, 10), ("d", 16, 16)]
    let s := Sketch.ofDocument { direction := .leftToRight, edges } sizes
    ∃ l, ofSketch s 1 (-30) = .ok l ∧ ∀ r ∈ l.routes, r.Borders l (r.shift s.edges) ∧
      (r.edge.tail = r.edge.head ∨ 2 * (bundle s.edges r.edge).idxOf r.number + 1 = (bundle s.edges r.edge).length →
        r.Borders l 0) :=
  ofSketch_borders_moved_boxes (by norm_num) (by decide +kernel) (.inr (by decide +kernel))

theorem ofSketch_leaves_border :
    let edges : List Edge := List.replicate 3 { tail := "A1", head := "A2" }
    let sizes : List (Text × Rat × Rat) := [("A1", 16, 16), ("A2", 20, 20)]
    let s := Sketch.ofDocument { edges } sizes
    (∀ id ∈ s.graph.nodes, 0 < (s.size id).1 ∧ 0 < (s.size id).2) ∧
      ¬ ∃ l, ofSketch s 50 30 = .ok l ∧ ∀ r ∈ l.routes, r.Borders l 0 := by
  intro edges sizes s
  refine ⟨by decide +kernel, ?_⟩
  rintro ⟨l, hl, hborders⟩
  have hfirst : (ofSketch s 50 30).toOption.map (fun l => (l.direction, l.routes.head?.map fun r =>
      ((l.node? r.edge.tail).map (·.x), r.waypoints.head?.map (·.x)))) =
        some (.topDown, some (some 10, some 8)) := by
    decide +kernel
  rw [hl] at hfirst
  obtain ⟨hdirection, hfirst⟩ := Prod.mk.inj (Option.some.inj hfirst)
  obtain ⟨r, hr, hfirst⟩ := Option.map_eq_some_iff.mp hfirst
  obtain ⟨tail, head, start, finish, htail, -, hstart, -, hborder, -⟩ := hborders r (List.mem_of_mem_head? hr)
  rw [hdirection] at hborder
  rw [htail, hstart] at hfirst
  obtain ⟨hx, hstartX⟩ := Prod.mk.inj hfirst
  have hx : tail.x = 10 := Option.some.inj hx
  have hstartX : start.x = 8 := Option.some.inj hstartX
  have hnear : tail.x + 0 ≤ start.x := hborder.near
  linarith

end Layout

end Yuml.Layered
