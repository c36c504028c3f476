import Yuml.Proofs.Layered.Borders
import Yuml.Proofs.Layered.Sinking

namespace Yuml.Layered

open Number

theorem parallelShift_inj {members : List Nat} {m n : Nat} (hm : m ∈ members)
    (h : (parallelShift members m : Rat) = parallelShift members n) : m = n := by
  have hoffset : (parallelOffset : Rat) ≠ 0 := by norm_num [parallelOffset]
  have hmoved := parallelShift_add members m n
  rw [h, add_eq_left, mul_eq_zero, or_iff_right hoffset, sub_eq_zero] at hmoved
  exact (List.idxOf_inj hm).mp (Nat.cast_injective hmoved.symm)

theorem sum_along_shift (d : Direction) (distance : Rat) (line : List (Point Rat)) :
    ((line.map (Point.shift d distance)).map (Point.along d)).sum =
      (line.map (Point.along d)).sum + line.length * distance := by
  have halong (c : Point Rat) : (c.shift d distance).along d = c.along d + distance := by
    unfold Point.shift Point.along
    cases d.isHorizontal <;> rfl
  induction line with
  | nil => simp
  | cons c line ih =>
    rw [List.map_cons, List.map_cons, List.sum_cons, ih, halong, List.map_cons, List.sum_cons, List.length_cons]
    push_cast
    ring

theorem Route.Follows.eq_of_waypoints {d : Direction} {line : List (Point Rat)} {x y : Rat} {r r' : Route Rat}
    (hr : r.waypoints = line.map (Point.shift d x)) (h : r'.Follows d line y r.edge) (hends : SameEnds r.edge r'.edge)
    (hline : line ≠ []) (heq : r.waypoints = r'.waypoints) : x = y := by
  have hperm : r'.waypoints.Perm (line.map (Point.shift d y)) := by
    rcases hends with ⟨htail, hhead⟩ | ⟨htail, hhead⟩
    · rw [h.1 htail hhead]
    · rw [h.2 htail hhead]
      exact List.reverse_perm _
  rw [← heq, hr] at hperm
  have hsums := (hperm.map (Point.along d)).sum_eq
  rw [sum_along_shift, sum_along_shift, add_right_inj] at hsums
  exact mul_left_cancel₀ (Nat.cast_ne_zero.mpr (mt List.length_eq_zero_iff.mp hline)) hsums

namespace Plan

variable {p : Plan Rat} {g : Digraph Text} {rows : List (List Text)} (hrank : 0 < p.rankGap)
  (hsized : ∀ row ∈ rows, p.Sized row)

include hrank hsized

theorem nodeGap_le_of_holds (hrows : rows.flatten.Nodup) (hnode : 0 ≤ p.nodeGap) {q r : Place Rat}
    (hq : q ∈ p.places g rows) (hr : r ∈ p.places g rows) (hne : q.id ≠ r.id) {x y : Rat} {c : Point Rat}
    (hqc : q.Holds p.direction x c) (hrc : r.Holds p.direction y c) : p.nodeGap ≤ |x - y| := by
  have hlayer := layer_eq_of_holds hrank hsized hq hr hqc hrc rfl
  have hapart := apart_of_mem_places hrows hrank.le hnode hsized hq hr hne
  have hapart' := apart_of_mem_places hrows hrank.le hnode hsized hr hq hne.symm
  have := hqc.near
  have := hqc.far
  have := hrc.near
  have := hrc.far
  rcases Nat.lt_or_gt_of_ne (hapart.order_ne hlayer) with hlt | hlt
  · have := hapart.along hlayer hlt
    exact le_abs.mpr (.inl (by linarith))
  · have := hapart'.along hlayer.symm hlt
    exact le_abs.mpr (.inr (by linarith))

theorem id_eq_of_loop_eq (hrows : rows.flatten.Nodup) (hnode : 0 < p.nodeGap) {q r : Place Rat}
    (hq : q ∈ p.places g rows) (hr : r ∈ p.places g rows) (h : q.loop = r.loop) : q.id = r.id := by
  obtain ⟨hqw, hqh⟩ := size_nonneg_of_mem_places hsized hq
  obtain ⟨hrw, hrh⟩ := size_nonneg_of_mem_places hsized hr
  obtain ⟨c, -, hc, -, hqc, -⟩ := Place.borders_loop hqw hqh p.direction
  obtain ⟨c', -, hc', -, hrc, -⟩ := Place.borders_loop hrw hrh p.direction
  obtain rfl : c = c' := Option.some.inj (hc.symm.trans (h ▸ hc'))
  by_contra hne
  have hgap := nodeGap_le_of_holds hrank hsized hrows hnode.le hq hr hne hqc.toHolds hrc.toHolds
  rw [sub_self, abs_zero] at hgap
  exact absurd hnode (not_lt.mpr hgap)

theorem loop_ne_lineThrough {q tail head : Place Rat} {dummies : List (Place Rat)} {first last : Point Rat}
    {shift : Rat} (hq : q ∈ p.places g rows) (hdummies : ∀ r ∈ dummies, r ∈ p.places g rows)
    (hlayers : dummies.Pairwise fun r r' => r.layer ≠ r'.layer) :
    q.loop ≠ lineThrough tail head first (dummies.map fun r => r.centre.shift p.direction shift) last := by
  intro h
  have hlength := congrArg List.length h
  simp only [Place.loop, lineThrough, List.length_cons, List.length_append, List.length_map, List.length_nil] at hlength
  obtain ⟨r, r', rfl⟩ := List.length_eq_two.mp (show dummies.length = 2 by omega)
  obtain ⟨hr, hr'⟩ : r ∈ p.places g rows ∧ r' ∈ p.places g rows := by simpa using hdummies
  have hne : r.layer ≠ r'.layer := by simpa using hlayers
  have hheld := holds_centre_of_mem_places hsized hr shift
  have hheld' := holds_centre_of_mem_places hsized hr' shift
  simp only [Place.loop, lineThrough, List.map_cons, List.map_nil, List.cons_append, List.nil_append,
    List.cons.injEq] at h
  obtain ⟨-, hc, hc', -⟩ := h
  obtain ⟨hwidth, hheight⟩ := size_nonneg_of_mem_places hsized hq
  obtain ⟨start, finish, hstart, hfinish, hqs, hqf⟩ := Place.borders_loop hwidth hheight p.direction
  obtain rfl := Option.some.inj hstart
  obtain rfl := Option.some.inj hfinish
  cases hd : p.direction.isHorizontal with
  | true =>
    -- the two outer corners of a loop are one below the other
    refine hne (layer_eq_of_holds hrank hsized hr hr' hheld hheld' ?_)
    rw [← hc, ← hc']
    simp only [Point.across, hd, if_true]
  | false =>
    have hlayer := layer_eq_of_holds hrank hsized hr hq hheld hqs.toHolds (by
      rw [← hc]
      simp only [Point.across, hd, Bool.false_eq_true, if_false])
    have hlayer' := layer_eq_of_holds hrank hsized hr' hq hheld' hqf.toHolds (by
      rw [← hc']
      simp only [Point.across, hd, Bool.false_eq_true, if_false]
      rfl)
    exact hne (hlayer.trans hlayer'.symm)

end Plan

/-- Whether two lines, of different bundles, lead from one layer to one other, and are moved apart by the gap between
nodes at least. -/
structure Route.Crowds (l : Layout Rat) (edges : List Edge) (nodeGap : Rat) (r r' : Route Rat) : Prop where
  line : r.edge.tail ≠ r.edge.head
  line' : r'.edge.tail ≠ r'.edge.head
  ends : ¬ SameEnds r.edge r'.edge
  tails : (l.node? r.edge.tail).map (·.layer) = (l.node? r'.edge.tail).map (·.layer)
  heads : (l.node? r.edge.head).map (·.layer) = (l.node? r'.edge.head).map (·.layer)
  shifts : nodeGap ≤ |r.shift edges - r'.shift edges|

namespace Layout

theorem exists_ends {s : Sketch Rat} {a : Arrangement} {rankGap nodeGap : Rat} {l : Layout Rat}
    (hextends : a.augmented.Extends s.graph) (hperm : a.rows.flatten.Perm a.augmented.graph.nodes)
    (hsized : ∀ row ∈ a.rows, Plan.Sized ⟨s.direction, s.size, rankGap, nodeGap⟩ row)
    (hl : ofArrangement s a rankGap nodeGap = .ok l) {r : Route Rat} (hr : r ∈ l.routes)
    (hne : r.edge.tail ≠ r.edge.head) :
    let places := (Plan.mk s.direction s.size rankGap nodeGap).places a.augmented.graph a.rows
    ∃ tail head start finish, placeOf places r.edge.tail = .ok tail ∧ placeOf places r.edge.head = .ok head ∧
      l.node? r.edge.tail = some tail ∧ l.node? r.edge.head = some head ∧
      r.waypoints.head? = some start ∧ r.waypoints.getLast? = some finish ∧
      tail.Holds s.direction (r.shift s.edges) start ∧ head.Holds s.direction (r.shift s.edges) finish := by
  obtain ⟨hnumber, hroute⟩ := exists_edge_of_mem_routes hl hr
  have hedge := s.edge_mem _ (List.mem_of_getElem? hnumber)
  obtain ⟨tail, htailIn, htail⟩ := exists_node? hextends hperm hl (Digraph.fst_mem hedge)
  obtain ⟨head, hheadIn, hhead⟩ := exists_node? hextends hperm hl (Digraph.snd_mem hedge)
  obtain ⟨_, _, dummies, htail', hhead', -, hwaypoints⟩ := line_of_route hroute hne
  obtain rfl := Except.ok.inj (htail.symm.trans htail')
  obtain rfl := Except.ok.inj (hhead.symm.trans hhead')
  obtain ⟨htailWidth, htailHeight⟩ := Plan.size_nonneg_of_mem_places hsized (of_placeOf htail).1
  obtain ⟨hheadWidth, hheadHeight⟩ := Plan.size_nonneg_of_mem_places hsized (of_placeOf hhead).1
  rw [hwaypoints, Route.shift, if_neg hne]
  exact ⟨tail, head, _, _, htail, hhead, htailIn, hheadIn, head?_lineThrough .., getLast?_lineThrough ..,
    Place.holds_clip htailWidth htailHeight _ _ _, Place.holds_clip hheadWidth hheadHeight _ _ _⟩

section Pairs

variable {s : Sketch Rat} {a : Arrangement} {rankGap nodeGap : Rat} {l : Layout Rat}
  (hl : ofArrangement s a rankGap nodeGap = .ok l) {r r' : Route Rat} (hr : r ∈ l.routes) (hr' : r' ∈ l.routes)

include hl hr hr'

theorem waypoints_eq_of_loop (hloop : r.edge.tail = r.edge.head) (hends : SameEnds r.edge r'.edge) :
    r.waypoints = r'.waypoints := by
  obtain ⟨htail, hhead⟩ : r'.edge.tail = r.edge.tail ∧ r'.edge.head = r.edge.head := by
    rcases hends with hends | ⟨htail, hhead⟩
    · exact hends
    · exact ⟨htail.trans hloop.symm, hhead.trans hloop⟩
  obtain ⟨q, hq, hwaypoints⟩ := loop_of_route (exists_edge_of_mem_routes hl hr).2 hloop
  obtain ⟨q', hq', hwaypoints'⟩ :=
    loop_of_route (exists_edge_of_mem_routes hl hr').2 (htail.trans (hloop.trans hhead.symm))
  rw [htail, hq] at hq'
  obtain rfl := Except.ok.inj hq'
  exact hwaypoints.trans hwaypoints'.symm

theorem waypoints_ne_of_sameEnds (ha : Arrangement.ofGraph s.graph = .ok a) (hne : r.edge.tail ≠ r.edge.head)
    (hends : SameEnds r.edge r'.edge) (hnumber : r.number ≠ r'.number) : r.waypoints ≠ r'.waypoints := by
  obtain ⟨hedge, hroute⟩ := exists_edge_of_mem_routes hl hr
  obtain ⟨hedge', hroute'⟩ := exists_edge_of_mem_routes hl hr'
  obtain ⟨-, -, -, -, hturned⟩ := Arrangement.of_ofGraph ha
  rw [hturned] at hroute hroute'
  obtain ⟨line, hline, hfollows⟩ := exists_line_of_bundle (s.edge_mem _ (List.mem_of_getElem? hedge)) hne hroute
  have hlong : line ≠ [] := by
    rintro rfl
    obtain ⟨_, _, _, -, -, -, hwaypoints⟩ := line_of_route hroute hne
    rw [hline] at hwaypoints
    simp [lineThrough] at hwaypoints
  intro heq
  have hmoved := hfollows _ _ _ (s.edge_mem _ (List.mem_of_getElem? hedge')) hroute'
  have hshifts := hmoved.eq_of_waypoints hline hends hlong heq
  exact hnumber (parallelShift_inj (mem_bundle.mpr ⟨_, hedge, .inl ⟨rfl, rfl⟩⟩) hshifts)

variable (ha : Arrangement.ofGraph s.graph = .ok a) (hrank : 0 < rankGap) (hnode : 0 < nodeGap)
  (hsized : ∀ row ∈ a.rows, Plan.Sized ⟨s.direction, s.size, rankGap, nodeGap⟩ row)

include ha hrank hsized

theorem waypoints_ne_of_loop (hloop : r.edge.tail = r.edge.head) (hne : r'.edge.tail ≠ r'.edge.head) :
    r.waypoints ≠ r'.waypoints := by
  obtain ⟨hextends, -⟩ := Arrangement.extends_of_ofGraph ha
  obtain ⟨-, -, -, harrange, -⟩ := Arrangement.of_ofGraph ha
  obtain ⟨q, hq, hwaypoints⟩ := loop_of_route (exists_edge_of_mem_routes hl hr).2 hloop
  obtain ⟨_, _, dummies, -, -, hdummies, hwaypoints'⟩ := line_of_route (exists_edge_of_mem_routes hl hr').2 hne
  obtain ⟨hids, hmem⟩ := of_mapM_placeOf hdummies
  have hlayers : dummies.Pairwise fun q q' => q.layer ≠ q'.layer := by
    have hchain := Arrangement.pairwise_layer_chainOf ha r'.edge
    rw [← hids, List.pairwise_map] at hchain
    refine hchain.imp_of_mem fun {q q'} hq hq' hlayer heq => hlayer ?_
    rw [Plan.layer_of_mem_places hextends.covers harrange (hmem q hq),
      Plan.layer_of_mem_places hextends.covers harrange (hmem q' hq'), heq]
  rw [hwaypoints, hwaypoints']
  exact Plan.loop_ne_lineThrough hrank hsized (of_placeOf hq).1 hmem hlayers

include hnode

theorem sameEnds_of_loops (hloop : r.edge.tail = r.edge.head) (hloop' : r'.edge.tail = r'.edge.head)
    (h : r.waypoints = r'.waypoints) : SameEnds r.edge r'.edge := by
  obtain ⟨-, hperm⟩ := Arrangement.extends_of_ofGraph ha
  have hrows : a.rows.flatten.Nodup := hperm.nodup_iff.mpr a.augmented.graph.nodes_nodup
  obtain ⟨q, hq, hwaypoints⟩ := loop_of_route (exists_edge_of_mem_routes hl hr).2 hloop
  obtain ⟨q', hq', hwaypoints'⟩ := loop_of_route (exists_edge_of_mem_routes hl hr').2 hloop'
  obtain ⟨hmem, hid⟩ := of_placeOf hq
  obtain ⟨hmem', hid'⟩ := of_placeOf hq'
  have hids := Plan.id_eq_of_loop_eq hrank hsized hrows hnode hmem hmem' (hwaypoints ▸ hwaypoints' ▸ h)
  have htail : r'.edge.tail = r.edge.tail := by rw [← hid', ← hids, hid]
  exact .inl ⟨htail, hloop'.symm.trans (htail.trans hloop)⟩

theorem crowds_of_waypoints_eq (hne : r.edge.tail ≠ r.edge.head) (hne' : r'.edge.tail ≠ r'.edge.head)
    (hends : ¬ SameEnds r.edge r'.edge) (h : r.waypoints = r'.waypoints) : r.Crowds l s.edges nodeGap r' := by
  obtain ⟨hextends, hperm⟩ := Arrangement.extends_of_ofGraph ha
  have hrows : a.rows.flatten.Nodup := hperm.nodup_iff.mpr a.augmented.graph.nodes_nodup
  obtain ⟨tail, head, start, finish, htail, hhead, htailIn, hheadIn, hstart, hfinish, hstartIn, hfinishIn⟩ :=
    exists_ends hextends hperm hsized hl hr hne
  obtain ⟨tail', head', start', finish', htail', hhead', htailIn', hheadIn', hstart', hfinish', hstartIn',
    hfinishIn'⟩ := exists_ends hextends hperm hsized hl hr' hne'
  obtain rfl := Option.some.inj (hstart.symm.trans (h ▸ hstart'))
  obtain rfl := Option.some.inj (hfinish.symm.trans (h ▸ hfinish'))
  obtain ⟨htailMem, htailId⟩ := of_placeOf htail
  obtain ⟨htailMem', htailId'⟩ := of_placeOf htail'
  obtain ⟨hheadMem, hheadId⟩ := of_placeOf hhead
  obtain ⟨hheadMem', hheadId'⟩ := of_placeOf hhead'
  refine ⟨hne, hne', hends, ?_, ?_, ?_⟩
  · rw [htailIn, htailIn', Option.map_some, Option.map_some,
      Plan.layer_eq_of_holds hrank hsized htailMem htailMem' hstartIn hstartIn' rfl]
  · rw [hheadIn, hheadIn', Option.map_some, Option.map_some,
      Plan.layer_eq_of_holds hrank hsized hheadMem hheadMem' hfinishIn hfinishIn' rfl]
  -- edges of different bundles differ in their tails or in their heads
  · by_cases htails : tail.id = tail'.id
    · have hheads : head.id ≠ head'.id := fun hheads => hends (.inl
        ⟨htailId'.symm.trans (htails.symm.trans htailId), hheadId'.symm.trans (hheads.symm.trans hheadId)⟩)
      exact Plan.nodeGap_le_of_holds hrank hsized hrows hnode.le hheadMem hheadMem' hheads hfinishIn hfinishIn'
    · exact Plan.nodeGap_le_of_holds hrank hsized hrows hnode.le htailMem htailMem' htails hstartIn hstartIn'

end Pairs

theorem ofSketch_overlaps {s : Sketch Rat} {rankGap nodeGap : Rat} (hrank : 0 < rankGap) (hnode : 0 < nodeGap)
    (hsize : ∀ id ∈ s.graph.nodes, 0 ≤ (s.size id).1 ∧ 0 ≤ (s.size id).2) :
    ∃ l, ofSketch s rankGap nodeGap = .ok l ∧ ∀ r ∈ l.routes, ∀ r' ∈ l.routes, r.number ≠ r'.number →
      (r.edge.tail = r.edge.head → SameEnds r.edge r'.edge → r.waypoints = r'.waypoints) ∧
        (r.waypoints = r'.waypoints →
          r.edge.tail = r.edge.head ∧ SameEnds r.edge r'.edge ∨ r.Crowds l s.edges nodeGap r') := by
  obtain ⟨a, ha, hextends, hperm, -⟩ := Arrangement.ofGraph_ok s.graph
  have hsized : ∀ row ∈ a.rows, Plan.Sized ⟨s.direction, s.size, rankGap, nodeGap⟩ row :=
    Plan.sized_rows hextends hperm hsize
  obtain ⟨l, hl, -⟩ := ofArrangement_ok hextends hperm rankGap nodeGap
  refine ⟨l, by rw [ofSketch, ha]; exact hl, fun r hr r' hr' hnumber => ?_⟩
  refine ⟨waypoints_eq_of_loop hl hr hr', fun heq => ?_⟩
  by_cases hloop : r.edge.tail = r.edge.head
  · by_cases hloop' : r'.edge.tail = r'.edge.head
    · exact .inl ⟨hloop, sameEnds_of_loops hl hr hr' ha hrank hnode hsized hloop hloop' heq⟩
    · exact absurd heq (waypoints_ne_of_loop hl hr hr' ha hrank hsized hloop hloop')
  · by_cases hloop' : r'.edge.tail = r'.edge.head
    · exact absurd heq.symm (waypoints_ne_of_loop hl hr' hr ha hrank hsized hloop' hloop)
    · have hends : ¬ SameEnds r.edge r'.edge := fun hends =>
        waypoints_ne_of_sameEnds hl hr hr' ha hloop hends hnumber heq
      exact .inr (crowds_of_waypoints_eq hl hr hr' ha hrank hnode hsized hloop hloop' hends heq)

theorem ofSketch_overlaps_loops :
    let ends : List (String × String) := [("a", "a"), ("b", "a"), ("a", "b"), ("b", "b"), ("c", "d"), ("c", "d")]
    let edges : List Edge := ends.map fun e => { tail := e.1, head := e.2 }
    let sizes : List (Text × Rat × Rat) := [("a", 40, 20), ("b", 16, 16), ("c", 20, 10), ("d", 20, 10)]
    let s := Sketch.ofDocument { direction := .leftToRight, edges } sizes
    ∃ l, ofSketch s 50 30 = .ok l ∧ ∀ r ∈ l.routes, ∀ r' ∈ l.routes, r.number ≠ r'.number →
      (r.edge.tail = r.edge.head → SameEnds r.edge r'.edge → r.waypoints = r'.waypoints) ∧
        (r.waypoints = r'.waypoints →
          r.edge.tail = r.edge.head ∧ SameEnds r.edge r'.edge ∨ r.Crowds l s.edges 30 r') :=
  ofSketch_overlaps (by norm_num) (by norm_num) (by decide +kernel)

theorem ofSketch_draws_loops_as_one :
    let edges : List Edge := List.replicate 2 { tail := "a", head := "a" }
    let sizes : List (Text × Rat × Rat) := [("a", 20, 20)]
    let s := Sketch.ofDocument { edges } sizes
    (∀ id ∈ s.graph.nodes, 0 < (s.size id).1 ∧ 0 < (s.size id).2) ∧
      ¬ ∃ l, ofSketch s 50 30 = .ok l ∧ ∀ r ∈ l.routes, ∀ r' ∈ l.routes, r.number ≠ r'.number →
        r.waypoints ≠ r'.waypoints := by
  intro edges sizes s
  refine ⟨by decide +kernel, ?_⟩
  rintro ⟨l, hl, hapart⟩
  have hdrawn : (ofSketch s 50 30).toOption.map (fun l => l.routes.map fun r =>
      (r.number, r.waypoints.map fun c => (c.x, c.y))) =
        some [(0, [(28, 13), (46, 13), (46, 23), (28, 23)]), (1, [(28, 13), (46, 13), (46, 23), (28, 23)])] := by
    decide +kernel
  rw [hl] at hdrawn
  obtain ⟨r, rest, hroutes, hr, hrest⟩ := List.map_eq_cons_iff.mp (Option.some.inj hdrawn)
  obtain ⟨r', rest', rfl, hr', -⟩ := List.map_eq_cons_iff.mp hrest
  obtain ⟨hnumber, hwaypoints⟩ := Prod.mk.inj hr
  obtain ⟨hnumber', hwaypoints'⟩ := Prod.mk.inj hr'
  have hcoordinates : Function.Injective fun c : Point Rat => (c.x, c.y) := fun c c' heq =>
    congrArg₂ Point.mk (Prod.mk.inj heq).1 (Prod.mk.inj heq).2
  refine hapart r (hroutes ▸ List.mem_cons_self) r' (hroutes ▸ List.mem_cons_of_mem _ List.mem_cons_self) ?_ ?_
  · rw [hnumber, hnumber']
    decide
  · exact List.map_injective_iff.mpr hcoordinates (hwaypoints.trans hwaypoints'.symm)

example :
    let edges : List Edge := List.replicate 11 { tail := "a", head := "b" } ++ [{ tail := "c", head := "d" }]
    let sizes : List (Text × Rat × Rat) := [("a", 20, 20), ("b", 20, 20), ("c", 20, 20), ("d", 20, 20)]
    (ofSketch (Sketch.ofDocument { edges } sizes) 50 30).toOption.map (fun l =>
      (l.routes.drop 10).map fun r => r.waypoints.map fun c => (c.x, c.y)) =
        some [[(68, 28), (68, 78)], [(68, 28), (68, 78)]] := by
  decide +kernel

end Layout

end Yuml.Layered
