import Yuml.Proofs.Layered.Flow
import Yuml.Proofs.Layered.Symmetry

namespace Yuml.Layered

open Number

namespace Point

variable (d : Direction) (c : Point Rat)

def along : Rat :=
  if d.isHorizontal then c.y else c.x

def across : Rat :=
  if d.isHorizontal then c.x else c.y

theorem nonneg {d : Direction} {c : Point Rat} (hacross : 0 ≤ c.across d) (halong : 0 ≤ c.along d) :
    0 ≤ c.x ∧ 0 ≤ c.y := by
  unfold across at hacross
  unfold along at halong
  cases h : d.isHorizontal
  · rw [h] at hacross halong
    exact ⟨halong, hacross⟩
  · rw [h] at hacross halong
    exact ⟨hacross, halong⟩

end Point

namespace Place

theorem abs_mul_le {dx scale half : Rat} (hhalf : 0 ≤ half) (hscale : 0 ≤ scale)
    (h : dx ≠ 0 → scale ≤ half / |dx|) : |dx * scale| ≤ half := by
  by_cases hdx : dx = 0
  · rw [hdx, zero_mul, abs_zero]
    exact hhalf
  · have hpos : 0 < |dx| := abs_pos.mpr hdx
    have hle := mul_le_mul_of_nonneg_left (h hdx) hpos.le
    rw [abs_mul, abs_of_nonneg hscale]
    rwa [mul_div_cancel₀ half hpos.ne'] at hle

variable {q : Place Rat}

theorem exitScale_nonneg (hwidth : 0 ≤ q.width) (hheight : 0 ≤ q.height) (dx dy : Rat) :
    0 ≤ exitScale q dx dy := by
  have hacross : 0 ≤ q.width / 2 / |dx| := div_nonneg (div_nonneg hwidth zero_le_two) (abs_nonneg dx)
  have hup : 0 ≤ q.height / 2 / |dy| := div_nonneg (div_nonneg hheight zero_le_two) (abs_nonneg dy)
  rw [exitScale_eq]
  split
  · exact hup
  · split
    · exact hacross
    · exact le_min hacross hup

theorem exit_within (hwidth : 0 ≤ q.width) (hheight : 0 ≤ q.height) (dx dy : Rat) :
    |dx * exitScale q dx dy| ≤ q.width / 2 ∧ |dy * exitScale q dx dy| ≤ q.height / 2 := by
  have hscale := exitScale_nonneg hwidth hheight dx dy
  refine ⟨abs_mul_le (div_nonneg hwidth zero_le_two) hscale fun hdx => ?_,
    abs_mul_le (div_nonneg hheight zero_le_two) hscale fun hdy => ?_⟩
  · rw [exitScale_eq, if_neg hdx]
    split
    · exact le_rfl
    · exact min_le_left _ _
  · rw [exitScale_eq]
    by_cases hdx : dx = 0
    · rw [if_pos hdx]
    · rw [if_neg hdx, if_neg hdy]
      exact min_le_right _ _

theorem le_near {d : Direction} {n : Rat} (hx : n ≤ q.x) (hy : n ≤ q.y) : n ≤ q.near d := by
  rw [near]
  split
  · exact hy
  · exact hx

theorem le_top {d : Direction} {n : Rat} (hx : n ≤ q.x) (hy : n ≤ q.y) : n ≤ q.top d := by
  rw [top]
  split
  · exact hx
  · exact hy

structure Holds (d : Direction) (q : Place Rat) (shift : Rat) (c : Point Rat) : Prop where
  near : q.near d + shift ≤ c.along d
  far : c.along d ≤ q.far d + shift
  top : q.top d ≤ c.across d
  bottom : c.across d ≤ q.bottom d

theorem holds_of_abs_le {d : Direction} {shift : Rat} {c : Point Rat}
    (hx : |c.x - (q.centre.shift d shift).x| ≤ q.width / 2)
    (hy : |c.y - (q.centre.shift d shift).y| ≤ q.height / 2) : q.Holds d shift c := by
  rw [abs_le] at hx hy
  simp only [Point.shift, centre, cx, cy, Scalar.decimal_two] at hx hy
  cases hd : d.isHorizontal
  · simp only [hd, Bool.false_eq_true, if_false] at hx hy
    refine ⟨?_, ?_, ?_, ?_⟩
    all_goals
      simp only [near, far, top, bottom, Point.along, Point.across, hd, Bool.false_eq_true, if_false]
      linarith
  · simp only [hd, if_true] at hx hy
    refine ⟨?_, ?_, ?_, ?_⟩
    all_goals
      simp only [near, far, top, bottom, Point.along, Point.across, hd, if_true]
      linarith

theorem holds_shift_centre (hwidth : 0 ≤ q.width) (hheight : 0 ≤ q.height) (d : Direction) (shift : Rat) :
    q.Holds d shift (q.centre.shift d shift) := by
  apply holds_of_abs_le
  · rw [sub_self, abs_zero]
    exact div_nonneg hwidth zero_le_two
  · rw [sub_self, abs_zero]
    exact div_nonneg hheight zero_le_two

theorem holds_clip (hwidth : 0 ≤ q.width) (hheight : 0 ≤ q.height) (d : Direction) (shift : Rat)
    (r : Point Rat) : q.Holds d shift ((q.moveTo (q.centre.shift d shift)).clip r) := by
  rw [clip_moveTo]
  split
  · exact holds_shift_centre hwidth hheight d shift
  · obtain ⟨hx, hy⟩ := exit_within hwidth hheight (r.x - (q.centre.shift d shift).x)
      (r.y - (q.centre.shift d shift).y)
    apply holds_of_abs_le
    · rwa [add_sub_cancel_left]
    · rwa [add_sub_cancel_left]

theorem mem_loop (hwidth : 0 ≤ q.width) (hheight : 0 ≤ q.height) {c : Point Rat} (h : c ∈ q.loop) :
    q.x ≤ c.x ∧ q.y ≤ c.y := by
  have hsize : (0 : Rat) ≤ loopSize := by norm_num [loopSize]
  have hfour : (4.0 : Rat) = 4 := by norm_num
  simp only [loop, cy, Scalar.decimal_two, hfour, List.mem_cons, List.not_mem_nil, or_false] at h
  rcases h with rfl | rfl | rfl | rfl
  all_goals
    constructor
    · dsimp only
      linarith
    · dsimp only
      linarith

end Place

def overhang (edges : List Edge) (e : Edge) : Rat :=
  if e.tail = e.head then 0
  else (((bundle edges e).length - 1 : Nat) : Rat) / 2 * parallelOffset

theorem overhang_le_margin {edges : List Edge} {e : Edge}
    (h : e.tail = e.head ∨ (bundle edges e).length ≤ 2) : overhang edges e ≤ margin := by
  rw [overhang]
  split
  · norm_num [margin]
  · next hne =>
    have hlength : (bundle edges e).length - 1 ≤ 1 := by have := h.resolve_left hne; omega
    have hcast : (((bundle edges e).length - 1 : Nat) : Rat) ≤ 1 := by exact_mod_cast hlength
    norm_num [margin, parallelOffset]
    linarith

theorem neg_overhang_le (edges : List Edge) {e : Edge} (h : e.tail ≠ e.head) (number : Nat) :
    -overhang edges e ≤ parallelShift (bundle edges e) number := by
  have hoffset : (0 : Rat) ≤ parallelOffset := by norm_num [parallelOffset]
  have hindex : (0 : Rat) ≤ Scalar.ofNat ((bundle edges e).idxOf number) := Nat.cast_nonneg _
  rw [overhang, if_neg h, parallelShift, Scalar.decimal_two, ← neg_mul]
  apply mul_le_mul_of_nonneg_right _ hoffset
  change -((((bundle edges e).length - 1 : Nat) : Rat) / 2) ≤
    Scalar.ofNat ((bundle edges e).idxOf number) - (((bundle edges e).length - 1 : Nat) : Rat) / 2
  linarith

theorem mem_lineThrough {tail head : Place Rat} {first last : Point Rat} {inner : List (Point Rat)}
    {c : Point Rat} (h : c ∈ lineThrough tail head first inner last) :
    (∃ r, c = (tail.moveTo first).clip r) ∨ c ∈ inner ∨ ∃ r, c = (head.moveTo last).clip r := by
  rw [lineThrough, List.mem_append, List.mem_cons, List.mem_singleton] at h
  rcases h with (rfl | h) | rfl
  · exact .inl ⟨_, rfl⟩
  · exact .inr (.inl h)
  · exact .inr (.inr ⟨_, rfl⟩)

section

variable {d : Direction} {a : Augmented} {turned : List (Text × Text)} {places : List (Place Rat)} {edges : List Edge}
  {e : Edge} {number : Nat} {r : Route Rat} {c : Point Rat} (hsize : ∀ q ∈ places, 0 ≤ q.width ∧ 0 ≤ q.height)
  (h : route d a turned places edges e number = .ok r)

include hsize h

theorem holds_of_mem_waypoints (hne : e.tail ≠ e.head) (hc : c ∈ r.waypoints) :
    ∃ q ∈ places, q.Holds d (parallelShift (bundle edges e) number) c := by
  obtain ⟨tail, head, dummies, htail, hhead, hdummies, hwaypoints⟩ := line_of_route h hne
  rw [hwaypoints] at hc
  rcases mem_lineThrough hc with ⟨r, rfl⟩ | hinner | ⟨r, rfl⟩
  · have hmem := (of_placeOf htail).1
    exact ⟨tail, hmem, Place.holds_clip (hsize tail hmem).1 (hsize tail hmem).2 d _ r⟩
  · obtain ⟨q, hq, rfl⟩ := List.mem_map.mp hinner
    obtain ⟨id, -, hid⟩ := (Except.forall₂_of_mapM hdummies).exists_of_mem hq
    have hmem := (of_placeOf hid).1
    exact ⟨q, hmem, Place.holds_shift_centre (hsize q hmem).1 (hsize q hmem).2 d _⟩
  · have hmem := (of_placeOf hhead).1
    exact ⟨head, hmem, Place.holds_clip (hsize head hmem).1 (hsize head hmem).2 d _ r⟩

theorem mem_waypoints (hc : c ∈ r.waypoints) :
    ∃ q ∈ places, q.top d ≤ c.across d ∧ q.near d - overhang edges r.edge ≤ c.along d := by
  rw [(edge_of_route h).1]
  by_cases hloop : e.tail = e.head
  · obtain ⟨tail, htail, hwaypoints⟩ := loop_of_route h hloop
    have htailMem := (of_placeOf htail).1
    obtain ⟨hx, hy⟩ := Place.mem_loop (hsize tail htailMem).1 (hsize tail htailMem).2 (hwaypoints ▸ hc)
    refine ⟨tail, htailMem, ?_, ?_⟩
    · cases hd : d.isHorizontal <;> simpa [Place.top, Point.across, hd]
    · cases hd : d.isHorizontal <;> simpa [Place.near, Point.along, overhang, hloop, hd]
  · obtain ⟨q, hq, hholds⟩ := holds_of_mem_waypoints hsize h hloop hc
    have hshift := neg_overhang_le edges hloop number
    have hnear := hholds.near
    exact ⟨q, hq, hholds.top, by linarith⟩

end

theorem Plan.size_nonneg_of_mem_places {p : Plan Rat} {g : Digraph Text} {rows : List (List Text)}
    (hsized : ∀ row ∈ rows, p.Sized row) {q : Place Rat} (hq : q ∈ p.places g rows) :
    0 ≤ q.width ∧ 0 ≤ q.height := by
  obtain ⟨layer, band, order, id, hband, hid, rfl⟩ := mem_places.mp hq
  have hextent := hsized band.1 (mem_rows_of_band hband).2 id (List.mem_of_getElem? hid)
  rw [placeIn, placeAt]
  split
  · exact hextent.symm
  · exact hextent

namespace Layout

theorem ofSketch_holds_waypoints {s : Sketch Rat} {rankGap : Rat} (hrank : 0 ≤ rankGap) (nodeGap : Rat)
    (hsize : ∀ id ∈ s.graph.nodes, 0 ≤ (s.size id).1 ∧ 0 ≤ (s.size id).2) :
    ∃ l, ofSketch s rankGap nodeGap = .ok l ∧ ∀ r ∈ l.routes, ∀ c ∈ r.waypoints,
      c.x + margin ≤ l.width ∧ c.y + margin ≤ l.height ∧ margin ≤ c.across s.direction ∧
        margin - overhang s.edges r.edge ≤ c.along s.direction ∧
        (r.edge.tail = r.edge.head ∨ (bundle s.edges r.edge).length ≤ 2 → 0 ≤ c.x ∧ 0 ≤ c.y) := by
  obtain ⟨a, ha, hextends, hperm, -⟩ := Arrangement.ofGraph_ok s.graph
  obtain ⟨l, hl, -⟩ := ofArrangement_ok hextends hperm rankGap nodeGap
  obtain ⟨hroutes, -, hwidth, hheight⟩ := of_ofArrangement hl
  have hsized : ∀ row ∈ a.rows, Plan.Sized ⟨s.direction, s.size, rankGap, nodeGap⟩ row :=
    fun row hrow => Plan.sized_of_extends hextends hsize fun id hid =>
      hperm.mem_iff.mp (List.mem_flatten_of_mem hrow hid)
  refine ⟨l, by rw [ofSketch, ha]; exact hl, fun r hr c hc => ?_⟩
  obtain ⟨e, -, hroute⟩ := (Except.forall₂_of_mapM hroutes).exists_of_mem hr
  obtain ⟨q, hq, htop, hnear⟩ := mem_waypoints (fun q => Plan.size_nonneg_of_mem_places hsized) hroute hc
  have hmem : c ∈ l.routes.flatMap (·.waypoints) := List.mem_flatMap.mpr ⟨r, hr, hc⟩
  obtain ⟨hx, hy⟩ := Plan.margin_le_of_mem_places hrank hsized hq
  have htop' : margin ≤ c.across s.direction := (q.le_top hx hy).trans htop
  have hnear' : margin - overhang s.edges r.edge ≤ c.along s.direction := by
    have := q.le_near (d := s.direction) hx hy
    linarith
  refine ⟨?_, ?_, htop', hnear', fun hfew => ?_⟩
  · rw [hwidth]
    exact add_margin_le_reach (List.mem_append_right _ (List.mem_map_of_mem hmem))
  · rw [hheight]
    exact add_margin_le_reach (List.mem_append_right _ (List.mem_map_of_mem hmem))
  · have hmargin : (0 : Rat) ≤ margin := by norm_num [margin]
    have hlong : 0 ≤ c.along s.direction := (sub_nonneg.mpr (overhang_le_margin hfew)).trans hnear'
    exact Point.nonneg (hmargin.trans htop') hlong

theorem ofSketch_holds_waypoints_pair :
    let ends : List (String × String) := [("a", "b"), ("b", "a"), ("b", "b")]
    let edges : List Edge := ends.map fun e => { tail := e.1, head := e.2 }
    let sizes : List (Text × Rat × Rat) := [("a", 0, 20), ("b", 16, 0)]
    let s := Sketch.ofDocument { edges } sizes
    ∃ l, ofSketch s 50 30 = .ok l ∧ ∀ r ∈ l.routes, ∀ c ∈ r.waypoints,
      c.x + margin ≤ l.width ∧ c.y + margin ≤ l.height ∧ margin ≤ c.across s.direction ∧
        margin - overhang s.edges r.edge ≤ c.along s.direction ∧
        (r.edge.tail = r.edge.head ∨ (bundle s.edges r.edge).length ≤ 2 → 0 ≤ c.x ∧ 0 ≤ c.y) :=
  ofSketch_holds_waypoints (by norm_num) 30 (by decide +kernel)

theorem ofSketch_loses_waypoint :
    let edges : List Edge := List.replicate 5 { tail := "A1", head := "A2" }
    let sizes : List (Text × Rat × Rat) := [("A1", 16, 16), ("A2", 20, 20)]
    let s := Sketch.ofDocument { edges } sizes
    (∀ id ∈ s.graph.nodes, 0 ≤ (s.size id).1 ∧ 0 ≤ (s.size id).2) ∧
      ¬ ∃ l, ofSketch s 50 30 = .ok l ∧ ∀ r ∈ l.routes, ∀ c ∈ r.waypoints,
        0 ≤ c.x ∧ c.x ≤ l.width ∧ 0 ≤ c.y ∧ c.y ≤ l.height := by
  intro edges sizes s
  refine ⟨by decide +kernel, ?_⟩
  rintro ⟨l, hl, hinside⟩
  have hfirst : (ofSketch s 50 30).toOption.map (fun l =>
      (l.routes.flatMap (·.waypoints)).head?.map (·.x)) = some (some (-2)) := by decide +kernel
  rw [hl] at hfirst
  obtain ⟨c, hc, hx⟩ := Option.map_eq_some_iff.mp (Option.some.inj hfirst)
  obtain ⟨r, hr, hcr⟩ := List.mem_flatMap.mp (List.mem_of_mem_head? hc)
  have hnonneg := (hinside r hr c hcr).1
  rw [hx] at hnonneg
  norm_num at hnonneg

end Layout

end Yuml.Layered
