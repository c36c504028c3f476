import Mathlib.Algebra.Order.AbsoluteValue.Basic
import Mathlib.Algebra.BigOperators.Group.List.Basic
import Mathlib.Tactic.Ring
import Yuml.Proofs.Layered.Layout

namespace Yuml.Layered

open Number

structure Plan.SameAlong (p q : Plan Rat) : Prop where
  extent : p.extent = q.extent
  nodeGap : p.nodeGap = q.nodeGap

namespace Plan.SameAlong

variable {p q : Plan Rat} (h : p.SameAlong q)

include h

theorem rowDepth : p.rowDepth = q.rowDepth := by
  funext row
  simp only [Plan.rowDepth, h.extent]

theorem packFrom (start : Rat) (row : List Text) : p.packFrom start row = q.packFrom start row := by
  induction row generalizing start with
  | nil => rfl
  | cons id ids ih => simp only [Plan.packFrom, h.extent, h.nodeGap, ih]

theorem spreadFrom (wanted : Text → Rat) (edge : Option Rat) (row : List Text) :
    p.spreadFrom wanted edge row = q.spreadFrom wanted edge row := by
  induction row generalizing edge with
  | nil => rfl
  | cons id ids ih => simp only [Plan.spreadFrom, h.extent, h.nodeGap, ih]

theorem settle : p.settle = q.settle := by
  funext neighbours m row
  simp only [Plan.settle, h.spreadFrom]

theorem middles (g : Digraph Text) (rows : List (List Text)) : p.middles g rows = q.middles g rows := by
  have hpacked : p.packFrom 0.0 = q.packFrom 0.0 := funext (h.packFrom 0.0)
  simp only [Plan.middles, Plan.packed, hpacked, h.settle]

theorem lowest (m : Middles Rat) (rows : List (List Text)) : p.lowest m rows = q.lowest m rows := by
  simp only [Plan.lowest, h.extent]

end Plan.SameAlong

structure Plan.Alike (p q : Plan Rat) : Prop where
  extent : p.extent = q.extent
  rankGap : p.rankGap = q.rankGap
  nodeGap : p.nodeGap = q.nodeGap

namespace Plan.Alike

variable {p q : Plan Rat} (h : p.Alike q)

include h

theorem sameAlong : p.SameAlong q :=
  ⟨h.extent, h.nodeGap⟩

theorem bands (next : Rat) (rows : List (List Text)) : p.bands next rows = q.bands next rows := by
  induction rows generalizing next with
  | nil => rfl
  | cons row rows ih => simp only [bands_cons, h.sameAlong.rowDepth, h.rankGap, ih]

theorem bandsEnd (next : Rat) (rows : List (List Text)) : p.bandsEnd next rows = q.bandsEnd next rows := by
  induction rows generalizing next with
  | nil => rfl
  | cons row rows ih => simp only [bandsEnd_cons, h.sameAlong.rowDepth, h.rankGap, ih]

theorem totalDepth (rows : List (List Text)) : p.totalDepth rows = q.totalDepth rows := by
  simp only [Plan.totalDepth, h.bandsEnd, h.rankGap]

theorem places {g : Digraph Text} {rows : List (List Text)} {f : Place Rat → Place Rat}
    (hf : ∀ low middle start depth layer order id,
      q.placeAt low (q.totalDepth rows) middle start depth layer order id =
        f (p.placeAt low (q.totalDepth rows) middle start depth layer order id)) :
    q.places g rows = (p.places g rows).map f := by
  simp only [Plan.places, h.sameAlong.middles, h.sameAlong.lowest, h.totalDepth,
    h.bands, h.sameAlong.rowDepth, List.map_flatMap, List.map_map]
  refine List.flatMap_congr fun b _ => List.map_congr_left fun i _ => ?_
  exact hf ..

end Plan.Alike

theorem Plan.totalDepth_eq_sum (p : Plan Rat) {rows : List (List Text)} (h : rows ≠ []) :
    p.totalDepth rows = max 0 ((rows.map p.rowDepth).sum + (rows.length - 1 : Nat) * p.rankGap) := by
  have hend (next : Rat) (rows : List (List Text)) :
      p.bandsEnd next rows = next + (rows.map p.rowDepth).sum + rows.length * p.rankGap := by
    induction rows generalizing next with
    | nil => simp [bandsEnd, rowStarts]
    | cons row rows ih =>
      rw [bandsEnd_cons, ih, List.map_cons, List.sum_cons, List.length_cons, Nat.cast_add, Nat.cast_one]
      ring
  have hpos : 1 ≤ rows.length := List.length_pos_iff.mpr h
  rw [totalDepth_eq, hend, Nat.cast_sub hpos]
  congr 1
  push_cast
  ring

namespace Place

def mirror (width : Rat) (q : Place Rat) : Place Rat :=
  { q with x := width - q.x - q.width }

def transpose (q : Place Rat) : Place Rat :=
  { q with x := q.y, y := q.x, width := q.height, height := q.width }

end Place

namespace Point

def mirror (width : Rat) (c : Point Rat) : Point Rat :=
  ⟨width - c.x, c.y⟩

def transpose (c : Point Rat) : Point Rat :=
  ⟨c.y, c.x⟩

end Point

theorem beq_zero_iff {x : Rat} : (x == 0.0) = true ↔ x = 0 := by
  rw [Scalar.decimal_zero]
  exact beq_iff_eq

theorem magnitude_eq_abs (x : Rat) : Scalar.magnitude x = |x| := by
  rw [Scalar.magnitude, Scalar.decimal_zero]
  by_cases h : x < 0
  · rw [if_pos (Scalar.less_iff.mpr h), abs_of_neg h]
  · rw [if_neg (mt Scalar.less_iff.mp h), abs_of_nonneg (not_lt.mp h)]

theorem exitScale_eq (q : Place Rat) (dx dy : Rat) :
    exitScale q dx dy = if dx = 0 then q.height / 2 / |dy| else if dy = 0 then q.width / 2 / |dx|
      else min (q.width / 2 / |dx|) (q.height / 2 / |dy|) := by
  simp only [exitScale, beq_zero_iff, magnitude_eq_abs, Scalar.smaller_eq_min, Scalar.decimal_two]

theorem clip_moveTo (q : Place Rat) (c r : Point Rat) :
    (q.moveTo c).clip r = if r.x - c.x = 0 ∧ r.y - c.y = 0 then c else
      ⟨c.x + (r.x - c.x) * exitScale q (r.x - c.x) (r.y - c.y),
        c.y + (r.y - c.y) * exitScale q (r.x - c.x) (r.y - c.y)⟩ := by
  have hx : (q.moveTo c).cx = c.x := sub_add_cancel c.x (q.width / 2.0)
  have hy : (q.moveTo c).cy = c.y := sub_add_cancel c.y (q.height / 2.0)
  have hscale (dx dy : Rat) : exitScale (q.moveTo c) dx dy = exitScale q dx dy := rfl
  simp only [Place.clip, Place.centre, hx, hy, hscale, Bool.and_eq_true, beq_zero_iff]

section

variable {f : Place Rat → Place Rat} (hf : ∀ q, (f q).id = q.id)

include hf

theorem placeOf_map (places : List (Place Rat)) (id : Text) :
    placeOf (places.map f) id = (placeOf places id).map f := by
  simp only [placeOf, List.find?_map, Function.comp_def, hf]
  cases places.find? (·.id == id) <;> rfl

theorem mapM_placeOf_map (places : List (Place Rat)) (ids : List Text) :
    ids.mapM (placeOf (places.map f)) = (ids.mapM (placeOf places)).map (·.map f) := by
  induction ids with
  | nil => rfl
  | cons id ids ih =>
    simp only [List.mapM_cons, placeOf_map hf, ih]
    cases placeOf places id with
    | error e => rfl
    | ok q => cases ids.mapM (placeOf places) <;> rfl

end

/-- A motion of the plane that takes lines drawn for the one direction to lines drawn for the
other. -/
structure Motion (d d' : Direction) where
  place : Place Rat → Place Rat
  point : Point Rat → Point Rat
  id_place : ∀ q, (place q).id = q.id
  centre_place : ∀ q, (place q).centre = point q.centre
  shift_point : ∀ distance c, (point c).shift d' distance = point (c.shift d distance)
  clip_place : ∀ q c r, ((place q).moveTo (point c)).clip (point r) = point ((q.moveTo c).clip r)

namespace Motion

def mirror (width : Rat) : Motion .leftToRight .rightToLeft where
  place := Place.mirror width
  point := Point.mirror width
  id_place _ := rfl
  centre_place q := by
    simp only [Place.centre, Place.mirror, Point.mirror, Place.cx, Place.cy, Scalar.decimal_two]
    congr 1
    ring
  shift_point _ _ := rfl
  clip_place q c r := by
    have hscale (dx dy : Rat) : exitScale (q.mirror width) (-dx) dy = exitScale q dx dy := by
      simp only [exitScale_eq, Place.mirror, abs_neg, neg_eq_zero]
    have hdx : (r.mirror width).x - (c.mirror width).x = -(r.x - c.x) := by
      simp only [Point.mirror]
      ring
    have hdy : (r.mirror width).y - (c.mirror width).y = r.y - c.y := rfl
    rw [clip_moveTo, clip_moveTo, hdx, hdy, hscale]
    simp only [neg_eq_zero]
    split
    · rfl
    · simp only [Point.mirror]
      congr 1
      ring

def transpose : Motion .leftToRight .topDown where
  place := Place.transpose
  point := Point.transpose
  id_place _ := rfl
  centre_place _ := rfl
  shift_point _ _ := rfl
  clip_place q c r := by
    rw [clip_moveTo, clip_moveTo]
    by_cases h : r.x - c.x = 0 ∧ r.y - c.y = 0
    · rw [if_pos h, if_pos (by exact h.symm)]
    · have hscale : exitScale q.transpose (r.y - c.y) (r.x - c.x) = exitScale q (r.x - c.x) (r.y - c.y) := by
        simp only [exitScale_eq, Place.transpose]
        by_cases hx : r.x - c.x = 0
        · have hy : r.y - c.y ≠ 0 := fun hy => h ⟨hx, hy⟩
          simp only [hx, hy, if_true, if_false]
        · simp only [hx, if_false, min_comm]
      rw [if_neg h, if_neg (by exact fun h' => h h'.symm)]
      simp only [Point.transpose, hscale]

variable {d d' : Direction} (f : Motion d d')

theorem placeOf (places : List (Place Rat)) (id : Text) :
    Layered.placeOf (places.map f.place) id = (Layered.placeOf places id).map f.place :=
  placeOf_map f.id_place places id

theorem mapM_placeOf (places : List (Place Rat)) (ids : List Text) :
    ids.mapM (Layered.placeOf (places.map f.place)) =
      (ids.mapM (Layered.placeOf places)).map (·.map f.place) :=
  mapM_placeOf_map f.id_place places ids

theorem lineThrough (tail head : Place Rat) (first : Point Rat) (inner : List (Point Rat))
    (last : Point Rat) :
    Layered.lineThrough (f.place tail) (f.place head) (f.point first) (inner.map f.point) (f.point last) =
      (Layered.lineThrough tail head first inner last).map f.point := by
  have hsecond : (inner.map f.point ++ [f.point last]).headD (f.point last) =
      f.point ((inner ++ [last]).headD last) := by
    cases inner <;> rfl
  have hbefore : (f.point first :: inner.map f.point).getLastD (f.point first) =
      f.point ((first :: inner).getLastD first) := by
    rw [← List.map_cons, List.getLastD_eq_getLast?, List.getLast?_map, List.getLastD_eq_getLast?]
    cases (first :: inner).getLast? <;> rfl
  simp only [Layered.lineThrough, hsecond, hbefore, f.clip_place, List.map_cons, List.map_append,
    List.map_nil, List.cons_append]

def Moves (r r' : Route Rat) : Prop :=
  r'.edge = r.edge ∧ r'.number = r.number ∧
    (r.edge.tail ≠ r.edge.head → r'.waypoints = r.waypoints.map f.point)

theorem moves_route {a : Augmented} {turned : List (Text × Text)} {places : List (Place Rat)}
    {edges : List Edge} {e : Edge} {number : Nat} {r : Route Rat}
    (h : route d a turned places edges e number = .ok r) :
    ∃ r', route d' a turned (places.map f.place) edges e number = .ok r' ∧ f.Moves r r' := by
  obtain ⟨tail, htail, h⟩ := Except.bind_eq_ok.mp h
  have htail' : Layered.placeOf (places.map f.place) e.tail = .ok (f.place tail) := by
    rw [f.placeOf, htail]
    rfl
  -- a loop leaves its node to the right whatever the direction, so that nothing is said of its points
  by_cases hloop : e.tail = e.head
  · rw [if_pos hloop] at h
    cases h
    exact ⟨_, Except.bind_eq_ok.mpr ⟨_, htail', if_pos hloop⟩, rfl, rfl, fun hne => absurd hloop hne⟩
  · rw [if_neg hloop] at h
    obtain ⟨head, hhead, h⟩ := Except.bind_eq_ok.mp h
    obtain ⟨dummies, hdummies, h⟩ := Except.bind_eq_ok.mp h
    have hhead' : Layered.placeOf (places.map f.place) e.head = .ok (f.place head) := by
      rw [f.placeOf, hhead]
      rfl
    have hdummies' : (chainOf a turned e).mapM (Layered.placeOf (places.map f.place)) =
        .ok (dummies.map f.place) := by
      rw [f.mapM_placeOf, hdummies]
      rfl
    let shift : Rat := parallelShift (bundle edges e) number
    have hinner : (dummies.map f.place).map (fun q => q.centre.shift d' shift) =
        (dummies.map fun q => q.centre.shift d shift).map f.point := by
      simp only [List.map_map, Function.comp_def, f.centre_place, f.shift_point]
    cases h
    simp only [route, htail', if_neg hloop, hhead', hdummies', bind, Except.bind]
    refine ⟨_, rfl, rfl, rfl, fun _ => ?_⟩
    dsimp only
    rw [hinner, f.centre_place, f.centre_place, f.shift_point, f.shift_point, f.lineThrough]

structure Carries (l l' : Layout Rat) : Prop where
  nodes : l'.nodes = l.nodes.map f.place
  dummies : l'.dummies = l.dummies.map f.place
  routes : List.Forall₂ f.Moves l.routes l'.routes

theorem carries_ofArrangement {s : Sketch Rat} {a : Arrangement} {size' : Text → Rat × Rat}
    {rankGap nodeGap : Rat} (hd : s.direction = d) {l : Layout Rat}
    (hplaces : (Plan.mk d' size' rankGap nodeGap).places a.augmented.graph a.rows =
      ((Plan.mk s.direction s.size rankGap nodeGap).places a.augmented.graph a.rows).map f.place)
    (h : Layout.ofArrangement s a rankGap nodeGap = .ok l) :
    ∃ l', Layout.ofArrangement { s with direction := d', size := size' } a rankGap nodeGap = .ok l' ∧
      f.Carries l l' := by
  subst hd
  obtain ⟨routes, hroutes, h⟩ := Except.bind_eq_ok.mp h
  obtain ⟨nodes, hnodes, h⟩ := Except.bind_eq_ok.mp h
  cases h
  obtain ⟨routes', hroutes', hmoves⟩ := Except.mapM_forall₂ (R := f.Moves)
    (fun e _ r hr => f.moves_route hr) hroutes
  have hnodes' := f.mapM_placeOf
    ((Plan.mk s.direction s.size rankGap nodeGap).places a.augmented.graph a.rows) s.graph.nodes
  rw [hnodes, ← hplaces] at hnodes'
  rw [← hplaces] at hroutes'
  refine ⟨_, Except.bind_eq_ok.mpr ⟨routes', hroutes', Except.bind_eq_ok.mpr ⟨_, hnodes', rfl⟩⟩, ?_⟩
  refine ⟨rfl, ?_, hmoves⟩
  dsimp only
  rw [hplaces, List.filter_map]
  simp only [Function.comp_def, f.id_place]

end Motion

namespace Sketch

variable {α : Type} (s : Sketch α)

def toward (d : Direction) : Sketch α :=
  { s with direction := d }

def swapped : Sketch α :=
  { s with size := fun id => (s.size id).swap }

end Sketch

namespace Layout

variable (s : Sketch Rat) (rankGap nodeGap : Rat)

def spanOf (a : Arrangement) : Rat :=
  let depths := a.rows.map (Plan.mk .leftToRight s.size rankGap nodeGap).rowDepth
  depths.sum + (depths.length - 1 : Nat) * rankGap

theorem ofArrangement_mirror {a : Arrangement} (hrows : a.rows ≠ []) {l : Layout Rat}
    (h : ofArrangement (s.toward .leftToRight) a rankGap nodeGap = .ok l) :
    ∃ r, ofArrangement (s.toward .rightToLeft) a rankGap nodeGap = .ok r ∧
      (Motion.mirror (max 0 (spanOf s rankGap nodeGap a) + 2 * margin)).Carries l r := by
  let p : Plan Rat := ⟨.leftToRight, s.size, rankGap, nodeGap⟩
  let q : Plan Rat := ⟨.rightToLeft, s.size, rankGap, nodeGap⟩
  have halike : p.Alike q := ⟨rfl, rfl, rfl⟩
  refine Motion.carries_ofArrangement (s := s.toward .leftToRight) _ rfl (halike.places ?_) h
  have htotal : q.totalDepth a.rows = max 0 (spanOf s rankGap nodeGap a) := by
    rw [← halike.totalDepth, p.totalDepth_eq_sum hrows, spanOf, List.length_map]
  intro low middle start depth layer order id
  have hacross (total down depth : Rat) :
      total - down - depth + margin = total + 2 * margin - (down + margin) - depth := by ring
  rw [htotal]
  exact congrArg (fun x : Rat => (⟨id, layer, order, x, middle - low - (p.extent id).breadth / 2.0 + margin,
    (p.extent id).depth, (p.extent id).breadth⟩ : Place Rat)) (hacross ..)

theorem ofArrangement_transpose {a : Arrangement} {l : Layout Rat}
    (h : ofArrangement (s.swapped.toward .leftToRight) a rankGap nodeGap = .ok l) :
    ∃ t, ofArrangement (s.toward .topDown) a rankGap nodeGap = .ok t ∧
      Motion.transpose.Carries l t := by
  let p : Plan Rat := ⟨.leftToRight, s.swapped.size, rankGap, nodeGap⟩
  let q : Plan Rat := ⟨.topDown, s.size, rankGap, nodeGap⟩
  have halike : p.Alike q := ⟨rfl, rfl, rfl⟩
  refine Motion.carries_ofArrangement (s := s.swapped.toward .leftToRight) _ rfl (halike.places ?_) h
  intro low middle start depth layer order id
  rfl

theorem ofSketch_mirrors_and_transposes :
    (∃ a l r, Arrangement.ofGraph s.graph = .ok a ∧
      ofSketch (s.toward .leftToRight) rankGap nodeGap = .ok l ∧
      ofSketch (s.toward .rightToLeft) rankGap nodeGap = .ok r ∧
      (Motion.mirror (max 0 (spanOf s rankGap nodeGap a) + 2 * margin)).Carries l r) ∧
    ∃ l t, ofSketch (s.swapped.toward .leftToRight) rankGap nodeGap = .ok l ∧
      ofSketch (s.toward .topDown) rankGap nodeGap = .ok t ∧ Motion.transpose.Carries l t := by
  obtain ⟨a, ha, hextends, hperm, hrows⟩ := Arrangement.ofGraph_ok s.graph
  have hsketch (s' : Sketch Rat) (hgraph : s'.graph = s.graph) :
      ofSketch s' rankGap nodeGap = ofArrangement s' a rankGap nodeGap := by
    rw [ofSketch, hgraph, ha]
    rfl
  rw [hsketch (s.toward .leftToRight) rfl, hsketch (s.toward .rightToLeft) rfl,
    hsketch (s.swapped.toward .leftToRight) rfl, hsketch (s.toward .topDown) rfl]
  constructor
  · obtain ⟨l, hl, -⟩ := ofArrangement_ok (s := s.toward .leftToRight) hextends hperm rankGap nodeGap
    obtain ⟨r, hr, hmirror⟩ := ofArrangement_mirror s rankGap nodeGap hrows hl
    exact ⟨a, l, r, ha, hl, hr, hmirror⟩
  · obtain ⟨l, hl, -⟩ := ofArrangement_ok (s := s.swapped.toward .leftToRight) hextends hperm rankGap nodeGap
    obtain ⟨t, ht, htranspose⟩ := ofArrangement_transpose s rankGap nodeGap hl
    exact ⟨l, t, hl, ht, htranspose⟩

theorem not_mirrored_in_negative_span :
    let s : Sketch Rat := Sketch.ofDocument { nodes := [{ id := "a".toList, label := [] }] } [("a".toList, -10, 5)]
    ¬ ∃ a l r, Arrangement.ofGraph s.graph = .ok a ∧ ofSketch (s.toward .leftToRight) 0 0 = .ok l ∧
      ofSketch (s.toward .rightToLeft) 0 0 = .ok r ∧
      (Motion.mirror (spanOf s 0 0 a + 2 * margin)).Carries l r := by
  rintro s ⟨a, l, r, ha, hl, hr, hmirror⟩
  have hspan : spanOf s 0 0 a = -10 := by
    have h : (Arrangement.ofGraph s.graph).toOption.map (spanOf s 0 0) = some (-10) := by decide +kernel
    rw [ha] at h
    exact Option.some.inj h
  have hleft : l.nodes.map (fun q => (q.x, q.width)) = [(8, -10)] := by
    have h : (ofSketch (s.toward .leftToRight) 0 0).toOption.map
        (fun l => l.nodes.map fun q => (q.x, q.width)) = some [(8, -10)] := by decide +kernel
    rw [hl] at h
    exact Option.some.inj h
  have hright : r.nodes.map (fun q => q.x) = [18] := by
    have h : (ofSketch (s.toward .rightToLeft) 0 0).toOption.map
        (fun r => r.nodes.map fun q => q.x) = some [18] := by decide +kernel
    rw [hr] at h
    exact Option.some.inj h
  obtain ⟨q, hq, hqx⟩ := List.map_eq_singleton_iff.mp hleft
  obtain ⟨hx, hwidth⟩ := Prod.mk.inj hqx
  rw [hmirror.nodes, hq, hspan] at hright
  have hmirrored : -10 + 2 * margin - q.x - q.width = 18 := List.singleton_inj.mp hright
  rw [hx, hwidth] at hmirrored
  revert hmirrored
  decide +kernel

end Layout

end Yuml.Layered
