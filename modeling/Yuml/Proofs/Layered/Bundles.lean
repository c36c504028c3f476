import Mathlib.Algebra.BigOperators.Group.List.Basic
import Yuml.Proofs.Layered.Flow
import Yuml.Proofs.Layered.Symmetry

namespace Yuml.Layered

open Number

def SameEnds (e f : Edge) : Prop :=
  (f.tail = e.tail ∧ f.head = e.head) ∨ (f.tail = e.head ∧ f.head = e.tail)

theorem sameEnds_of_eq {e f : Edge} {ends : Text × Text} (he : ends = (e.tail, e.head) ∨ ends = (e.head, e.tail))
    (hf : ends = (f.tail, f.head) ∨ ends = (f.head, f.tail)) : SameEnds e f := by
  obtain ⟨tail, head⟩ := ends
  simp only [Prod.mk.injEq] at he hf
  rcases he with ⟨rfl, rfl⟩ | ⟨rfl, rfl⟩
  · exact hf.imp (fun h => ⟨h.1.symm, h.2.symm⟩) fun h => ⟨h.2.symm, h.1.symm⟩
  · exact hf.symm.imp (fun h => ⟨h.2.symm, h.1.symm⟩) fun h => ⟨h.1.symm, h.2.symm⟩

theorem mem_bundle {edges : List Edge} {e : Edge} {n : Nat} :
    n ∈ bundle edges e ↔ ∃ f, edges[n]? = some f ∧ SameEnds e f := by
  simp only [bundle, List.mem_map, List.mem_filter, Bool.or_eq_true, Bool.and_eq_true, beq_iff_eq]
  constructor
  · rintro ⟨⟨f, _⟩, ⟨hmem, hends⟩, rfl⟩
    exact ⟨f, List.mem_zipIdx_iff_getElem?.mp hmem, hends⟩
  · rintro ⟨f, hf, hends⟩
    exact ⟨(f, n), ⟨List.mem_zipIdx_iff_getElem?.mpr hf, hends⟩, rfl⟩

theorem nodup_bundle (edges : List Edge) (e : Edge) : (bundle edges e).Nodup := by
  have hnumbers : (edges.zipIdx.map (·.2)).Nodup := by
    rw [List.zipIdx_map_snd]
    exact List.nodup_range'
  exact hnumbers.sublist (List.filter_sublist.map _)

theorem bundle_congr {e f : Edge} (h : SameEnds e f) (edges : List Edge) : bundle edges f = bundle edges e := by
  refine congrArg (List.map _) (List.filter_congr fun k _ => ?_)
  dsimp only
  rcases h with ⟨htail, hhead⟩ | ⟨htail, hhead⟩
  · rw [htail, hhead]
  · rw [htail, hhead, Bool.or_comm]

section Shifts

variable {members : List Nat}

theorem parallelShift_eq (members : List Nat) (n : Nat) :
    (parallelShift members n : Rat) =
      ((members.idxOf n : Rat) - ((members.length - 1 : Nat) : Rat) / 2) * parallelOffset := by
  rw [← Scalar.decimal_two]
  rfl

theorem parallelShift_add (members : List Nat) (m n : Nat) :
    (parallelShift members m : Rat) + parallelOffset * ((members.idxOf n : Rat) - members.idxOf m) =
      parallelShift members n := by
  rw [parallelShift_eq, parallelShift_eq]
  ring

theorem sum_ranks (n : Nat) (c : Rat) :
    ((List.range n).map fun k : Nat => ((k : Rat) - c) * parallelOffset).sum =
      ((n : Rat) * (n - 1) / 2 - n * c) * parallelOffset := by
  induction n with
  | zero => simp
  | succ n ih =>
    rw [List.range_succ, List.map_append, List.sum_append, ih, List.map_singleton, List.sum_singleton]
    push_cast
    ring

theorem map_idxOf (h : members.Nodup) : members.map members.idxOf = List.range members.length := by
  refine List.ext_getElem (by simp) fun k _ _ => ?_
  rw [List.getElem_map, List.getElem_range, h.idxOf_getElem]

theorem sum_parallelShift (h : members.Nodup) : (members.map (parallelShift members)).sum = (0 : Rat) := by
  have hranks : members.map (parallelShift members) = (members.map members.idxOf).map fun k : Nat =>
      ((k : Rat) - ((members.length - 1 : Nat) : Rat) / 2) * parallelOffset := by
    rw [List.map_map]
    exact List.map_congr_left fun n _ => parallelShift_eq members n
  rw [hranks, map_idxOf h, sum_ranks]
  cases hn : members.length with
  | zero => simp
  | succ n =>
    rw [Nat.add_sub_cancel]
    push_cast
    ring

end Shifts

theorem Point.shift_shift (d : Direction) (x y : Rat) (c : Point Rat) : (c.shift d x).shift d y = c.shift d (x + y) := by
  unfold Point.shift
  split
  · rw [add_assoc]
  · rw [add_assoc]

def Place.shift (d : Direction) (distance : Rat) (q : Place Rat) : Place Rat :=
  if d.isHorizontal then { q with y := q.y + distance } else { q with x := q.x + distance }

def Motion.along (d : Direction) (distance : Rat) : Motion d d where
  place := Place.shift d distance
  point := Point.shift d distance
  id_place q := by
    unfold Place.shift
    split <;> rfl
  centre_place q := by
    unfold Place.shift Point.shift
    split
    · exact congrArg (Point.mk _) (add_right_comm q.y distance (q.height / 2.0))
    · exact congrArg (Point.mk · _) (add_right_comm q.x distance (q.width / 2.0))
  shift_point x c := by rw [Point.shift_shift, Point.shift_shift, add_comm]
  clip_place q c r := by
    rw [clip_moveTo, clip_moveTo]
    unfold Place.shift Point.shift
    split
    · simp only [add_sub_add_right_eq_sub]
      split
      · rfl
      · exact congrArg (Point.mk _) (add_right_comm (c.y : Rat) distance _)
    · simp only [add_sub_add_right_eq_sub]
      split
      · rfl
      · exact congrArg (Point.mk · _) (add_right_comm (c.x : Rat) distance _)

theorem lineThrough_shift (d : Direction) (distance : Rat) (tail head : Place Rat) (first last : Point Rat)
    (inner : List (Point Rat)) :
    lineThrough tail head (first.shift d distance) (inner.map (Point.shift d distance)) (last.shift d distance) =
      (lineThrough tail head first inner last).map (Point.shift d distance) := by
  have hline := (Motion.along d distance).lineThrough tail head first inner last
  have hmove (q : Place Rat) (c : Point Rat) : ((Motion.along d distance).place q).moveTo c = q.moveTo c := by
    change (Place.shift d distance q).moveTo c = _
    unfold Place.shift
    split <;> rfl
  simp only [lineThrough, hmove] at hline ⊢
  exact hline

theorem lineThrough_reverse (tail head : Place Rat) (first last : Point Rat) (inner : List (Point Rat)) :
    lineThrough head tail last inner.reverse first = (lineThrough tail head first inner last).reverse := by
  have hsecond : (inner.reverse ++ [first]).headD first = (first :: inner).getLastD first := by
    rw [← List.reverse_cons, List.headD_eq_head?_getD, List.head?_reverse, List.getLastD_eq_getLast?]
  have hbefore : (last :: inner.reverse).getLastD last = (inner ++ [last]).headD last := by
    rw [← List.reverse_concat, List.getLastD_eq_getLast?, List.getLast?_reverse, List.headD_eq_head?_getD]
  simp only [lineThrough, hsecond, hbefore, List.reverse_append, List.reverse_cons, List.reverse_nil, List.nil_append,
    List.cons_append]

theorem line_eq_of_route {d : Direction} {a : Augmented} {turned : List (Text × Text)} {places : List (Place Rat)}
    {edges : List Edge} {e : Edge} {number : Nat} {r : Route Rat}
    (h : route d a turned places edges e number = .ok r) (hne : e.tail ≠ e.head) :
    ∃ tail head dummies, placeOf places e.tail = .ok tail ∧ placeOf places e.head = .ok head ∧
      (chainOf a turned e).mapM (placeOf places) = .ok dummies ∧
      r.waypoints = (lineThrough tail head tail.centre (dummies.map Place.centre) head.centre).map
        (Point.shift d (parallelShift (bundle edges e) number)) := by
  obtain ⟨tail, head, dummies, htail, hhead, hdummies, hline⟩ := line_of_route h hne
  refine ⟨tail, head, dummies, htail, hhead, hdummies, ?_⟩
  rw [hline, ← lineThrough_shift, List.map_map]
  rfl

/-- Whether a route with the ends of `e` is that line, moved along the layers, and one with these ends exchanged is the
line backwards. -/
def Route.Follows (d : Direction) (line : List (Point Rat)) (distance : Rat) (e : Edge) (r : Route Rat) : Prop :=
  (r.edge.tail = e.tail → r.edge.head = e.head → r.waypoints = line.map (Point.shift d distance)) ∧
    (r.edge.tail = e.head → r.edge.head = e.tail → r.waypoints = (line.map (Point.shift d distance)).reverse)

theorem Route.Follows.trans {d : Direction} {line : List (Point Rat)} {x y : Rat} {e : Edge} {r r' : Route Rat}
    (hr : r.waypoints = line.map (Point.shift d x)) (h : r'.Follows d line y e) : r'.Follows d r.waypoints (y - x) e := by
  have hmap : r.waypoints.map (Point.shift d (y - x)) = line.map (Point.shift d y) := by
    rw [hr, List.map_map]
    refine List.map_congr_left fun c _ => ?_
    rw [Function.comp_apply, Point.shift_shift, add_sub_cancel]
  rw [Follows, hmap]
  exact h

section Opposite

variable {g : Digraph Text} {a : Augmented} {e f : Edge}

theorem chainOf_congr (htail : f.tail = e.tail) (hhead : f.head = e.head) (turned : List (Text × Text)) :
    chainOf a turned f = chainOf a turned e := by
  rw [chainOf, htail, hhead, chainOf]

theorem chainOf_opposite (he : (e.tail, e.head) ∈ g.edges) (hf : (f.tail, f.head) ∈ g.edges) (hne : e.tail ≠ e.head)
    (htail : f.tail = e.head) (hhead : f.head = e.tail) :
    chainOf a g.removeCycles.turned f = (chainOf a g.removeCycles.turned e).reverse := by
  rw [htail, hhead] at hf
  have hturned := Digraph.mem_turned_swap he hf hne
  simp only [chainOf, htail, hhead, List.contains_iff_mem]
  by_cases h : (e.tail, e.head) ∈ g.removeCycles.turned
  · rw [if_neg fun h' => hturned.mp h' h, if_pos h, List.reverse_reverse]
  · rw [if_pos (hturned.mpr h), if_neg h]

variable {d : Direction} {places : List (Place Rat)} {edges : List Edge} {n : Nat} {r : Route Rat}

theorem exists_line_of_bundle (he : (e.tail, e.head) ∈ g.edges) (hne : e.tail ≠ e.head)
    (h : route d a g.removeCycles.turned places edges e n = .ok r) :
    ∃ line, r.waypoints = line.map (Point.shift d (parallelShift (bundle edges e) n)) ∧
      ∀ f m r', (f.tail, f.head) ∈ g.edges → route d a g.removeCycles.turned places edges f m = .ok r' →
        r'.Follows d line (parallelShift (bundle edges e) m) e := by
  obtain ⟨tail, head, dummies, htail, hhead, hdummies, hline⟩ := line_eq_of_route h hne
  refine ⟨_, hline, fun f m r' hf h' => ?_⟩
  rw [Route.Follows, (edge_of_route h').1]
  constructor
  · intro hftail hfhead
    obtain ⟨tail', head', dummies', htail', hhead', hdummies', hline'⟩ :=
      line_eq_of_route h' (by rwa [hftail, hfhead])
    rw [hftail, htail] at htail'
    rw [hfhead, hhead] at hhead'
    rw [chainOf_congr hftail hfhead, hdummies] at hdummies'
    cases htail'
    cases hhead'
    cases hdummies'
    rw [hline', bundle_congr (.inl ⟨hftail, hfhead⟩)]
  · intro hftail hfhead
    obtain ⟨tail', head', dummies', htail', hhead', hdummies', hline'⟩ :=
      line_eq_of_route h' (by rw [hftail, hfhead]; exact hne.symm)
    rw [hftail, hhead] at htail'
    rw [hfhead, htail] at hhead'
    rw [chainOf_opposite he hf hne hftail hfhead, Except.mapM_reverse hdummies] at hdummies'
    cases htail'
    cases hhead'
    cases hdummies'
    rw [hline', bundle_congr (.inr ⟨hftail, hfhead⟩), List.map_reverse, lineThrough_reverse, List.map_reverse]

end Opposite

namespace Layout

theorem exists_edge_of_mem_routes {α : Type} [Scalar α] {s : Sketch α} {a : Arrangement} {rankGap nodeGap : α}
    {l : Layout α} (h : ofArrangement s a rankGap nodeGap = .ok l) {r : Route α} (hr : r ∈ l.routes) :
    s.edges[r.number]? = some r.edge ∧
      route s.direction a.augmented a.turned
        ((Plan.mk s.direction s.size rankGap nodeGap).places a.augmented.graph a.rows) s.edges r.edge r.number = .ok r := by
  obtain ⟨e, he, hroute⟩ := (Except.forall₂_of_mapM (of_ofArrangement h).1).exists_of_mem hr
  obtain ⟨hedge, hnumber⟩ := edge_of_route hroute
  rw [hedge, hnumber]
  exact ⟨List.mem_zipIdx_iff_getElem?.mp he, hroute⟩

end Layout

end Yuml.Layered
