import Yuml.Proofs.Layered.Bundles
import Yuml.Proofs.Layered.Proper

namespace Yuml.Layered

open Number

namespace Augmented

def Spans (a : Augmented) (u v : Text) (ids : List Text) : Prop :=
  ∃ m n : Int, a.layers.layer u = .ok m ∧ a.layers.layer v = .ok n ∧ m ≠ n ∧ ids.length + 1 = (n - m).natAbs ∧
    ∀ (i : Nat) (id : Text), ids[i]? = some id →
      isDummy id = true ∧ a.layers.layer id = .ok (m + (i + 1) * (n - m).sign)

theorem Spans.reverse {a : Augmented} {u v : Text} {ids : List Text} (h : a.Spans u v ids) :
    a.Spans v u ids.reverse := by
  obtain ⟨m, n, hu, hv, hne, hlength, hids⟩ := h
  have hsign : (m - n).sign = -(n - m).sign := by rw [← Int.sign_neg, Int.neg_sub]
  have habs : (m - n).natAbs = (n - m).natAbs := by omega
  refine ⟨n, m, hv, hu, hne.symm, by rw [List.length_reverse, habs, hlength], fun i id hid => ?_⟩
  have hi : i < ids.length := by
    have := (List.getElem?_eq_some_iff.mp hid).1
    rwa [List.length_reverse] at this
  rw [List.getElem?_reverse hi] at hid
  obtain ⟨hdummy, hlayer⟩ := hids _ id hid
  refine ⟨hdummy, hlayer.trans (congrArg _ ?_)⟩
  have hspan : (n - m).sign * (ids.length + 1 : Nat) = n - m := by rw [hlength, Int.sign_mul_natAbs]
  have hcast : ((ids.length - 1 - i : Nat) : Int) = ids.length - 1 - i := by omega
  rw [hsign, hcast]
  push_cast at hspan
  linarith

theorem Spans.layer_ne {a : Augmented} {u v w : Text} {ids : List Text} (h : a.Spans u v ids) (hw : w ∈ ids ++ [v]) :
    a.layers.layer u ≠ a.layers.layer w := by
  obtain ⟨m, n, hu, hv, hne, -, hids⟩ := h
  rw [hu]
  rcases List.mem_append.mp hw with hw | hw
  · obtain ⟨i, hi⟩ := List.mem_iff_getElem?.mp hw
    rw [(hids i w hi).2]
    intro heq
    have hmoved : ((i : Int) + 1) * (n - m).sign = 0 := by
      have := Except.ok.inj heq
      omega
    rcases Int.mul_eq_zero.mp hmoved with hi | hsign
    · omega
    · have := Int.sign_eq_zero_iff_zero.mp hsign
      omega
  · rw [List.mem_singleton.mp hw, hv]
    exact fun heq => hne (Except.ok.inj heq)

section

variable {g : Digraph Text} {l : Layering Text} {a : Augmented}

theorem Strung.spans (h : a.Strung g l g.edgesByTail.length 0) (hreal : ∀ v ∈ g.nodes, isDummy v = false)
    (s : Strand g l) : a.Spans s.edge.1 s.edge.2 s.dummies := by
  have hpos := s.span_pos
  have hspan : s.top + s.span - s.top = (s.span : Int) := by omega
  refine ⟨s.top, s.top + s.span, h.tail_layer hreal s, h.head_layer hreal s, by omega, ?_, fun i id hid => ?_⟩
  · rw [s.length_dummies]
    omega
  · obtain ⟨hi, rfl⟩ := Strand.getElem?_dummies hid
    refine ⟨(Strand.isDummy_nodeAt hreal).mpr ⟨Nat.succ_pos i, hi⟩, (h.layer_nodeAt hreal hi.le).trans ?_⟩
    rw [hspan, Int.sign_eq_one_of_pos (by omega), mul_one]
    rfl

theorem Listed.exists_of_mem_chain (h : a.Listed g l g.edgesByTail.length) {u v id : Text} (hid : id ∈ a.chain u v) :
    ∃ s : Strand g l, s.edge = (u, v) ∧ id ∈ s.dummies := by
  rw [chain] at hid
  cases hfound : a.chains.find? (·.1 = (u, v)) with
  | none =>
    rw [hfound] at hid
    cases hid
  | some c =>
    rw [hfound] at hid
    obtain ⟨s, -, rfl⟩ := h.mem_iff.mp (List.mem_of_find?_eq_some hfound)
    exact ⟨s, by simpa using List.find?_some hfound, hid⟩

end

end Augmented

namespace Arrangement

variable {g : Digraph Text} {a : Arrangement} (hreal : ∀ v ∈ g.nodes, isDummy v = false)
  (h : Arrangement.ofGraph g = .ok a)

include hreal h

theorem exists_strung :
    ∃ l : Layering Text, (∀ e ∈ g.removeCycles.dag.edges, l.Above e.1 e.2) ∧
      a.augmented.Strung g.removeCycles.dag l g.removeCycles.dag.edgesByTail.length 0 ∧
      a.augmented.Listed g.removeCycles.dag l g.removeCycles.dag.edgesByTail.length := by
  obtain ⟨l, hl, ha, -, -⟩ := of_ofGraph h
  have habove := above_of_assignLayers g.acyclic_removeCycles hl
  have hkeys := (reached_of_assignLayers g.acyclic_removeCycles hl).keys
  refine ⟨l, habove, Augmented.strung_of_insertDummies ?_ hkeys habove ha⟩
  rwa [g.nodes_removeCycles]

theorem spans_chainOf {e : Edge} (he : (e.tail, e.head) ∈ g.edges) (hne : e.tail ≠ e.head) :
    a.augmented.Spans e.tail e.head (chainOf a.augmented a.turned e) := by
  obtain ⟨l, habove, hstrung, hlisted⟩ := exists_strung hreal h
  obtain ⟨-, -, -, -, hturned⟩ := of_ofGraph h
  have hdag := Digraph.mem_edges_removeCycles.mpr ⟨_, he, hne, rfl⟩
  obtain ⟨s, hs⟩ := Strand.exists_of_mem habove hdag
  have hspans := hstrung.spans (by rwa [g.nodes_removeCycles]) s
  rw [← hlisted.chain_eq, hs, Digraph.forward_greedyOrder he hne] at hspans
  simp only [chainOf, hturned, List.contains_iff_mem]
  split
  · next hmem =>
    rw [if_pos hmem] at hspans
    exact hspans.reverse
  · next hmem =>
    rw [if_neg hmem] at hspans
    exact hspans

theorem sameEnds_of_mem_chainOf {e f : Edge} {id : Text} (he : id ∈ chainOf a.augmented a.turned e)
    (hf : id ∈ chainOf a.augmented a.turned f) : SameEnds e f := by
  obtain ⟨l, -, -, hlisted⟩ := exists_strung hreal h
  have hstrand {e : Edge} (he : id ∈ chainOf a.augmented a.turned e) :
      ∃ s : Strand g.removeCycles.dag l, (s.edge = (e.tail, e.head) ∨ s.edge = (e.head, e.tail)) ∧ id ∈ s.dummies := by
    rw [chainOf] at he
    split at he
    · obtain ⟨s, hs, hid⟩ := hlisted.exists_of_mem_chain (List.mem_reverse.mp he)
      exact ⟨s, .inr hs, hid⟩
    · obtain ⟨s, hs, hid⟩ := hlisted.exists_of_mem_chain he
      exact ⟨s, .inl hs, hid⟩
  obtain ⟨s, hs, hids⟩ := hstrand he
  obtain ⟨t, ht, hidt⟩ := hstrand hf
  have hst : s = t := by
    by_contra hne
    exact Strand.disjoint_dummies (by rwa [g.nodes_removeCycles]) hne hids hidt
  subst hst
  exact sameEnds_of_eq hs ht

end Arrangement

section AnyScalar

variable {α : Type} [Scalar α]

/-- Whether a route leads from one box to another, through the middles of the named dummies: one in each layer between
theirs, and all of it moved by a shift. It leaves either box toward the next dummy, or toward the other box. -/
structure Route.Threads (l : Layout α) (tail head : Place α) (ids : List Text) (shift : α) (r : Route α) : Prop where
  layer_ne : tail.layer ≠ head.layer
  passes : ids.length + 1 = ((head.layer : Int) - tail.layer).natAbs
  length : r.waypoints.length = ((head.layer : Int) - tail.layer).natAbs + 1
  start : r.waypoints.head? = some ((tail.moveTo (tail.centre.shift l.direction shift)).clip
    (r.waypoints.tail.dropLast.headD (head.centre.shift l.direction shift)))
  finish : r.waypoints.getLast? = some ((head.moveTo (head.centre.shift l.direction shift)).clip
    (r.waypoints.tail.dropLast.getLastD (tail.centre.shift l.direction shift)))
  inner : ∀ (i : Nat) (id : Text), ids[i]? = some id → ∃ q ∈ l.dummies, q.id = id ∧
    (q.layer : Int) = tail.layer + (i + 1) * ((head.layer : Int) - tail.layer).sign ∧
    r.waypoints[i + 1]? = some (q.centre.shift l.direction shift)

theorem getElem?_lineThrough (tail head : Place α) (first last : Point α) {inner : List (Point α)} {i : Nat}
    {c : Point α} (h : inner[i]? = some c) : (lineThrough tail head first inner last)[i + 1]? = some c := by
  have hi := (List.getElem?_eq_some_iff.mp h).1
  rw [lineThrough, List.cons_append, List.getElem?_cons_succ, List.getElem?_append_left hi, h]

theorem inner_lineThrough (tail head : Place α) (first last : Point α) (inner : List (Point α)) :
    (lineThrough tail head first inner last).tail.dropLast = inner :=
  List.dropLast_concat

theorem head?_lineThrough (tail head : Place α) (first last : Point α) (inner : List (Point α)) :
    (lineThrough tail head first inner last).head? = some ((tail.moveTo first).clip (inner.headD last)) := by
  cases inner <;> rfl

theorem getLast?_lineThrough (tail head : Place α) (first last : Point α) (inner : List (Point α)) :
    (lineThrough tail head first inner last).getLast? = some ((head.moveTo last).clip (inner.getLastD first)) := by
  rw [lineThrough, List.getLastD_cons]
  exact List.getLast?_concat

namespace Layout

variable {s : Sketch α} {a : Arrangement} {rankGap nodeGap : α} {l : Layout α}

theorem drawn_ofArrangement (h : ofArrangement s a rankGap nodeGap = .ok l) :
    l.direction = s.direction ∧
      l.dummies = ((Plan.mk s.direction s.size rankGap nodeGap).places a.augmented.graph a.rows).filter (isDummy ·.id) := by
  obtain ⟨routes, -, h⟩ := Except.bind_eq_ok.mp h
  obtain ⟨nodes, -, h⟩ := Except.bind_eq_ok.mp h
  obtain rfl := Except.ok.inj h
  exact ⟨rfl, rfl⟩

theorem map_routes (h : ofArrangement s a rankGap nodeGap = .ok l) :
    l.routes.map (fun r => (r.edge, r.number)) = s.edges.zipIdx := by
  have hroutes : List.Forall₂ (fun (e : Edge × Nat) (r : Route α) => e = (r.edge, r.number)) s.edges.zipIdx l.routes :=
    (Except.forall₂_of_mapM (of_ofArrangement h).1).imp fun e r hr =>
      (Prod.ext (edge_of_route hr).1 (edge_of_route hr).2).symm
  rw [← List.forall₂_map_right_iff (R := Eq), List.forall₂_eq_eq_eq] at hroutes
  exact hroutes.symm

theorem threads_of_mem_routes (hreal : ∀ id ∈ s.graph.nodes, isDummy id = false)
    (ha : Arrangement.ofGraph s.graph = .ok a) (hextends : a.augmented.Extends s.graph)
    (hperm : a.rows.flatten.Perm a.augmented.graph.nodes) (h : ofArrangement s a rankGap nodeGap = .ok l)
    {r : Route α} (hr : r ∈ l.routes) (hne : r.edge.tail ≠ r.edge.head) :
    ∃ tail head, l.node? r.edge.tail = some tail ∧ l.node? r.edge.head = some head ∧
      r.Threads l tail head (chainOf a.augmented a.turned r.edge) (parallelShift (bundle s.edges r.edge) r.number) := by
  obtain ⟨-, -, -, harrange, -⟩ := Arrangement.of_ofGraph ha
  obtain ⟨hdirection, hdummies⟩ := drawn_ofArrangement h
  obtain ⟨hnumber, hroute⟩ := exists_edge_of_mem_routes h hr
  have hedge := s.edge_mem _ (List.mem_of_getElem? hnumber)
  obtain ⟨tail, htail, htailPlace⟩ := exists_node? hextends hperm h (Digraph.fst_mem hedge)
  obtain ⟨head, hhead, hheadPlace⟩ := exists_node? hextends hperm h (Digraph.snd_mem hedge)
  obtain ⟨_, _, dummies, htail', hhead', hchain, hline⟩ := line_of_route hroute hne
  obtain rfl := Except.ok.inj (htailPlace.symm.trans htail')
  obtain rfl := Except.ok.inj (hheadPlace.symm.trans hhead')
  have hlayer {id : Text} {q : Place α} {n : Int}
      (hq : placeOf ((Plan.mk s.direction s.size rankGap nodeGap).places a.augmented.graph a.rows) id = .ok q)
      (hn : a.augmented.layers.layer id = .ok n) : (q.layer : Int) = n := by
    obtain ⟨hmem, rfl⟩ := of_placeOf hq
    exact Except.ok.inj ((Plan.layer_of_mem_places hextends.covers harrange hmem).symm.trans hn)
  obtain ⟨m, n, hm, hn, hmn, hlength, hids⟩ := Arrangement.spans_chainOf hreal ha hedge hne
  obtain rfl := hlayer htailPlace hm
  obtain rfl := hlayer hheadPlace hn
  have hplaces := Except.forall₂_of_mapM hchain
  refine ⟨tail, head, htail, hhead, ?_⟩
  rw [← hdirection] at hline
  refine ⟨by exact_mod_cast hmn, hlength, ?_, ?_, ?_, fun i id hid => ?_⟩
  · rw [hline, ← hlength, hplaces.length_eq]
    simp only [lineThrough, List.length_append, List.length_cons, List.length_map, List.length_nil]
  · rw [hline, head?_lineThrough, inner_lineThrough]
  · rw [hline, getLast?_lineThrough, inner_lineThrough]
  · obtain ⟨q, hq, hplace⟩ := hplaces.exists_getElem? hid
    obtain ⟨hmem, hkey⟩ := of_placeOf hplace
    obtain ⟨hdummy, hn⟩ := hids i id hid
    refine ⟨q, ?_, hkey, hlayer hplace hn, ?_⟩
    · rw [hdummies]
      exact List.mem_filter.mpr ⟨hmem, by rwa [hkey]⟩
    · rw [hline]
      exact getElem?_lineThrough _ _ _ _ (by rw [List.getElem?_map, hq]; rfl)

theorem ofSketch_threads_dummies (hreal : ∀ id ∈ s.graph.nodes, isDummy id = false) (rankGap nodeGap : α) :
    ∃ a l, Arrangement.ofGraph s.graph = .ok a ∧ ofSketch s rankGap nodeGap = .ok l ∧
      l.routes.map (fun r => (r.edge, r.number)) = s.edges.zipIdx ∧
      (∀ r ∈ l.routes, r.edge.tail = r.edge.head → ∃ q, l.node? r.edge.tail = some q ∧ r.waypoints = q.loop) ∧
      (∀ r ∈ l.routes, r.edge.tail ≠ r.edge.head → ∃ tail head,
        l.node? r.edge.tail = some tail ∧ l.node? r.edge.head = some head ∧
          r.Threads l tail head (chainOf a.augmented a.turned r.edge)
            (parallelShift (bundle s.edges r.edge) r.number)) ∧
      ∀ e ∈ s.edges, ∀ f ∈ s.edges, ∀ id, id ∈ chainOf a.augmented a.turned e →
        id ∈ chainOf a.augmented a.turned f → SameEnds e f := by
  obtain ⟨a, ha, hextends, hperm, -⟩ := Arrangement.ofGraph_ok s.graph
  obtain ⟨l, hl, -⟩ := ofArrangement_ok hextends hperm rankGap nodeGap
  refine ⟨a, l, ha, by rw [ofSketch, ha]; exact hl, map_routes hl, fun r hr hloop => ?_, fun r hr hne => ?_,
    fun e _ f _ id hide hidf => Arrangement.sameEnds_of_mem_chainOf hreal ha hide hidf⟩
  · obtain ⟨hnumber, hroute⟩ := exists_edge_of_mem_routes hl hr
    obtain ⟨q, hq, hplace⟩ :=
      exists_node? hextends hperm hl (Digraph.fst_mem (s.edge_mem _ (List.mem_of_getElem? hnumber)))
    obtain ⟨_, hplace', hwaypoints⟩ := loop_of_route hroute hloop
    obtain rfl := Except.ok.inj (hplace.symm.trans hplace')
    exact ⟨q, hq, hwaypoints⟩
  · exact threads_of_mem_routes hreal ha hextends hperm hl hr hne

theorem ofSketch_threads_dummies_both_ways :
    let ends : List (String × String) := [("a", "b"), ("b", "c"), ("a", "c"), ("c", "a"), ("c", "a"), ("b", "b")]
    let edges : List Edge := ends.map fun e => { tail := e.1, head := e.2 }
    let sizes : List (Text × Rat × Rat) := [("a", 40, 20), ("b", 10, 30), ("c", 25, 10)]
    let s := Sketch.ofDocument { direction := .rightToLeft, edges } sizes
    ∃ a l, Arrangement.ofGraph s.graph = .ok a ∧ ofSketch s 50 30 = .ok l ∧
      l.routes.map (fun r => (r.edge, r.number)) = s.edges.zipIdx ∧
      (∀ r ∈ l.routes, r.edge.tail = r.edge.head → ∃ q, l.node? r.edge.tail = some q ∧ r.waypoints = q.loop) ∧
      (∀ r ∈ l.routes, r.edge.tail ≠ r.edge.head → ∃ tail head,
        l.node? r.edge.tail = some tail ∧ l.node? r.edge.head = some head ∧
          r.Threads l tail head (chainOf a.augmented a.turned r.edge)
            (parallelShift (bundle s.edges r.edge) r.number)) ∧
      ∀ e ∈ s.edges, ∀ f ∈ s.edges, ∀ id, id ∈ chainOf a.augmented a.turned e →
        id ∈ chainOf a.augmented a.turned f → SameEnds e f :=
  ofSketch_threads_dummies (by decide +kernel) 50 30

end Layout

end AnyScalar

end Yuml.Layered
