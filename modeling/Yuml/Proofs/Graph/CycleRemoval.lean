import Mathlib.Data.List.Perm.Basic
import Yuml.Proofs.Graph.Basic
import Yuml.Proofs.Graph.Greatest

namespace Yuml.Digraph

variable {V : Type} [DecidableEq V] {g : Digraph V}

theorem map_node_drop (tallies : List (Tally V)) (v : V) :
    (g.drop tallies v).map (·.node) = (tallies.map (·.node)).filter (· ≠ v) := by
  simp only [drop, List.map_map, List.filter_map]
  rfl

theorem map_node_foldl_drop (vs : List V) (tallies : List (Tally V)) :
    (vs.foldl g.drop tallies).map (·.node) = (tallies.map (·.node)).filter (· ∉ vs) := by
  induction vs generalizing tallies with
  | nil => simp
  | cons v vs ih =>
    rw [List.foldl_cons, ih, map_node_drop, List.filter_filter]
    congr 1
    funext w
    simp [Bool.and_comm]

omit [DecidableEq V] in
theorem nodesWith_sublist (p : Tally V → Bool) (tallies : List (Tally V)) :
    (nodesWith p tallies).Sublist (tallies.map (·.node)) :=
  List.filter_sublist.map _

theorem perm_of_batch {ns batch rest : List V} (hns : ns.Nodup) (hbatch : batch.Sublist ns)
    (hrest : rest.Perm (ns.filter (· ∉ batch))) : (batch ++ rest).Perm ns := by
  refine (List.perm_ext_iff_of_nodup ?_ hns).mpr fun v => ?_
  · refine List.nodup_append.mpr ⟨hbatch.nodup hns, hrest.nodup_iff.mpr (hns.filter _), ?_⟩
    rintro v hv _ hw rfl
    simpa [hv] using hrest.mem_iff.mp hw
  · have hmem : v ∈ batch → v ∈ ns := fun h => hbatch.subset h
    rw [List.mem_append, hrest.mem_iff, List.mem_filter]
    by_cases hv : v ∈ batch <;> simp [hv, hmem]

theorem greedyOrderOf_perm {tallies : List (Tally V)} (h : (tallies.map (·.node)).Nodup) :
    (g.greedyOrderOf tallies).Perm (tallies.map (·.node)) := by
  induction tallies using greedyOrderOf.induct g with
  | case1 tallies hsinks _ ih =>
    rw [greedyOrderOf, dif_pos hsinks]
    have hrest := ih (by rw [map_node_foldl_drop]; exact h.filter _)
    rw [map_node_foldl_drop] at hrest
    have hall := perm_of_batch h (nodesWith_sublist _ tallies) hrest
    exact (List.perm_append_comm.trans ((List.reverse_perm _).append_right _)).trans hall
  | case2 tallies hsinks hsources _ ih =>
    rw [greedyOrderOf, dif_neg hsinks, dif_pos hsources]
    have hrest := ih (by rw [map_node_foldl_drop]; exact h.filter _)
    rw [map_node_foldl_drop] at hrest
    exact perm_of_batch h (nodesWith_sublist _ tallies) hrest
  | case3 tallies hsinks hsources hbest =>
    rw [greedyOrderOf, dif_neg hsinks, dif_neg hsources]
    split
    · simp [firstGreatest?_eq_none hbest]
    · next h => simp [hbest] at h
  | case4 tallies hsinks hsources best hbest _ ih =>
    rw [greedyOrderOf, dif_neg hsinks, dif_neg hsources]
    split
    · next h => simp [hbest] at h
    · next b hb =>
      obtain rfl : b = best := by simpa [hbest] using hb.symm
      have hrest := ih (by rw [map_node_drop]; exact h.filter _)
      have hmem : b.node ∈ tallies.map (·.node) := List.mem_map_of_mem (firstGreatest?_mem hbest)
      rw [map_node_drop] at hrest
      refine perm_of_batch h (List.singleton_sublist.mpr hmem) ?_
      simpa using hrest

theorem greedyOrder_perm (g : Digraph V) : g.greedyOrder.Perm g.nodes := by
  have hnodes : (g.nodes.map fun v =>
      (⟨v, (g.successors v).length, (g.predecessors v).length⟩ : Tally V)).map (·.node) = g.nodes := by
    rw [List.map_map]
    exact List.map_id g.nodes
  have h := greedyOrderOf_perm (g := g) (hnodes.symm ▸ g.nodes_nodup)
  rwa [hnodes] at h

def Backward (order : List V) (e : V × V) : Prop :=
  order.idxOf e.2 < order.idxOf e.1

instance (order : List V) (e : V × V) : Decidable (Backward order e) :=
  inferInstanceAs (Decidable (_ < _))

def forward (order : List V) (e : V × V) : V × V :=
  if Backward order e then (e.2, e.1) else e

namespace Unwound

variable {order : List V} {w : Unwound V}

theorem take_loop {e : V × V} (h : e.1 = e.2) : w.take order e = w := by
  rw [take, if_pos h]

theorem dag_take {e : V × V} (h : e.1 ≠ e.2) :
    (w.take order e).dag = w.dag.addEdge (forward order e).1 (forward order e).2 := by
  rw [take, if_neg h]
  by_cases hb : Backward order e
  · rw [forward, if_pos hb, if_pos (by exact hb)]
  · rw [forward, if_neg hb, if_neg (by exact hb)]

theorem turned_take {e : V × V} (h : e.1 ≠ e.2) :
    (w.take order e).turned = if Backward order e then w.turned ++ [e] else w.turned := by
  rw [take, if_neg h]
  by_cases hb : Backward order e
  · rw [if_pos hb, if_pos (by exact hb)]
  · rw [if_neg hb, if_neg (by exact hb)]

theorem nodes_foldl_take {es : List (V × V)} (h : ∀ e ∈ es, e.1 ∈ w.dag.nodes ∧ e.2 ∈ w.dag.nodes) :
    (es.foldl (take order) w).dag.nodes = w.dag.nodes := by
  induction es generalizing w with
  | nil => rfl
  | cons e es ih =>
    have he := h e List.mem_cons_self
    have hstep : (w.take order e).dag.nodes = w.dag.nodes := by
      by_cases hl : e.1 = e.2
      · rw [take_loop hl]
      · rw [dag_take hl, forward]
        split
        · exact nodes_addEdge_of_mem he.2 he.1
        · exact nodes_addEdge_of_mem he.1 he.2
    rw [List.foldl_cons, ih, hstep]
    rw [hstep]
    exact fun d hd => h d (List.mem_cons_of_mem _ hd)

theorem mem_edges_foldl_take {es : List (V × V)} {d : V × V} :
    d ∈ (es.foldl (take order) w).dag.edges ↔
      d ∈ w.dag.edges ∨ ∃ e ∈ es, e.1 ≠ e.2 ∧ d = forward order e := by
  induction es generalizing w with
  | nil => simp
  | cons e es ih =>
    rw [List.foldl_cons, ih]
    by_cases hl : e.1 = e.2
    · simp [take_loop hl, hl]
    · simp [dag_take hl, mem_edges_addEdge, hl, or_assoc]

theorem mem_turned_foldl_take {es : List (V × V)} {d : V × V} :
    d ∈ (es.foldl (take order) w).turned ↔
      d ∈ w.turned ∨ d ∈ es ∧ d.1 ≠ d.2 ∧ Backward order d := by
  induction es generalizing w with
  | nil => simp
  | cons e es ih =>
    rw [List.foldl_cons, ih, List.mem_cons]
    by_cases hl : e.1 = e.2
    · rw [take_loop hl]
      by_cases hd : d = e
      · simp [hd, hl]
      · simp [hd]
    · rw [turned_take hl]
      by_cases hd : d = e
      · by_cases hb : Backward order e <;> simp [hd, hl, hb]
      · by_cases hb : Backward order e <;> simp [hd, hb]

end Unwound

theorem nodes_removeCycles (g : Digraph V) : g.removeCycles.dag.nodes = g.nodes := by
  have hnodes := nodes_ofLists_nil g.nodes_nodup
  rw [removeCycles, Unwound.nodes_foldl_take, hnodes]
  intro e he
  rw [hnodes]
  exact g.ends_mem e (mem_edgesByTail.mp he)

theorem mem_edges_removeCycles {e : V × V} :
    e ∈ g.removeCycles.dag.edges ↔ ∃ d ∈ g.edges, d.1 ≠ d.2 ∧ e = forward g.greedyOrder d := by
  rw [removeCycles, Unwound.mem_edges_foldl_take]
  simp [edges_ofLists_nil, mem_edgesByTail]

theorem mem_turned {e : V × V} :
    e ∈ g.removeCycles.turned ↔ e ∈ g.edges ∧ e.1 ≠ e.2 ∧ Backward g.greedyOrder e := by
  rw [removeCycles, Unwound.mem_turned_foldl_take]
  simp [mem_edgesByTail]

theorem mem_turned_swap {u v : V} (h : (u, v) ∈ g.edges) (h' : (v, u) ∈ g.edges) (hne : u ≠ v) :
    (v, u) ∈ g.removeCycles.turned ↔ (u, v) ∉ g.removeCycles.turned := by
  have hu : u ∈ g.greedyOrder := (greedyOrder_perm g).mem_iff.mpr (fst_mem h)
  have hrank : g.greedyOrder.idxOf u ≠ g.greedyOrder.idxOf v := mt (List.idxOf_inj hu).mp hne
  simp only [mem_turned, h, h', hne, hne.symm, Backward, ne_eq, not_false_eq_true, true_and]
  omega

theorem forward_greedyOrder {u v : V} (h : (u, v) ∈ g.edges) (hl : u ≠ v) :
    forward g.greedyOrder (u, v) = if (u, v) ∈ g.removeCycles.turned then (v, u) else (u, v) := by
  by_cases hb : Backward g.greedyOrder (u, v)
  · rw [forward, if_pos hb, if_pos (mem_turned.mpr ⟨h, hl, hb⟩)]
  · rw [forward, if_neg hb, if_neg fun ht => hb (mem_turned.mp ht).2.2]

theorem acyclic_removeCycles (g : Digraph V) : g.removeCycles.dag.Acyclic := by
  apply acyclic_of_lt (f := g.greedyOrder.idxOf)
  intro e he
  obtain ⟨d, hd, hl, rfl⟩ := mem_edges_removeCycles.mp he
  have hmem : d.1 ∈ g.greedyOrder := (greedyOrder_perm g).mem_iff.mpr (fst_mem hd)
  have hne : g.greedyOrder.idxOf d.1 ≠ g.greedyOrder.idxOf d.2 := fun h =>
    hl (List.idxOf_inj hmem |>.mp h)
  by_cases hb : Backward g.greedyOrder d
  · rw [forward, if_pos hb]
    exact hb
  · rw [forward, if_neg hb]
    exact Nat.lt_of_le_of_ne (Nat.le_of_not_lt hb) hne

theorem removeCycles_orients (g : Digraph V) :
    g.greedyOrder.Perm g.nodes ∧
    g.removeCycles.dag.nodes = g.nodes ∧
    g.removeCycles.dag.Acyclic ∧
    (∀ e, e ∈ g.removeCycles.dag.edges ↔ ∃ u v, (u, v) ∈ g.edges ∧ u ≠ v ∧
      e = if (u, v) ∈ g.removeCycles.turned then (v, u) else (u, v)) ∧
    ∀ e ∈ g.removeCycles.turned, e ∈ g.edges ∧ e.1 ≠ e.2 := by
  refine ⟨greedyOrder_perm g, nodes_removeCycles g, acyclic_removeCycles g, fun e => ?_, fun e he => ?_⟩
  · rw [mem_edges_removeCycles]
    constructor
    · rintro ⟨⟨u, v⟩, hd, hl, rfl⟩
      exact ⟨u, v, hd, hl, forward_greedyOrder hd hl⟩
    · rintro ⟨u, v, hd, hl, rfl⟩
      exact ⟨(u, v), hd, hl, (forward_greedyOrder hd hl).symm⟩
  · exact ⟨(mem_turned.mp he).1, (mem_turned.mp he).2.1⟩

end Yuml.Digraph
