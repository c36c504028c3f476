import Yuml.Proofs.Graph.Iteration

namespace List

variable {α : Type}

theorem countP_eq_add {xs : List α} {p q r : α → Prop} [DecidablePred p] [DecidablePred q] [DecidablePred r]
    (h : ∀ x ∈ xs, p x ↔ q x ∨ r x) (hne : ∀ x ∈ xs, q x → ¬ r x) :
    xs.countP (p ·) = xs.countP (q ·) + xs.countP (r ·) := by
  induction xs with
  | nil => rfl
  | cons x xs ih =>
    obtain ⟨hx, hxs⟩ := forall_mem_cons.mp h
    obtain ⟨hnx, hnxs⟩ := forall_mem_cons.mp hne
    simp only [countP_cons, ih hxs hnxs, decide_eq_true_iff, hx]
    by_cases hq : q x
    · simp only [hq, hnx hq, true_or, if_true, if_false]
      omega
    · simp only [hq, false_or, if_false]
      omega

end List

namespace Yuml.Digraph

variable {V : Type} [DecidableEq V]

def Before (vs : List V) (u v : V) : Prop :=
  vs.idxOf u < vs.idxOf v ∧ v ∈ vs

instance (vs : List V) (u v : V) : Decidable (Before vs u v) :=
  inferInstanceAs (Decidable (_ ∧ _))

namespace Before

variable {us vs : List V} {u v : V}

theorem mem (h : Before vs u v) : u ∈ vs ∧ v ∈ vs :=
  ⟨List.idxOf_lt_length_iff.mp (Nat.lt_trans h.1 (List.idxOf_lt_length_iff.mpr h.2)), h.2⟩

theorem append_iff (hdisjoint : us.Disjoint vs) :
    Before (us ++ vs) u v ↔ Before us u v ∨ (u ∈ us ∧ v ∈ vs) ∨ Before vs u v := by
  have hlt {w : V} (h : w ∈ us) : us.idxOf w < us.length := List.idxOf_lt_length_iff.mpr h
  unfold Before
  rw [List.idxOf_append, List.idxOf_append, List.mem_append]
  by_cases hu : u ∈ us
  · by_cases hv : v ∈ us
    · have hv' : v ∉ vs := hdisjoint hv
      simp [hu, hv, hv']
    · have hless : us.idxOf u < vs.idxOf v + us.length := Nat.lt_add_left _ (hlt hu)
      simp +contextual [hu, hv, hless]
  · by_cases hv : v ∈ us
    · have hv' : v ∉ vs := hdisjoint hv
      have hbound := hlt hv
      have hnot : ¬ us.length < us.idxOf v := by omega
      have hnot' : ¬ vs.idxOf u + us.length < us.idxOf v := by omega
      simp [hu, hv, hv', hnot, hnot']
    · simp [hu, hv]

theorem not_symm (h : Before vs u v) : ¬ Before vs v u :=
  fun h' => Nat.lt_asymm h.1 h'.1

end Before

variable (g : Digraph V)

def ways (us vs : List V) : Nat :=
  g.edges.countP fun e => e.1 ∈ us ∧ e.2 ∈ vs

def ahead (vs : List V) : Nat :=
  g.edges.countP fun e => Before vs e.1 e.2

def back (vs : List V) : Nat :=
  g.edges.countP fun e => Before vs e.2 e.1

section Counts

variable {g} {us us' vs vs' : List V}

theorem ways_congr (hus : ∀ v, v ∈ us ↔ v ∈ us') (hvs : ∀ v, v ∈ vs ↔ v ∈ vs') : g.ways us vs = g.ways us' vs' :=
  List.countP_congr fun e _ => by simp only [hus, hvs]

theorem ways_append_left (h : us.Disjoint us') (vs : List V) :
    g.ways (us ++ us') vs = g.ways us vs + g.ways us' vs := by
  refine List.countP_eq_add (fun e _ => ?_) fun e _ he he' => h he.1 he'.1
  rw [List.mem_append, or_and_right]

theorem ways_append_right (us : List V) (h : vs.Disjoint vs') :
    g.ways us (vs ++ vs') = g.ways us vs + g.ways us vs' := by
  refine List.countP_eq_add (fun e _ => ?_) fun e _ he he' => h he.2 he'.2
  rw [List.mem_append, and_or_left]

theorem ways_eq_zero (h : ∀ u ∈ us, ∀ v ∈ vs, (u, v) ∉ g.edges) : g.ways us vs = 0 :=
  List.countP_eq_zero.mpr fun e he hends =>
    let ⟨hu, hv⟩ := of_decide_eq_true hends
    h e.1 hu e.2 hv he

theorem ahead_append (h : us.Disjoint vs) : g.ahead (us ++ vs) = g.ahead us + (g.ways us vs + g.ahead vs) := by
  have hcross : g.edges.countP (fun e => (e.1 ∈ us ∧ e.2 ∈ vs) ∨ Before vs e.1 e.2) = g.ways us vs + g.ahead vs :=
    List.countP_eq_add (fun _ _ => Iff.rfl) fun e _ he hlater => h he.1 hlater.mem.1
  rw [← hcross]
  refine List.countP_eq_add (fun e _ => Before.append_iff h) fun e _ he hother => ?_
  exact hother.elim (fun hends => h he.mem.2 hends.2) fun hlater => h he.mem.1 hlater.mem.1

theorem back_append (h : us.Disjoint vs) : g.back (us ++ vs) = g.back us + (g.ways vs us + g.back vs) := by
  have hcross : g.edges.countP (fun e => (e.2 ∈ us ∧ e.1 ∈ vs) ∨ Before vs e.2 e.1) = g.ways vs us + g.back vs :=
    List.countP_eq_add (fun _ _ => or_congr_left and_comm) fun e _ he hlater => h he.2 hlater.mem.1
  rw [← hcross]
  refine List.countP_eq_add (fun e _ => Before.append_iff h) fun e _ he hother => ?_
  exact hother.elim (fun hends => h he.mem.2 hends.2) fun hlater => h he.mem.1 hlater.mem.1

theorem back_le_ahead_append (h : us.Disjoint vs) (hus : g.back us ≤ g.ahead us) (hvs : g.back vs ≤ g.ahead vs)
    (hways : g.ways vs us ≤ g.ways us vs) : g.back (us ++ vs) ≤ g.ahead (us ++ vs) := by
  rw [back_append h, ahead_append h]
  omega

theorem Ordered.back_eq_zero (h : g.Ordered vs) : g.back vs = 0 := by
  refine List.countP_eq_zero.mpr fun e he hback => ?_
  have hlater := of_decide_eq_true hback
  exact h.not_backward he hlater.mem.2 hlater.1

theorem ways_add_length_le (h : ∀ u ∈ us, g.ways [u] vs < g.ways vs [u]) (hus : us.Nodup) :
    g.ways us vs + us.length ≤ g.ways vs us := by
  induction us with
  | nil =>
    rw [ways_eq_zero (List.forall_mem_nil _)]
    exact Nat.zero_le _
  | cons u us ih =>
    obtain ⟨hu, hrest⟩ := List.forall_mem_cons.mp h
    obtain ⟨hnew, hnodup⟩ := List.nodup_cons.mp hus
    have hdisjoint : [u].Disjoint us := List.singleton_disjoint.mpr hnew
    have hleft := ways_append_left (g := g) hdisjoint vs
    have hright := ways_append_right (g := g) vs hdisjoint
    have hsum := ih hrest hnodup
    rw [List.singleton_append] at hleft hright
    rw [hleft, hright, List.length_cons]
    omega

/-- Some node has at least as many ways to the others as from them: there are as many of one kind as of the other. -/
theorem exists_ways_le (hvs : vs.Nodup) (hne : vs ≠ []) : ∃ v ∈ vs, g.ways vs [v] ≤ g.ways [v] vs := by
  by_contra! hall
  have hsum := ways_add_length_le hall hvs
  have hpos := List.length_pos_iff.mpr hne
  omega

end Counts

namespace Tallied

variable {g} {tallies : List (Tally V)} (h : Tallied g tallies)

include h

theorem outs_eq_ways {t : Tally V} (ht : t ∈ tallies) : t.outs = g.ways [t.node] (tallies.map (·.node)) := by
  rw [h.outs t ht, successors, List.filter_map, List.length_map, List.filter_filter, ← List.countP_eq_length_filter, ways]
  congr 2
  funext e
  simp [Bool.and_comm]

theorem ins_eq_ways {t : Tally V} (ht : t ∈ tallies) : t.ins = g.ways (tallies.map (·.node)) [t.node] := by
  rw [h.ins t ht, predecessors, List.filter_map, List.length_map, List.filter_filter, ← List.countP_eq_length_filter, ways]
  congr 2
  funext e
  simp

theorem ways_best_le {best : Tally V} (hbest : firstGreatest? (fun t => t.outs - t.ins) tallies = some best) :
    g.ways (tallies.map (·.node)) [best.node] ≤ g.ways [best.node] (tallies.map (·.node)) := by
  have hmem := firstGreatest?_mem hbest
  obtain ⟨v, hv, hsurplus⟩ := exists_ways_le (g := g) h.nodup (List.ne_nil_of_mem (List.mem_map_of_mem hmem))
  obtain ⟨t, ht, rfl⟩ := List.mem_map.mp hv
  have hmost := le_firstGreatest? hbest t ht
  rw [h.outs_eq_ways ht, h.ins_eq_ways ht, h.outs_eq_ways hmem, h.ins_eq_ways hmem] at hmost
  omega

end Tallied

theorem back_le_ahead_greedyOrderOf {g : Digraph V} {tallies : List (Tally V)} (h : Tallied g tallies) :
    g.back (g.greedyOrderOf tallies) ≤ g.ahead (g.greedyOrderOf tallies) := by
  -- what is taken stands at one end, and no more edges lead back between it and the rest than lead ahead
  induction tallies using greedyOrderOf.induct g with
  | case1 tallies hsinks _ ih =>
    have hsub := nodesWith_sublist (·.outs = 0) tallies
    have hkept {v : V} := h.mem_greedyOrderOf_foldl_drop (v := v) hsub
    rw [greedyOrderOf, dif_pos hsinks]
    apply back_le_ahead_append _ (ih (h.foldl_drop hsub))
    · rw [h.ordered_sinks.back_eq_zero]
      exact Nat.zero_le _
    · rw [ways_eq_zero fun v hv u hu => h.of_mem_sinks (List.mem_reverse.mp hv) u (hkept.mp hu).1]
      exact Nat.zero_le _
    · exact fun v hv hlast => (hkept.mp hv).2 (List.mem_reverse.mp hlast)
  | case2 tallies hsinks hsources _ ih =>
    have hsub := nodesWith_sublist (·.ins = 0) tallies
    have hkept {v : V} := h.mem_greedyOrderOf_foldl_drop (v := v) hsub
    rw [greedyOrderOf, dif_neg hsinks, dif_pos hsources]
    apply back_le_ahead_append _ _ (ih (h.foldl_drop hsub))
    · rw [ways_eq_zero fun u hu v hv => h.of_mem_sources hv u (hkept.mp hu).1]
      exact Nat.zero_le _
    · exact fun v hv hlater => (hkept.mp hlater).2 hv
    · rw [h.ordered_sources.back_eq_zero]
      exact Nat.zero_le _
  | case3 tallies hsinks hsources hbest =>
    rw [greedyOrderOf, dif_neg hsinks, dif_neg hsources]
    split
    · exact Nat.le_of_eq (Ordered.back_eq_zero .nil) |>.trans (Nat.zero_le _)
    · next heq => simp [hbest] at heq
  | case4 tallies hsinks hsources best hbest _ ih =>
    rw [greedyOrderOf, dif_neg hsinks, dif_neg hsources]
    split
    · next heq => simp [hbest] at heq
    · next b hb =>
      obtain rfl : b = best := by simpa [hbest] using hb.symm
      have hmem : b.node ∈ tallies.map (·.node) := List.mem_map_of_mem (firstGreatest?_mem hbest)
      have hsub := List.singleton_sublist.mpr hmem
      have hkept {v : V} : v ∈ g.greedyOrderOf (g.drop tallies b.node) ↔ v ∈ tallies.map (·.node) ∧ v ∉ [b.node] :=
        h.mem_greedyOrderOf_foldl_drop hsub
      have hdisjoint : [b.node].Disjoint (g.greedyOrderOf (g.drop tallies b.node)) := fun v hv hlater =>
        (hkept.mp hlater).2 hv
      have hactive (v : V) : v ∈ tallies.map (·.node) ↔ v ∈ [b.node] ++ g.greedyOrderOf (g.drop tallies b.node) := by
        rw [List.mem_append, hkept, List.mem_singleton]
        by_cases hv : v = b.node
        · simp [hv, hmem]
        · simp [hv]
      have hsurplus := h.ways_best_le hbest
      -- a loop of the best node counts on both sides
      rw [ways_congr hactive fun _ => Iff.rfl, ways_congr (fun _ => Iff.rfl) hactive, ways_append_left hdisjoint,
        ways_append_right _ hdisjoint] at hsurplus
      apply back_le_ahead_append hdisjoint _ (ih (h.foldl_drop hsub)) (Nat.le_of_add_le_add_left hsurplus)
      rw [Ordered.back_eq_zero (List.pairwise_singleton _ _)]
      exact Nat.zero_le _

theorem turned_foldl_take {order : List V} (es : List (V × V)) (w : Unwound V) :
    (es.foldl (Unwound.take order) w).turned = w.turned ++ es.filter fun e => e.1 ≠ e.2 ∧ Backward order e := by
  induction es generalizing w with
  | nil => rw [List.foldl_nil, List.filter_nil, List.append_nil]
  | cons e es ih =>
    rw [List.foldl_cons, ih, List.filter_cons]
    by_cases hloop : e.1 = e.2
    · simp [Unwound.take_loop hloop, hloop]
    · rw [Unwound.turned_take hloop]
      by_cases hback : Backward order e
      · simp [hloop, hback]
      · simp [hloop, hback]

theorem turned_eq (g : Digraph V) :
    g.removeCycles.turned = g.edgesByTail.filter fun e => e.1 ≠ e.2 ∧ Backward g.greedyOrder e :=
  turned_foldl_take g.edgesByTail _

theorem length_turned (g : Digraph V) : g.removeCycles.turned.length = g.back g.greedyOrder := by
  have hperm : g.edgesByTail.Perm g.edges :=
    (List.perm_ext_iff_of_nodup g.nodup_edgesByTail g.edges_nodup).mpr fun _ => mem_edgesByTail
  rw [turned_eq, ← List.countP_eq_length_filter, hperm.countP_eq]
  refine List.countP_congr fun e he => ?_
  have hmem : e.1 ∈ g.greedyOrder := (greedyOrder_perm g).mem_iff.mpr (fst_mem he)
  rw [decide_eq_true_iff, decide_eq_true_iff]
  refine ⟨fun h => ⟨h.2, hmem⟩, fun h => ⟨fun heq => ?_, h.1⟩⟩
  exact absurd h.1 (heq ▸ Nat.lt_irrefl _)

theorem length_nonLoops (g : Digraph V) :
    (g.edges.filter fun e => e.1 ≠ e.2).length = g.back g.greedyOrder + g.ahead g.greedyOrder := by
  have hmem {v : V} (hv : v ∈ g.nodes) : v ∈ g.greedyOrder := (greedyOrder_perm g).mem_iff.mpr hv
  rw [← List.countP_eq_length_filter]
  refine List.countP_eq_add (fun e he => ?_) fun e _ h => h.not_symm
  obtain ⟨htail, hhead⟩ := g.ends_mem e he
  rw [ne_eq, ← List.idxOf_inj (hmem htail)]
  unfold Before
  simp only [hmem htail, hmem hhead, and_true]
  omega

theorem removeCycles_turns_half (g : Digraph V) :
    g.greedyOrder.Perm g.nodes ∧
      g.removeCycles.turned.Nodup ∧
      (∀ e, e ∈ g.removeCycles.turned ↔ e ∈ g.edges ∧ e.1 ≠ e.2 ∧ Backward g.greedyOrder e) ∧
      2 * g.removeCycles.turned.length ≤ (g.edges.filter fun e => e.1 ≠ e.2).length := by
  refine ⟨greedyOrder_perm g, ?_, fun _ => mem_turned, ?_⟩
  · rw [turned_eq]
    exact g.nodup_edgesByTail.filter _
  · have hhalf : g.back g.greedyOrder ≤ g.ahead g.greedyOrder := back_le_ahead_greedyOrderOf g.tallied_nodes
    rw [length_turned, length_nonLoops]
    omega

end Yuml.Digraph
