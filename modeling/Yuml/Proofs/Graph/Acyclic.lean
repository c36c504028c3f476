import Yuml.Proofs.Graph.CycleRemoval
import Yuml.Proofs.Graph.Generations

namespace List

variable {α : Type} [DecidableEq α]

theorem Nodup.length_filter_ne {xs : List α} (h : xs.Nodup) (p : α → Bool) {v : α} (hv : p v = true) :
    (xs.filter fun w => p w && decide (w ≠ v)).length + (if v ∈ xs then 1 else 0) =
      (xs.filter p).length := by
  have herase : (xs.filter fun w => p w && decide (w ≠ v)) = (xs.filter p).erase v := by
    rw [(h.filter p).erase_eq_filter, filter_filter]
    apply filter_congr
    intro w _
    rw [Bool.and_comm, bne, decide_not]
    rfl
  rw [herase]
  by_cases hmem : v ∈ xs
  · have hfilter : v ∈ xs.filter p := mem_filter.mpr ⟨hmem, hv⟩
    have hpos := length_pos_of_mem hfilter
    rw [if_pos hmem, length_erase_of_mem hfilter]
    omega
  · have hfilter : v ∉ xs.filter p := fun hf => hmem (mem_filter.mp hf).1
    rw [if_neg hmem, erase_of_not_mem hfilter]
    omega

end List

namespace Yuml.Digraph

variable {V : Type} [DecidableEq V] {g : Digraph V}

theorem nodup_successors (g : Digraph V) (v : V) : (g.successors v).Nodup := by
  refine (List.nodup_map_iff_inj_on (g.edges_nodup.filter _)).mpr ?_
  rintro ⟨a, b⟩ ha ⟨c, d⟩ hc rfl
  simp only [List.mem_filter, decide_eq_true_iff] at ha hc
  rw [ha.2, hc.2]

theorem nodup_predecessors (g : Digraph V) (v : V) : (g.predecessors v).Nodup := by
  refine (List.nodup_map_iff_inj_on (g.edges_nodup.filter _)).mpr ?_
  rintro ⟨a, b⟩ ha ⟨c, d⟩ hc rfl
  simp only [List.mem_filter, decide_eq_true_iff] at ha hc
  rw [ha.2, hc.2]

structure Tallied (g : Digraph V) (tallies : List (Tally V)) : Prop where
  nodup : (tallies.map (·.node)).Nodup
  outs : ∀ t ∈ tallies,
    t.outs = ((g.successors t.node).filter (· ∈ tallies.map (·.node))).length
  ins : ∀ t ∈ tallies,
    t.ins = ((g.predecessors t.node).filter (· ∈ tallies.map (·.node))).length

namespace Tallied

variable {tallies : List (Tally V)}

theorem length_filter_drop {xs : List V} (hxs : xs.Nodup) {v : V} (hv : v ∈ tallies.map (·.node)) :
    ((xs.filter (· ∈ (g.drop tallies v).map (·.node))).length : Int) =
      if v ∈ xs then ((xs.filter (· ∈ tallies.map (·.node))).length : Int) - 1
      else (xs.filter (· ∈ tallies.map (·.node))).length := by
  have hcount := hxs.length_filter_ne (· ∈ tallies.map (·.node)) (decide_eq_true hv)
  have hactive : (xs.filter (· ∈ (g.drop tallies v).map (·.node))) =
      xs.filter fun w => decide (w ∈ tallies.map (·.node)) && decide (w ≠ v) := by
    apply List.filter_congr
    intro w _
    rw [← Bool.decide_and, decide_eq_decide, map_node_drop, List.mem_filter, decide_eq_true_iff]
  rw [hactive]
  split at hcount <;> simp only [*, if_true, if_false] <;> omega

theorem drop (h : Tallied g tallies) {v : V} (hv : v ∈ tallies.map (·.node)) :
    Tallied g (g.drop tallies v) := by
  have hdrop {t : Tally V} (ht : t ∈ g.drop tallies v) : ∃ t' ∈ tallies, t.node = t'.node ∧
      t.outs = (if v ∈ g.successors t'.node then t'.outs - 1 else t'.outs) ∧
      t.ins = (if v ∈ g.predecessors t'.node then t'.ins - 1 else t'.ins) := by
    obtain ⟨t', ht', rfl⟩ := List.mem_map.mp ht
    refine ⟨t', (List.mem_filter.mp ht').1, rfl, ?_, ?_⟩
    · simp only [mem_predecessors, mem_successors]
    · simp only [mem_predecessors, mem_successors]
  refine ⟨?_, fun t ht => ?_, fun t ht => ?_⟩
  · rw [map_node_drop]
    exact h.nodup.filter _
  · obtain ⟨t', ht', hnode, houts, -⟩ := hdrop ht
    rw [houts, hnode, length_filter_drop (g.nodup_successors _) hv, h.outs t' ht']
  · obtain ⟨t', ht', hnode, -, hins⟩ := hdrop ht
    rw [hins, hnode, length_filter_drop (g.nodup_predecessors _) hv, h.ins t' ht']

theorem foldl_drop {vs : List V} (h : Tallied g tallies) (hvs : vs.Sublist (tallies.map (·.node))) :
    Tallied g (vs.foldl g.drop tallies) := by
  induction vs generalizing tallies with
  | nil => exact h
  | cons v vs ih =>
    have hv : v ∉ vs := (List.nodup_cons.mp (hvs.nodup h.nodup)).1
    have hmem : v ∈ tallies.map (·.node) := hvs.subset List.mem_cons_self
    apply ih (h.drop hmem)
    have hkept : vs.filter (· ≠ v) = vs :=
      List.filter_eq_self.mpr fun w hw => decide_eq_true fun heq => hv (heq ▸ hw)
    rw [map_node_drop, ← hkept]
    exact (List.sublist_of_cons_sublist hvs).filter _

theorem outs_eq_zero (h : Tallied g tallies) {t : Tally V} (ht : t ∈ tallies) :
    t.outs = 0 ↔ ∀ w ∈ tallies.map (·.node), (t.node, w) ∉ g.edges := by
  rw [h.outs t ht, Int.natCast_eq_zero, List.length_eq_zero_iff, List.filter_eq_nil_iff]
  simp only [mem_successors, decide_eq_true_iff]
  exact ⟨fun hall w hw he => hall w he hw, fun hall w he hw => hall w hw he⟩

theorem ins_eq_zero (h : Tallied g tallies) {t : Tally V} (ht : t ∈ tallies) :
    t.ins = 0 ↔ ∀ u ∈ tallies.map (·.node), (u, t.node) ∉ g.edges := by
  rw [h.ins t ht, Int.natCast_eq_zero, List.length_eq_zero_iff, List.filter_eq_nil_iff]
  simp only [mem_predecessors, decide_eq_true_iff]
  exact ⟨fun hall w hw he => hall w he hw, fun hall w he hw => hall w hw he⟩

theorem of_mem_sinks (h : Tallied g tallies) {v : V} (hv : v ∈ nodesWith (·.outs = 0) tallies) :
    ∀ w ∈ tallies.map (·.node), (v, w) ∉ g.edges := by
  obtain ⟨t, ht, rfl⟩ := List.mem_map.mp hv
  obtain ⟨ht, hzero⟩ := List.mem_filter.mp ht
  exact (h.outs_eq_zero ht).mp (of_decide_eq_true hzero)

theorem of_mem_sources (h : Tallied g tallies) {v : V} (hv : v ∈ nodesWith (·.ins = 0) tallies) :
    ∀ u ∈ tallies.map (·.node), (u, v) ∉ g.edges := by
  obtain ⟨t, ht, rfl⟩ := List.mem_map.mp hv
  obtain ⟨ht, hzero⟩ := List.mem_filter.mp ht
  exact (h.ins_eq_zero ht).mp (of_decide_eq_true hzero)

end Tallied

omit [DecidableEq V] in
def Ordered (g : Digraph V) (vs : List V) : Prop :=
  vs.Pairwise fun u v => (v, u) ∉ g.edges

omit [DecidableEq V] in
theorem Ordered.append {us vs : List V} (hus : g.Ordered us) (hvs : g.Ordered vs)
    (h : ∀ u ∈ us, ∀ v ∈ vs, (v, u) ∉ g.edges) : g.Ordered (us ++ vs) :=
  List.pairwise_append.mpr ⟨hus, hvs, h⟩

namespace Tallied

variable {tallies : List (Tally V)} (h : Tallied g tallies)

include h

theorem ordered_sinks : g.Ordered (nodesWith (·.outs = 0) tallies).reverse := by
  apply List.pairwise_of_forall_mem_list
  intro u hu v hv
  exact h.of_mem_sinks (List.mem_reverse.mp hv) u ((nodesWith_sublist _ tallies).subset (List.mem_reverse.mp hu))

theorem ordered_sources : g.Ordered (nodesWith (·.ins = 0) tallies) := by
  apply List.pairwise_of_forall_mem_list
  intro u hu v hv
  exact h.of_mem_sources hu v ((nodesWith_sublist _ tallies).subset hv)

theorem mem_greedyOrderOf_foldl_drop {vs : List V} (hvs : vs.Sublist (tallies.map (·.node))) {v : V} :
    v ∈ g.greedyOrderOf (vs.foldl g.drop tallies) ↔ v ∈ tallies.map (·.node) ∧ v ∉ vs := by
  rw [(greedyOrderOf_perm (h.foldl_drop hvs).nodup).mem_iff, map_node_foldl_drop, List.mem_filter, decide_eq_true_iff]

end Tallied

theorem mem_of_mem_greedyOrderOf {tallies : List (Tally V)} (h : Tallied g tallies) {vs : List V}
    (hvs : vs.Sublist (tallies.map (·.node))) {v : V}
    (hv : v ∈ g.greedyOrderOf (vs.foldl g.drop tallies)) : v ∈ tallies.map (·.node) :=
  ((h.mem_greedyOrderOf_foldl_drop hvs).mp hv).1

theorem Acyclic.ordered_greedyOrderOf (hg : g.Acyclic) {tallies : List (Tally V)}
    (h : Tallied g tallies) : g.Ordered (g.greedyOrderOf tallies) := by
  induction tallies using greedyOrderOf.induct g with
  | case1 tallies hsinks _ ih =>
    have hsub := nodesWith_sublist (·.outs = 0) tallies
    rw [greedyOrderOf, dif_pos hsinks]
    apply (ih (h.foldl_drop hsub)).append h.ordered_sinks
    intro u hu v hv
    exact h.of_mem_sinks (List.mem_reverse.mp hv) u (mem_of_mem_greedyOrderOf h hsub hu)
  | case2 tallies hsinks hsources _ ih =>
    have hsub := nodesWith_sublist (·.ins = 0) tallies
    rw [greedyOrderOf, dif_neg hsinks, dif_pos hsources]
    apply h.ordered_sources.append (ih (h.foldl_drop hsub))
    intro u hu v hv
    exact h.of_mem_sources hu v (mem_of_mem_greedyOrderOf h hsub hv)
  | case3 tallies hsinks hsources hbest =>
    rw [greedyOrderOf, dif_neg hsinks, dif_neg hsources]
    split
    · exact .nil
    · next heq => simp [hbest] at heq
  | case4 tallies hsinks hsources best hbest _ ih =>
    -- some active node has no active one before it, so there are sources
    have hmem : best.node ∈ tallies.map (·.node) := List.mem_map_of_mem (firstGreatest?_mem hbest)
    obtain ⟨v, hv, hfirst⟩ := hg.exists_first (List.ne_nil_of_mem hmem)
    obtain ⟨t, ht, rfl⟩ := List.mem_map.mp hv
    have hzero : t.ins = 0 := (h.ins_eq_zero ht).mpr fun u hu he => hfirst u hu (.single he)
    have hsource : t.node ∈ nodesWith (·.ins = 0) tallies :=
      List.mem_map_of_mem (List.mem_filter.mpr ⟨ht, decide_eq_true hzero⟩)
    exact absurd (List.ne_nil_of_mem hsource) hsources

theorem tallied_nodes (g : Digraph V) : Tallied g
    (g.nodes.map fun v => ⟨v, (g.successors v).length, (g.predecessors v).length⟩) := by
  have hnodes : (g.nodes.map fun v =>
      (⟨v, (g.successors v).length, (g.predecessors v).length⟩ : Tally V)).map (·.node) = g.nodes := by
    rw [List.map_map]
    exact List.map_id g.nodes
  refine ⟨?_, ?_, ?_⟩
  all_goals rw [hnodes]
  · exact g.nodes_nodup
  · intro t ht
    obtain ⟨v, -, rfl⟩ := List.mem_map.mp ht
    rw [List.filter_eq_self.mpr fun w hw => decide_eq_true (snd_mem (mem_successors.mp hw))]
  · intro t ht
    obtain ⟨v, -, rfl⟩ := List.mem_map.mp ht
    rw [List.filter_eq_self.mpr fun w hw => decide_eq_true (fst_mem (mem_predecessors.mp hw))]

theorem Acyclic.ordered_greedyOrder (hg : g.Acyclic) : g.Ordered g.greedyOrder :=
  hg.ordered_greedyOrderOf g.tallied_nodes

theorem Ordered.not_backward {order : List V} (h : g.Ordered order) {e : V × V} (he : e ∈ g.edges)
    (hmem : e.1 ∈ order) : ¬ Backward order e := by
  intro hlt
  have hfst : order.idxOf e.1 < order.length := List.idxOf_lt_length_of_mem hmem
  have hedge := List.pairwise_iff_getElem.mp h _ _ (Nat.lt_trans hlt hfst) hfst hlt
  rw [List.getElem_idxOf, List.getElem_idxOf] at hedge
  exact hedge he

omit [DecidableEq V] in
theorem Acyclic.ne_of_mem (hg : g.Acyclic) {e : V × V} (he : e ∈ g.edges) : e.1 ≠ e.2 := by
  obtain ⟨u, v⟩ := e
  rintro (rfl : u = v)
  exact hg u (.single he)

theorem Acyclic.forward_greedyOrder_eq (hg : g.Acyclic) {e : V × V} (he : e ∈ g.edges) :
    forward g.greedyOrder e = e :=
  if_neg (hg.ordered_greedyOrder.not_backward he ((greedyOrder_perm g).mem_iff.mpr (fst_mem he)))

theorem Acyclic.mem_edges_removeCycles (hg : g.Acyclic) {e : V × V} :
    e ∈ g.removeCycles.dag.edges ↔ e ∈ g.edges := by
  rw [Digraph.mem_edges_removeCycles]
  constructor
  · rintro ⟨d, hd, -, rfl⟩
    rwa [hg.forward_greedyOrder_eq hd]
  · exact fun he => ⟨e, he, hg.ne_of_mem he, (hg.forward_greedyOrder_eq he).symm⟩

theorem ordered_generationsOf? (remaining : List V) {generations : List (List V)}
    (h : g.generationsOf? remaining = some generations) :
    (∀ v ∈ generations.flatten, v ∈ remaining) ∧ g.Ordered generations.flatten := by
  induction remaining using generationsOf?.induct g generalizing generations with
  | case1 =>
    rw [generationsOf?, if_pos rfl] at h
    obtain rfl := Option.some.inj h
    exact ⟨List.forall_mem_nil _, .nil⟩
  | case2 remaining hne hsources =>
    rw [generationsOf?, if_neg hne, dif_pos hsources] at h
    cases h
  | case3 remaining hne hsources _ ih =>
    rw [generationsOf?, if_neg hne, dif_neg hsources] at h
    obtain ⟨rest, hrest, rfl⟩ := Option.map_eq_some_iff.mp h
    obtain ⟨hsub, hordered⟩ := ih hrest
    have hfirst {v : V} (hv : v ∈ g.sources remaining) :
        v ∈ remaining ∧ ∀ u ∈ remaining, (u, v) ∉ g.edges := by
      obtain ⟨hmem, hsource⟩ := List.mem_filter.mp hv
      exact ⟨hmem, isSource_iff.mp hsource⟩
    have hlater {v : V} (hv : v ∈ rest.flatten) : v ∈ remaining := (List.mem_filter.mp (hsub v hv)).1
    rw [List.flatten_cons]
    refine ⟨fun v hv => ?_, Ordered.append ?_ hordered ?_⟩
    · exact (List.mem_append.mp hv).elim (fun hv => (hfirst hv).1) hlater
    · apply List.pairwise_of_forall_mem_list
      intro u hu v hv
      exact (hfirst hu).2 v (hfirst hv).1
    · intro u hu v hv
      exact (hfirst hu).2 v (hlater hv)

end Yuml.Digraph
