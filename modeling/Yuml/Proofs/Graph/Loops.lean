import Yuml.Proofs.Graph.Core

namespace Yuml.Digraph

variable {V : Type} [DecidableEq V] {g : Digraph V}

def withoutLoops (g : Digraph V) : Digraph V where
  nodes := g.nodes
  edges := g.edges.filter fun e => e.1 ≠ e.2
  nodes_nodup := g.nodes_nodup
  edges_nodup := g.edges_nodup.filter _
  ends_mem e he := g.ends_mem e (List.mem_filter.mp he).1

theorem mem_edges_withoutLoops {e : V × V} : e ∈ g.withoutLoops.edges ↔ e ∈ g.edges ∧ e.1 ≠ e.2 := by
  rw [withoutLoops, List.mem_filter, decide_eq_true_iff]

theorem successors_withoutLoops (g : Digraph V) (v : V) :
    g.withoutLoops.successors v = (g.successors v).filter (v ≠ ·) := by
  rw [successors, successors, withoutLoops, List.filter_filter, List.filter_map, List.filter_filter]
  congr 1
  refine List.filter_congr fun e _ => ?_
  by_cases h : e.1 = v <;> simp [h]

theorem predecessors_withoutLoops (g : Digraph V) (v : V) :
    g.withoutLoops.predecessors v = (g.predecessors v).filter (· ≠ v) := by
  rw [predecessors, predecessors, withoutLoops, List.filter_filter, List.filter_map, List.filter_filter]
  congr 1
  refine List.filter_congr fun e _ => ?_
  by_cases h : e.2 = v <;> simp [h]

theorem edgesByTail_withoutLoops (g : Digraph V) :
    g.withoutLoops.edgesByTail = g.edgesByTail.filter fun e => e.1 ≠ e.2 := by
  rw [edgesByTail, edgesByTail, List.filter_flatMap]
  refine congrArg g.nodes.flatMap (funext fun v => ?_)
  rw [successors_withoutLoops, List.filter_map]
  rfl

def loopless (g : Digraph V) (vs : List V) : List V :=
  vs.filter fun v => !g.edges.contains (v, v)

theorem mem_loopless {vs : List V} {v : V} : v ∈ g.loopless vs ↔ v ∈ vs ∧ (v, v) ∉ g.edges := by
  simp [loopless]

omit [DecidableEq V] in
def LoopsIsolated (g : Digraph V) (vs : List V) : Prop :=
  ∀ v ∈ vs, (v, v) ∈ g.edges → ∀ w ∈ vs, v ≠ w → (v, w) ∉ g.edges ∧ (w, v) ∉ g.edges

namespace LoopsIsolated

variable {among vs : List V} (h : g.LoopsIsolated vs)

include h

omit [DecidableEq V] in
theorem of_subset {ws : List V} (hsub : ws ⊆ vs) : g.LoopsIsolated ws :=
  fun v hv hloop w hw => h v (hsub hv) hloop w (hsub hw)

omit [DecidableEq V] in
theorem no_loop_of_edge {v w : V} (hv : v ∈ vs) (hw : w ∈ vs) (hne : v ≠ w) (he : (v, w) ∈ g.edges) :
    (v, v) ∉ g.edges ∧ (w, w) ∉ g.edges :=
  ⟨fun hloop => (h v hv hloop w hw hne).1 he, fun hloop => (h w hw hloop v hv hne.symm).2 he⟩

theorem endFree_loopless (hfree : g.EndFree vs) : g.withoutLoops.EndFree (g.loopless vs) := by
  intro v hv
  obtain ⟨hv, hplain⟩ := mem_loopless.mp hv
  obtain ⟨⟨w, hw, hvw⟩, u, hu, huv⟩ := hfree v hv
  have hw' : v ≠ w := fun heq => hplain (heq ▸ hvw)
  have hu' : u ≠ v := fun heq => hplain (heq ▸ huv)
  refine ⟨⟨w, mem_loopless.mpr ⟨hw, (h.no_loop_of_edge hv hw hw' hvw).2⟩, ?_⟩, u, ?_, ?_⟩
  · exact mem_edges_withoutLoops.mpr ⟨hvw, hw'⟩
  · exact mem_loopless.mpr ⟨hu, (h.no_loop_of_edge hu hv hu' huv).1⟩
  · exact mem_edges_withoutLoops.mpr ⟨huv, hu'⟩

theorem core_eq (hnodup : among.Nodup) (hcore : g.IsCore among vs) {among' vs' : List V}
    (hcore' : g.withoutLoops.IsCore among' vs') (hsub : among'.Sublist among)
    (hkept : ∀ v ∈ among, (v, v) ∉ g.edges → v ∈ among') : vs' = g.loopless vs := by
  have hplain : vs' ⊆ vs := hcore.greatest vs' (fun v hv => hsub.subset (hcore'.sublist.subset hv)) fun v hv =>
    let ⟨⟨w, hw, hvw⟩, u, hu, huv⟩ := hcore'.endFree v hv
    ⟨⟨w, hw, (mem_edges_withoutLoops.mp hvw).1⟩, u, hu, (mem_edges_withoutLoops.mp huv).1⟩
  have hgreatest : g.loopless vs ⊆ vs' := hcore'.greatest _ (fun v hv => by
    obtain ⟨hv, hloop⟩ := mem_loopless.mp hv
    exact hkept v (hcore.sublist.subset hv) hloop) (h.endFree_loopless hcore.endFree)
  refine hnodup.sublist_ext (hcore'.sublist.trans hsub) (List.filter_sublist.trans hcore.sublist) fun v =>
    ⟨fun hv => mem_loopless.mpr ⟨hplain hv, fun hloop => ?_⟩, fun hv => hgreatest hv⟩
  obtain ⟨⟨w, hw, hvw⟩, -⟩ := hcore'.endFree v hv
  obtain ⟨hvw, hne⟩ := mem_edges_withoutLoops.mp hvw
  exact (h v (hplain hv) hloop w (hplain hw) hne).1 hvw

theorem tallyAmong_loopless :
    g.withoutLoops.tallyAmong (g.loopless vs) =
      (g.tallyAmong vs).filter fun t => !g.edges.contains (t.node, t.node) := by
  rw [tallyAmong, tallyAmong, List.filter_map]
  refine List.map_congr_left fun v hv => ?_
  obtain ⟨hv, hplain⟩ := mem_loopless.mp hv
  have houts : (g.withoutLoops.successors v).filter (· ∈ g.loopless vs) = (g.successors v).filter (· ∈ vs) := by
    rw [successors_withoutLoops, List.filter_filter]
    refine List.filter_congr fun w hw => ?_
    have hvw := mem_successors.mp hw
    have hne : v ≠ w := fun heq => hplain (heq ▸ hvw)
    have hmem : w ∈ g.loopless vs ↔ w ∈ vs :=
      mem_loopless.trans (and_iff_left_of_imp fun hw => (h.no_loop_of_edge hv hw hne hvw).2)
    simp [hne, hmem]
  have hins : (g.withoutLoops.predecessors v).filter (· ∈ g.loopless vs) = (g.predecessors v).filter (· ∈ vs) := by
    rw [predecessors_withoutLoops, List.filter_filter]
    refine List.filter_congr fun u hu => ?_
    have huv := mem_predecessors.mp hu
    have hne : u ≠ v := fun heq => hplain (heq ▸ huv)
    have hmem : u ∈ g.loopless vs ↔ u ∈ vs :=
      mem_loopless.trans (and_iff_left_of_imp fun hu => (h.no_loop_of_edge hu hv hne huv).1)
    simp [hne, hmem]
  rw [houts, hins]

theorem endFree_filter_ne (hfree : g.EndFree vs) {v : V} (hv : v ∈ vs) (hloop : (v, v) ∈ g.edges) :
    g.EndFree (vs.filter (· ≠ v)) := by
  intro x hrest
  obtain ⟨hx, hne⟩ := List.mem_filter.mp hrest
  obtain ⟨⟨w, hw, hxw⟩, u, hu, hux⟩ := hfree x hx
  have hapart := h v hv hloop x hx (of_decide_eq_true hne : x ≠ v).symm
  refine ⟨⟨w, List.mem_filter.mpr ⟨hw, decide_eq_true ?_⟩, hxw⟩, u, List.mem_filter.mpr ⟨hu, decide_eq_true ?_⟩, hux⟩
  · exact fun heq => hapart.2 (heq ▸ hxw)
  · exact fun heq => hapart.1 (heq ▸ hux)

theorem loopless_core (hnodup : vs.Nodup) (hfree : g.EndFree vs) {v : V} (hv : v ∈ vs) (hloop : (v, v) ∈ g.edges)
    {ws : List V} (hcore : g.IsCore (vs.filter (· ≠ v)) ws) : g.loopless ws = g.loopless vs := by
  have hrest := h.endFree_filter_ne hfree hv hloop
  have hws : ws = vs.filter (· ≠ v) :=
    (hnodup.filter _).sublist_ext hcore.sublist (List.Sublist.refl _) fun _ =>
      ⟨fun hx => hcore.sublist.subset hx, fun hx => hcore.greatest _ (List.Subset.refl _) hrest hx⟩
  rw [hws, loopless, loopless, List.filter_filter]
  refine List.filter_congr fun x _ => ?_
  by_cases hx : x = v <;> simp [hx, hloop]

theorem before_step (hnodup : vs.Nodup) (hfree : g.EndFree vs) {best : Tally V}
    (hbest : firstGreatest? (fun t => t.outs - t.ins) (g.tallyAmong vs) = some best)
    (hplain : (best.node, best.node) ∉ g.edges) {ws : List V} (hcore : g.IsCore (vs.filter (· ≠ best.node)) ws)
    {e : V × V} (he : e ∈ g.withoutLoops.edges) :
    Before (g.withoutLoops.orderAmong (g.loopless vs)) e.2 e.1 ↔
      (e.2 = best.node ∧ e.1 ∈ vs ∧ e.1 ≠ best.node) ∨
        Before (g.withoutLoops.orderAmong (g.loopless ws)) e.2 e.1 := by
  have hmem : best.node ∈ vs := g.map_node_tallyAmong vs ▸ List.mem_map_of_mem (firstGreatest?_mem hbest)
  have hbest' : firstGreatest? (fun t => t.outs - t.ins) (g.withoutLoops.tallyAmong (g.loopless vs)) = some best := by
    rw [h.tallyAmong_loopless]
    exact firstGreatest?_filter hbest (by simpa using hplain)
  obtain ⟨ws', hcore', hws'⟩ := (h.endFree_loopless hfree).exists_step (hnodup.filter _) hbest'
  have hws : ws ⊆ vs := fun v hv => (List.mem_filter.mp (hcore.sublist.subset hv)).1
  have hsame : ws' = g.loopless ws :=
    (h.of_subset hws).core_eq (hnodup.filter _) hcore hcore' (List.filter_sublist.filter _) fun v hv hplain => by
      obtain ⟨hv, hother⟩ := List.mem_filter.mp hv
      exact List.mem_filter.mpr ⟨mem_loopless.mpr ⟨hv, hplain⟩, hother⟩
  rw [hws' e he, hsame]
  refine or_congr_left (and_congr_right fun hhead => and_congr_left fun hother => ?_)
  rw [mem_loopless]
  refine and_iff_left_of_imp fun htail => ?_
  exact (h.no_loop_of_edge htail hmem hother (hhead ▸ (mem_edges_withoutLoops.mp he).1)).1

theorem before_orderAmong (hnodup : vs.Nodup) (hfree : g.EndFree vs) {e : V × V} (he : e ∈ g.withoutLoops.edges) :
    Before (g.orderAmong vs) e.2 e.1 ↔ Before (g.withoutLoops.orderAmong (g.loopless vs)) e.2 e.1 := by
  obtain ⟨hedge, hne⟩ := mem_edges_withoutLoops.mp he
  -- on the number of active nodes: the same node goes first in both graphs, or one that has no other edges
  induction hn : vs.length using Nat.strong_induction_on generalizing vs with
  | _ n ih =>
    cases hbest : firstGreatest? (fun t => t.outs - t.ins) (g.tallyAmong vs) with
    | none =>
      obtain rfl : vs = [] := List.map_eq_nil_iff.mp (firstGreatest?_eq_none hbest)
      refine iff_of_false (fun hback => ?_) fun hback => ?_
      · exact List.not_mem_nil ((mem_orderAmong List.nodup_nil).mp hback.mem.1)
      · exact List.not_mem_nil ((mem_orderAmong List.nodup_nil).mp hback.mem.1)
    | some best =>
      have hmem : best.node ∈ vs :=
        g.map_node_tallyAmong vs ▸ List.mem_map_of_mem (firstGreatest?_mem hbest)
      obtain ⟨ws, hcore, hws⟩ := hfree.exists_step hnodup hbest
      have hrest : ws ⊆ vs := fun v hv => (List.mem_filter.mp (hcore.sublist.subset hv)).1
      have hshorter : ws.length < n := by
        refine hn ▸ Nat.lt_of_le_of_lt hcore.sublist.length_le ?_
        exact List.length_filter_lt_length_iff_exists.mpr ⟨best.node, hmem, by simp⟩
      have hwsNodup : ws.Nodup := hcore.sublist.nodup (hnodup.filter _)
      rw [hws e hedge, ih ws.length hshorter (h.of_subset hrest) hwsNodup hcore.endFree rfl]
      by_cases hloop : (best.node, best.node) ∈ g.edges
      · rw [h.loopless_core hnodup hfree hmem hloop hcore]
        refine or_iff_right ?_
        rintro ⟨hhead, htail, hother⟩
        exact (h _ hmem hloop e.1 htail hother.symm).2 (hhead ▸ hedge)
      · exact (h.before_step hnodup hfree hbest hloop hcore he).symm

end LoopsIsolated

omit [DecidableEq V] in
/-- Whether no way joins a node with a loop to another node on a cycle. A loop is a cycle, too. -/
def LoopsApart (g : Digraph V) : Prop :=
  ∀ v w, (v, v) ∈ g.edges → v ≠ w → g.Leads v w ∨ g.Leads w v → ¬ g.Leads w w

namespace LoopsApart

variable (h : g.LoopsApart)

include h

omit [DecidableEq V] in
theorem isolated {vs : List V} (hfree : g.EndFree vs) : g.LoopsIsolated vs := by
  intro v hv hloop w hw hne
  -- from `w` the edges go on, and back, until they are on a cycle
  refine ⟨fun hvw => ?_, fun hwv => ?_⟩
  · obtain ⟨z, hwz, hz⟩ := exists_cycle (fun u hu => (hfree u hu).1) hw
    have hvz : g.Leads v z := Relation.TransGen.head' hvw hwz
    by_cases heq : v = z
    · subst heq
      have hback : g.Leads w w := Relation.TransGen.tail' hwz hvw
      exact h v w hloop hne (.inl (.single hvw)) hback
    · exact h v z hloop heq (.inl hvz) hz
  · obtain ⟨z, hwz, hz⟩ := exists_cycle (r := fun v u => (u, v) ∈ g.edges) (fun u hu => (hfree u hu).2) hw
    have hwz := Relation.reflTransGen_swap.mp hwz
    have hz : g.Leads z z := Relation.transGen_swap.mp hz
    have hzv : g.Leads z v := Relation.TransGen.tail' hwz hwv
    by_cases heq : v = z
    · subst heq
      have hback : g.Leads w w := Relation.TransGen.head' hwv hwz
      exact h v w hloop hne (.inr (.single hwv)) hback
    · exact h v z hloop heq (.inr hzv) hz

theorem backward_greedyOrder {e : V × V} (he : e ∈ g.withoutLoops.edges) :
    Backward g.greedyOrder e ↔ Backward g.withoutLoops.greedyOrder e := by
  obtain ⟨hedge, -⟩ := mem_edges_withoutLoops.mp he
  have hbefore {g : Digraph V} {e : V × V} (he : e ∈ g.edges) : Backward g.greedyOrder e ↔ Before g.greedyOrder e.2 e.1 :=
    (and_iff_left ((greedyOrder_perm g).mem_iff.mpr (fst_mem he))).symm
  obtain ⟨vs, hcore, hvs⟩ := g.tallied_nodes.exists_core
  obtain ⟨vs', hcore', hvs'⟩ := g.withoutLoops.tallied_nodes.exists_core
  rw [List.map_map, show (_ ∘ _ : V → V) = id from rfl, List.map_id] at hcore hcore'
  have hisolated := h.isolated hcore.endFree
  obtain rfl := hisolated.core_eq g.nodes_nodup hcore hcore' (List.Sublist.refl _) fun v hv _ => hv
  rw [hbefore hedge, hbefore he]
  exact (hvs e hedge).trans ((hisolated.before_orderAmong (hcore.sublist.nodup g.nodes_nodup) hcore.endFree he).trans
    (hvs' e he).symm)

end LoopsApart

namespace Unwound

theorem foldl_take_filter (order : List V) (es : List (V × V)) (w : Unwound V) :
    (es.filter fun e => e.1 ≠ e.2).foldl (take order) w = es.foldl (take order) w := by
  induction es generalizing w with
  | nil => rfl
  | cons e es ih =>
    by_cases hloop : e.1 = e.2
    · rw [List.filter_cons_of_neg (by simpa using hloop), List.foldl_cons, take_loop hloop, ih]
    · rw [List.filter_cons_of_pos (by simpa using hloop), List.foldl_cons, List.foldl_cons, ih]

theorem take_congr {order order' : List V} {e : V × V} (h : Backward order e ↔ Backward order' e) (w : Unwound V) :
    w.take order e = w.take order' e := by
  rw [take, take]
  exact if_congr Iff.rfl rfl (if_congr h rfl rfl)

end Unwound

theorem LoopsApart.removeCycles_eq (h : g.LoopsApart) : g.removeCycles = g.withoutLoops.removeCycles := by
  rw [removeCycles, ← Unwound.foldl_take_filter, ← edgesByTail_withoutLoops]
  refine List.foldl_ext _ _ _ fun w e he => ?_
  exact Unwound.take_congr (h.backward_greedyOrder (mem_edgesByTail.mp he)) w

theorem joined_removeCycles {u v : V} :
    (u, v) ∈ g.removeCycles.dag.edges ∨ (v, u) ∈ g.removeCycles.dag.edges ↔
      u ≠ v ∧ ((u, v) ∈ g.edges ∨ (v, u) ∈ g.edges) := by
  have hforward (e : V × V) : forward g.greedyOrder e = e ∨ forward g.greedyOrder e = (e.2, e.1) := by
    rw [forward]
    split
    · exact .inr rfl
    · exact .inl rfl
  have hends {a b u v : V} (heq : (u, v) = forward g.greedyOrder (a, b)) : (u = a ∧ v = b) ∨ (u = b ∧ v = a) :=
    (hforward (a, b)).imp (fun hab => Prod.mk.inj (heq.trans hab)) fun hab => Prod.mk.inj (heq.trans hab)
  rw [mem_edges_removeCycles, mem_edges_removeCycles]
  constructor
  · rintro (⟨⟨a, b⟩, hd, hne, heq⟩ | ⟨⟨a, b⟩, hd, hne, heq⟩)
    · rcases hends heq with ⟨rfl, rfl⟩ | ⟨rfl, rfl⟩
      · exact ⟨hne, .inl hd⟩
      · exact ⟨hne.symm, .inr hd⟩
    · rcases hends heq with ⟨rfl, rfl⟩ | ⟨rfl, rfl⟩
      · exact ⟨hne.symm, .inr hd⟩
      · exact ⟨hne, .inl hd⟩
  · rintro ⟨hne, he | he⟩
    · rcases hforward (u, v) with huv | huv
      · exact .inl ⟨(u, v), he, hne, huv.symm⟩
      · exact .inr ⟨(u, v), he, hne, huv.symm⟩
    · rcases hforward (v, u) with hvu | hvu
      · exact .inr ⟨(v, u), he, hne.symm, hvu.symm⟩
      · exact .inl ⟨(v, u), he, hne.symm, hvu.symm⟩

theorem removeCycles_withoutLoops (g : Digraph V) :
    g.removeCycles.dag.nodes = g.withoutLoops.removeCycles.dag.nodes ∧
      (∀ u v, (u, v) ∈ g.removeCycles.dag.edges ∨ (v, u) ∈ g.removeCycles.dag.edges ↔
        (u, v) ∈ g.withoutLoops.removeCycles.dag.edges ∨ (v, u) ∈ g.withoutLoops.removeCycles.dag.edges) ∧
      (g.LoopsApart → g.removeCycles = g.withoutLoops.removeCycles ∧
        (g.withoutLoops.Acyclic → g.removeCycles.turned = [])) := by
  refine ⟨?_, fun u v => ?_, fun h => ⟨h.removeCycles_eq, fun hacyclic => ?_⟩⟩
  · rw [nodes_removeCycles, nodes_removeCycles, withoutLoops]
  · rw [joined_removeCycles, joined_removeCycles, mem_edges_withoutLoops, mem_edges_withoutLoops]
    refine and_congr_right fun hne => or_congr ?_ ?_
    · exact (and_iff_left hne).symm
    · exact (and_iff_left hne.symm).symm
  · rw [h.removeCycles_eq, hacyclic.removeCycles_eq]

theorem removeCycles_withoutLoops_beside_cycle :
    let g : Digraph Nat := ofLists [] [(0, 1), (1, 1), (1, 2), (10, 11), (11, 12), (12, 10)]
    let g' : Digraph Nat := ofLists [] [(0, 1), (1, 1), (1, 2)]
    (g.LoopsApart ∧ g.removeCycles = g.withoutLoops.removeCycles ∧ g.removeCycles.turned = [(12, 10)]) ∧
      g'.LoopsApart ∧ g'.withoutLoops.Acyclic ∧ g'.removeCycles.turned = [] := by
  intro g g'
  let ways (u v : Nat) : Prop := (u < v ∧ v < 10) ∨ (u = 1 ∧ v = 1) ∨ (10 ≤ u ∧ 10 ≤ v)
  have hapart {g : Digraph Nat} (hedges : ∀ e ∈ g.edges, ways e.1 e.2) (hloops : ∀ e ∈ g.edges, e.1 = e.2 → e.1 = 1) :
      g.LoopsApart := by
    have hways {u v : Nat} (huv : g.Leads u v) : ways u v := by
      induction huv with
      | single he => exact hedges _ he
      | tail _ he ih =>
        have hlast := hedges _ he
        omega
    intro v w hloop hne hway hcycle
    obtain rfl : v = 1 := hloops _ hloop rfl
    have hw := hways hcycle
    rcases hway with hway | hway
    · have hvw := hways hway
      omega
    · have hwv := hways hway
      omega
  have hg : g.LoopsApart := hapart (by decide) (by decide)
  have hg' : g'.LoopsApart := hapart (by decide) (by decide)
  have hacyclic : g'.withoutLoops.Acyclic := acyclic_of_lt (f := id) (by decide)
  refine ⟨⟨hg, ((removeCycles_withoutLoops g).2.2 hg).1, by decide +kernel⟩, hg', hacyclic, ?_⟩
  exact ((removeCycles_withoutLoops g').2.2 hg').2 hacyclic

theorem removeCycles_turns_for_loops :
    let g : Digraph Char :=
      ofLists ['b', 'a', 'c', 'd'] [('a', 'a'), ('a', 'b'), ('b', 'c'), ('b', 'd'), ('c', 'c'), ('d', 'd')]
    g.withoutLoops.Acyclic ∧
      g.removeCycles.turned = [('a', 'b')] ∧ g.withoutLoops.removeCycles.turned = [] ∧
      g.removeCycles.dag.edges ≠ g.withoutLoops.removeCycles.dag.edges := by
  intro g
  exact ⟨acyclic_of_lt (f := Char.toNat) (by decide), by decide +kernel, by decide +kernel, by decide +kernel⟩

end Yuml.Digraph
