import Yuml.Proofs.Graph.Reversals

namespace List

variable {α : Type} [DecidableEq α] {xs ys zs : List α}

theorem Nodup.filter_mem_sublist (hzs : zs.Nodup) (h : xs.Sublist zs) : zs.filter (· ∈ xs) = xs := by
  induction h with
  | slnil => rfl
  | cons z h ih =>
    obtain ⟨hz, hzs⟩ := nodup_cons.mp hzs
    rw [filter_cons_of_neg (by simpa using fun hmem => hz (h.subset hmem)), ih hzs]
  | @cons_cons xs zs z h ih =>
    obtain ⟨hz, hzs⟩ := nodup_cons.mp hzs
    have hrest : zs.filter (· ∈ z :: xs) = zs.filter (· ∈ xs) :=
      filter_congr fun w hw => by simp [ne_of_mem_of_not_mem hw hz]
    rw [filter_cons_of_pos (by simp), hrest, ih hzs]

theorem Nodup.sublist_ext (hzs : zs.Nodup) (hxs : xs.Sublist zs) (hys : ys.Sublist zs) (h : ∀ v, v ∈ xs ↔ v ∈ ys) :
    xs = ys := by
  rw [← hzs.filter_mem_sublist hxs, ← hzs.filter_mem_sublist hys]
  exact filter_congr fun v _ => by simp only [h]

end List

namespace Yuml.Digraph

variable {V : Type} {g : Digraph V}

def EndFree (g : Digraph V) (vs : List V) : Prop :=
  ∀ v ∈ vs, (∃ w ∈ vs, (v, w) ∈ g.edges) ∧ ∃ u ∈ vs, (u, v) ∈ g.edges

/-- The greatest part of some nodes that has neither sources nor sinks. -/
structure IsCore (g : Digraph V) (among vs : List V) : Prop where
  sublist : vs.Sublist among
  endFree : g.EndFree vs
  greatest : ∀ us, us ⊆ among → g.EndFree us → us ⊆ vs

theorem EndFree.isCore {vs : List V} (h : g.EndFree vs) : g.IsCore vs vs :=
  ⟨List.Sublist.refl vs, h, fun _ hsub _ => hsub⟩

variable [DecidableEq V]

theorem IsCore.of_rest {among batch vs : List V}
    (hends : ∀ v ∈ batch, (∀ w ∈ among, (v, w) ∉ g.edges) ∨ ∀ u ∈ among, (u, v) ∉ g.edges)
    (h : g.IsCore (among.filter (· ∉ batch)) vs) : g.IsCore among vs := by
  refine ⟨h.sublist.trans List.filter_sublist, h.endFree, fun us hsub hus => h.greatest us (fun v hv => ?_) hus⟩
  refine List.mem_filter.mpr ⟨hsub hv, decide_eq_true fun hbatch => ?_⟩
  obtain ⟨⟨w, hw, hvw⟩, u, hu, huv⟩ := hus v hv
  exact (hends v hbatch).elim (fun hout => hout w (hsub hw) hvw) fun hin => hin u (hsub hu) huv

def tallyAmong (g : Digraph V) (vs : List V) : List (Tally V) :=
  vs.map fun v =>
    ⟨v, ((g.successors v).filter (· ∈ vs)).length, ((g.predecessors v).filter (· ∈ vs)).length⟩

def orderAmong (g : Digraph V) (vs : List V) : List V :=
  g.greedyOrderOf (g.tallyAmong vs)

theorem map_node_tallyAmong (g : Digraph V) (vs : List V) : (g.tallyAmong vs).map (·.node) = vs := by
  rw [tallyAmong, List.map_map]
  exact List.map_id vs

theorem tallied_tallyAmong {vs : List V} (h : vs.Nodup) : Tallied g (g.tallyAmong vs) := by
  refine ⟨?_, ?_, ?_⟩
  all_goals rw [map_node_tallyAmong]
  · exact h
  · intro t ht
    obtain ⟨v, -, rfl⟩ := List.mem_map.mp ht
    rfl
  · intro t ht
    obtain ⟨v, -, rfl⟩ := List.mem_map.mp ht
    rfl

theorem Tallied.eq_tallyAmong {tallies : List (Tally V)} (h : Tallied g tallies) :
    tallies = g.tallyAmong (tallies.map (·.node)) := by
  rw [tallyAmong, List.map_map]
  refine (List.map_id tallies).symm.trans (List.map_congr_left fun t ht => ?_)
  obtain ⟨v, outs, ins⟩ := t
  rw [id, Function.comp, ← h.outs _ ht, ← h.ins _ ht]

theorem mem_orderAmong {vs : List V} (h : vs.Nodup) {v : V} : v ∈ g.orderAmong vs ↔ v ∈ vs := by
  rw [orderAmong, (greedyOrderOf_perm (tallied_tallyAmong h).nodup).mem_iff, map_node_tallyAmong]

theorem Tallied.exists_core {tallies : List (Tally V)} (h : Tallied g tallies) :
    ∃ vs, g.IsCore (tallies.map (·.node)) vs ∧ ∀ e ∈ g.edges,
      Before (g.greedyOrderOf tallies) e.2 e.1 ↔ Before (g.orderAmong vs) e.2 e.1 := by
  induction tallies using greedyOrderOf.induct g with
  | case1 tallies hsinks _ ih =>
    have hsub := nodesWith_sublist (·.outs = 0) tallies
    have hkept {v : V} := h.mem_greedyOrderOf_foldl_drop (v := v) hsub
    obtain ⟨vs, hcore, hvs⟩ := ih (h.foldl_drop hsub)
    rw [map_node_foldl_drop] at hcore
    refine ⟨vs, hcore.of_rest fun v hv => .inl (h.of_mem_sinks hv), fun e he => ?_⟩
    rw [greedyOrderOf, dif_pos hsinks, ← hvs e he, Before.append_iff]
    · refine or_iff_left ?_
      rintro (⟨hhead, htail⟩ | hlast)
      · exact h.of_mem_sinks (List.mem_reverse.mp htail) _ (hkept.mp hhead).1 he
      · obtain ⟨hhead, htail⟩ := hlast.mem
        exact h.of_mem_sinks (List.mem_reverse.mp htail) _ (hsub.subset (List.mem_reverse.mp hhead)) he
    · exact fun v hv hlast => (hkept.mp hv).2 (List.mem_reverse.mp hlast)
  | case2 tallies hsinks hsources _ ih =>
    have hsub := nodesWith_sublist (·.ins = 0) tallies
    have hkept {v : V} := h.mem_greedyOrderOf_foldl_drop (v := v) hsub
    obtain ⟨vs, hcore, hvs⟩ := ih (h.foldl_drop hsub)
    rw [map_node_foldl_drop] at hcore
    refine ⟨vs, hcore.of_rest fun v hv => .inr (h.of_mem_sources hv), fun e he => ?_⟩
    rw [greedyOrderOf, dif_neg hsinks, dif_pos hsources, ← hvs e he, Before.append_iff, ← or_assoc]
    · refine or_iff_right ?_
      rintro (hfirst | ⟨hhead, htail⟩)
      · obtain ⟨hhead, htail⟩ := hfirst.mem
        exact h.of_mem_sources hhead _ (hsub.subset htail) he
      · exact h.of_mem_sources hhead _ (hkept.mp htail).1 he
    · exact fun v hv hlater => (hkept.mp hlater).2 hv
  | case3 tallies hsinks hsources hbest =>
    obtain rfl := firstGreatest?_eq_none hbest
    exact ⟨[], EndFree.isCore (List.forall_mem_nil _), fun _ _ => Iff.rfl⟩
  | case4 tallies hsinks hsources best hbest _ _ =>
    refine ⟨tallies.map (·.node), EndFree.isCore fun v hv => ?_, fun e _ => ?_⟩
    · obtain ⟨t, ht, rfl⟩ := List.mem_map.mp hv
      refine ⟨?_, ?_⟩
      · by_contra! hno
        have hzero : t.outs = 0 := (h.outs_eq_zero ht).mpr hno
        exact hsinks (List.ne_nil_of_mem (List.mem_map_of_mem (List.mem_filter.mpr ⟨ht, decide_eq_true hzero⟩)))
      · by_contra! hno
        have hzero : t.ins = 0 := (h.ins_eq_zero ht).mpr hno
        exact hsources (List.ne_nil_of_mem (List.mem_map_of_mem (List.mem_filter.mpr ⟨ht, decide_eq_true hzero⟩)))
    · rw [orderAmong, ← h.eq_tallyAmong]

namespace EndFree

variable {vs : List V}

theorem nodesWith_outs (h : g.EndFree vs) (hvs : vs.Nodup) : nodesWith (·.outs = 0) (g.tallyAmong vs) = [] := by
  refine List.eq_nil_iff_forall_not_mem.mpr fun v hv => ?_
  have hno := (tallied_tallyAmong hvs).of_mem_sinks hv
  have hmem := (nodesWith_sublist _ _).subset hv
  rw [map_node_tallyAmong] at hno hmem
  obtain ⟨⟨w, hw, hvw⟩, -⟩ := h v hmem
  exact hno w hw hvw

theorem nodesWith_ins (h : g.EndFree vs) (hvs : vs.Nodup) : nodesWith (·.ins = 0) (g.tallyAmong vs) = [] := by
  refine List.eq_nil_iff_forall_not_mem.mpr fun v hv => ?_
  have hno := (tallied_tallyAmong hvs).of_mem_sources hv
  have hmem := (nodesWith_sublist _ _).subset hv
  rw [map_node_tallyAmong] at hno hmem
  obtain ⟨-, u, hu, huv⟩ := h v hmem
  exact hno u hu huv

theorem orderAmong_eq (h : g.EndFree vs) (hvs : vs.Nodup) {best : Tally V}
    (hbest : firstGreatest? (fun t => t.outs - t.ins) (g.tallyAmong vs) = some best) :
    g.orderAmong vs = best.node :: g.greedyOrderOf (g.drop (g.tallyAmong vs) best.node) := by
  rw [orderAmong, greedyOrderOf, dif_neg (not_not.mpr (h.nodesWith_outs hvs)),
    dif_neg (not_not.mpr (h.nodesWith_ins hvs))]
  split
  · next hnone => simp [hbest] at hnone
  · next b hb =>
    obtain rfl : b = best := by simpa [hbest] using hb.symm
    rfl

theorem exists_step (h : g.EndFree vs) (hvs : vs.Nodup) {best : Tally V}
    (hbest : firstGreatest? (fun t => t.outs - t.ins) (g.tallyAmong vs) = some best) :
    ∃ ws, g.IsCore (vs.filter (· ≠ best.node)) ws ∧ ∀ e ∈ g.edges,
      Before (g.orderAmong vs) e.2 e.1 ↔
        (e.2 = best.node ∧ e.1 ∈ vs ∧ e.1 ≠ best.node) ∨ Before (g.orderAmong ws) e.2 e.1 := by
  have htallied := tallied_tallyAmong (g := g) hvs
  have hmem : best.node ∈ (g.tallyAmong vs).map (·.node) := List.mem_map_of_mem (firstGreatest?_mem hbest)
  have hdrop := htallied.drop hmem
  have hrest {v : V} : v ∈ g.greedyOrderOf (g.drop (g.tallyAmong vs) best.node) ↔ v ∈ vs ∧ v ≠ best.node := by
    rw [(greedyOrderOf_perm hdrop.nodup).mem_iff, map_node_drop, map_node_tallyAmong, List.mem_filter, decide_eq_true_iff]
  obtain ⟨ws, hcore, hws⟩ := hdrop.exists_core
  rw [map_node_drop, map_node_tallyAmong] at hcore
  refine ⟨ws, hcore, fun e he => ?_⟩
  have hdisjoint : [best.node].Disjoint (g.greedyOrderOf (g.drop (g.tallyAmong vs) best.node)) :=
    List.singleton_disjoint.mpr fun hlater => (hrest.mp hlater).2 rfl
  have hsingle : ¬ Before [best.node] e.2 e.1 := fun hfirst => by
    obtain ⟨hhead, htail⟩ := hfirst.mem
    have hlt := hfirst.1
    rw [List.mem_singleton.mp hhead, List.mem_singleton.mp htail] at hlt
    exact Nat.lt_irrefl _ hlt
  rw [h.orderAmong_eq hvs hbest, ← List.singleton_append, Before.append_iff hdisjoint, or_iff_right hsingle, hws e he,
    List.mem_singleton, hrest]

end EndFree

end Yuml.Digraph
