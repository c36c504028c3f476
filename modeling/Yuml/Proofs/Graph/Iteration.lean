import Yuml.Proofs.Graph.Acyclic

namespace List

variable {α β : Type} [DecidableEq α]

theorem Nodup.flatMap_ite {xs : List α} (h : xs.Nodup) (x : α) (ys : List β) :
    xs.flatMap (fun y => if y = x then ys else []) = if x ∈ xs then ys else [] := by
  induction xs with
  | nil => rfl
  | cons z zs ih =>
    obtain ⟨hz, hzs⟩ := nodup_cons.mp h
    rw [flatMap_cons, ih hzs]
    by_cases hx : z = x
    · rw [if_pos hx, if_neg (hx ▸ hz), if_pos (mem_cons.mpr (.inl hx.symm)), append_nil]
    · rw [if_neg hx, nil_append]
      exact if_congr (by simp [Ne.symm hx]) rfl rfl

end List

namespace Yuml.Digraph

variable {V : Type} [DecidableEq V] {g : Digraph V}

theorem nodup_edgesByTail (g : Digraph V) : g.edgesByTail.Nodup := by
  refine List.nodup_flatMap.mpr ⟨fun v _ => ?_, g.nodes_nodup.imp fun hne => ?_⟩
  · exact (g.nodup_successors v).map fun _ _ heq => (Prod.mk.inj heq).2
  · rintro e hu hv
    obtain ⟨w, -, rfl⟩ := List.mem_map.mp hu
    obtain ⟨x, -, heq⟩ := List.mem_map.mp hv
    exact hne (Prod.mk.inj heq).1.symm

theorem successors_eq_nil {v : V} (h : v ∉ g.nodes) : g.successors v = [] :=
  List.eq_nil_iff_forall_not_mem.mpr fun _ hw => h (fst_mem (mem_successors.mp hw))

theorem filter_edgesByTail (g : Digraph V) (v : V) :
    g.edgesByTail.filter (·.1 = v) = (g.successors v).map (v, ·) := by
  have hpart (u : V) : ((g.successors u).map (u, ·)).filter (·.1 = v) =
      if u = v then (g.successors v).map (v, ·) else [] := by
    rw [List.filter_map]
    by_cases h : u = v
    · subst h
      rw [if_pos rfl]
      exact congrArg _ (List.filter_eq_self.mpr fun _ _ => decide_eq_true rfl)
    · rw [if_neg h, List.filter_eq_nil_iff.mpr fun _ _ => by simpa using h, List.map_nil]
  rw [edgesByTail, List.filter_flatMap, funext hpart, g.nodes_nodup.flatMap_ite]
  split
  · rfl
  · next h => rw [successors_eq_nil h, List.map_nil]

theorem successors_ofLists_edgesByTail (g : Digraph V) (vs : List V) (v : V) :
    (ofLists vs g.edgesByTail).successors v = g.successors v := by
  rw [successors, edges_ofLists g.nodup_edgesByTail, filter_edgesByTail, List.map_map]
  exact List.map_id _

theorem edgesByTail_ofLists (g : Digraph V) : (ofLists g.nodes g.edgesByTail).edgesByTail = g.edgesByTail := by
  have hnodes : (ofLists g.nodes g.edgesByTail).nodes = g.nodes :=
    nodes_ofLists g.nodes_nodup fun e he => g.ends_mem e (mem_edgesByTail.mp he)
  rw [edgesByTail, hnodes]
  exact congrArg g.nodes.flatMap (funext fun v => by rw [successors_ofLists_edgesByTail])

namespace Unwound

theorem foldl_take_of_forward {order : List V} {es : List (V × V)} {w : Unwound V}
    (h : ∀ e ∈ es, e.1 ≠ e.2 ∧ ¬ Backward order e) :
    es.foldl (take order) w = ⟨es.foldl (fun g e => g.addEdge e.1 e.2) w.dag, w.turned⟩ := by
  induction es generalizing w with
  | nil => rfl
  | cons e es ih =>
    obtain ⟨⟨hloop, hback⟩, hes⟩ := List.forall_mem_cons.mp h
    have hstep : w.take order e = ⟨w.dag.addEdge e.1 e.2, w.turned⟩ := by
      rw [take, if_neg hloop, if_neg (by exact hback)]
    rw [List.foldl_cons, hstep, ih hes, List.foldl_cons]

end Unwound

theorem Acyclic.removeCycles_eq (hg : g.Acyclic) : g.removeCycles = ⟨ofLists g.nodes g.edgesByTail, []⟩ := by
  refine Unwound.foldl_take_of_forward fun e he => ?_
  have hedge := mem_edgesByTail.mp he
  exact ⟨hg.ne_of_mem hedge, hg.ordered_greedyOrder.not_backward hedge ((greedyOrder_perm g).mem_iff.mpr (fst_mem hedge))⟩

theorem Acyclic.removeCycles_keeps (hg : g.Acyclic) :
    g.removeCycles.turned = [] ∧
      g.removeCycles.dag.nodes = g.nodes ∧
      g.removeCycles.dag.edgesByTail = g.edgesByTail := by
  refine ⟨?_, nodes_removeCycles g, ?_⟩
  · rw [hg.removeCycles_eq]
  · rw [hg.removeCycles_eq, edgesByTail_ofLists]

theorem removeCycles_keeps_interleaved :
    let g : Digraph Nat := ofLists [3, 1, 2, 0] [(2, 3), (0, 2), (1, 3), (0, 3), (1, 2)]
    g.Acyclic ∧
      g.removeCycles.turned = [] ∧
      g.removeCycles.dag.nodes = g.nodes ∧
      g.removeCycles.dag.edgesByTail = g.edgesByTail := by
  intro g
  have hacyclic : g.Acyclic := acyclic_of_lt (f := id) (by decide)
  exact ⟨hacyclic, hacyclic.removeCycles_keeps⟩

end Yuml.Digraph
