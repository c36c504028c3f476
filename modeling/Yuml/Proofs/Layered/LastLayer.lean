import Yuml.Proofs.Graph.Iteration
import Yuml.Proofs.Layered.Routes

namespace Yuml.Layered

theorem Layering.nodup_keys_set {V : Type} [DecidableEq V] {l : Layering V} (h : (l.map (·.1)).Nodup) (v : V)
    (n : Int) : ((l.set v n).map (·.1)).Nodup := by
  induction l with
  | nil => exact List.nodup_singleton v
  | cons e l ih =>
    obtain ⟨w, m⟩ := e
    obtain ⟨hw, hl⟩ := List.nodup_cons.mp h
    by_cases heq : w = v
    · rw [set, if_pos heq]
      exact h
    · rw [set, if_neg heq]
      exact List.nodup_cons.mpr ⟨fun hmem => (mem_keys_set.mp hmem).elim hw heq, ih hl⟩

namespace Augmented

structure Noted (a : Augmented) : Prop where
  known : ∀ v ∈ a.layers.map (·.1), v ∈ a.graph.nodes
  nodup : (a.layers.map (·.1)).Nodup

structure Chained (a : Augmented) (g : Digraph Text) : Prop extends a.Noted where
  keeps : ∀ v ∈ g.nodes, v ∈ a.graph.nodes
  new : ∀ v ∈ a.graph.nodes, v ∈ g.nodes ∨ ∃ c ∈ a.chains, v ∈ c.2
  listed : ∀ c ∈ a.chains, c.1 ∈ g.edges
  once : (a.chains.map (·.1)).Nodup

variable {a a' : Augmented} {g : Digraph Text}

theorem Noted.addDummy (h : a.Noted) {prev dummy : Text} (hprev : prev ∈ a.graph.nodes) (layer : Int) :
    (a.addDummy prev dummy layer).Noted where
  known v hv := (mem_nodes_addDummy hprev).mpr ((Layering.mem_keys_set.mp hv).imp_left (h.known v))
  nodup := Layering.nodup_keys_set h.nodup dummy layer

theorem noted_of_addChain {edge : Nat} {tail : Text} {steps : List Nat} {prev last : Text} (h : a.Noted)
    (hprev : prev ∈ a.graph.nodes) (hchain : addChain edge tail steps prev a = .ok (a', last)) :
    a'.Noted ∧ last ∈ a'.graph.nodes ∧
      ∀ v, v ∈ a'.graph.nodes ↔ v ∈ a.graph.nodes ∨ v ∈ steps.map (dummyName edge) := by
  induction steps generalizing prev a with
  | nil =>
    obtain ⟨rfl, rfl⟩ := Prod.mk.inj (Except.ok.inj hchain)
    exact ⟨h, hprev, by simp⟩
  | cons step steps ih =>
    obtain ⟨top, -, hchain⟩ := Except.bind_eq_ok.mp hchain
    have hnew : dummyName edge step ∈ (a.addDummy prev (dummyName edge step) (top + step)).graph.nodes :=
      (mem_nodes_addDummy hprev).mpr (.inr rfl)
    obtain ⟨hnoted, hlast, hnodes⟩ := ih (h.addDummy hprev (top + step)) hnew hchain
    refine ⟨hnoted, hlast, fun v => ?_⟩
    rw [hnodes, mem_nodes_addDummy hprev, List.map_cons, List.mem_cons, or_assoc]

theorem Noted.congr (h : a.Noted) (hnodes : a'.graph.nodes = a.graph.nodes) (hlayers : a'.layers = a.layers) :
    a'.Noted := by
  refine ⟨?_, ?_⟩
  · rw [hnodes, hlayers]
    exact h.known
  · rw [hlayers]
    exact h.nodup

theorem chained_of_addEdge (h : a.Chained g) {edge : Nat} {e : Text × Text} (he : e ∈ g.edges)
    (hfresh : e ∉ a.chains.map (·.1)) (hstep : a.addEdge edge e.1 e.2 = .ok a') :
    a'.Chained g ∧ ∀ d ∈ a'.chains.map (·.1), d ∈ a.chains.map (·.1) ∨ d = e := by
  have htail := h.keeps _ (Digraph.fst_mem he)
  have hhead := h.keeps _ (Digraph.snd_mem he)
  obtain ⟨bottom, -, hstep⟩ := Except.bind_eq_ok.mp hstep
  obtain ⟨top, -, hstep⟩ := Except.bind_eq_ok.mp hstep
  dsimp only at hstep
  split at hstep
  · obtain rfl := Except.ok.inj hstep
    have hnodes := Digraph.nodes_addEdge_of_mem htail hhead
    refine ⟨⟨h.toNoted.congr hnodes rfl, ?_, ?_, h.listed, h.once⟩, fun d hd => .inl hd⟩
    · simp only [hnodes]
      exact h.keeps
    · simp only [hnodes]
      exact h.new
  · obtain ⟨⟨a₁, last⟩, hchain, hstep⟩ := Except.bind_eq_ok.mp hstep
    obtain rfl := Except.ok.inj hstep
    obtain ⟨hnoted, hlast, hadded⟩ := noted_of_addChain h.toNoted htail hchain
    have hchains := chains_addChain hchain
    have hnodes := Digraph.nodes_addEdge_of_mem hlast ((hadded e.2).mpr (.inl hhead))
    refine ⟨⟨hnoted.congr hnodes rfl, fun v hv => ?_, fun v hv => ?_, ?_, ?_⟩, ?_⟩
    · rw [hnodes, hadded]
      exact .inl (h.keeps v hv)
    · rw [hnodes, hadded] at hv
      simp only [hchains, List.mem_append, or_and_right, exists_or, List.mem_singleton, exists_eq_left]
      rcases hv with hv | hv
      · exact (h.new v hv).imp_right .inl
      · exact .inr (.inr hv)
    · rw [hchains]
      exact List.forall_mem_append.mpr ⟨h.listed, List.forall_mem_singleton.mpr he⟩
    · rw [hchains, List.map_append, List.map_singleton]
      exact h.once.append (List.nodup_singleton e) (List.disjoint_singleton.mpr hfresh)
    · intro d hd
      rw [hchains, List.map_append, List.map_singleton] at hd
      exact (List.mem_append.mp hd).imp_right List.mem_singleton.mp

theorem chained_of_foldlM {es : List ((Text × Text) × Nat)} (h : a.Chained g) (hes : ∀ e ∈ es, e.1 ∈ g.edges)
    (hnodup : (es.map (·.1)).Nodup) (hfresh : ∀ e ∈ es, e.1 ∉ a.chains.map (·.1))
    (hrun : es.foldlM (fun a (e, number) => a.addEdge number e.1 e.2) a = .ok a') : a'.Chained g := by
  induction es generalizing a with
  | nil =>
    obtain rfl := Except.ok.inj hrun
    exact h
  | cons e es ih =>
    rw [List.foldlM_cons] at hrun
    obtain ⟨a₁, hstep, hrun⟩ := Except.bind_eq_ok.mp hrun
    obtain ⟨he, hes⟩ := List.forall_mem_cons.mp hes
    obtain ⟨hfirst, hfresh⟩ := List.forall_mem_cons.mp hfresh
    obtain ⟨hother, hnodup⟩ := List.nodup_cons.mp hnodup
    obtain ⟨h₁, hchains⟩ := chained_of_addEdge h he hfirst hstep
    refine ih h₁ hes hnodup (fun d hd hmem => ?_) hrun
    rcases hchains d.1 hmem with hmem | heq
    · exact hfresh d hd hmem
    · exact hother (List.mem_map.mpr ⟨d, hd, heq⟩)

theorem chained_of_insertDummies {l : Layering Text} (hkeys : l.map (·.1) = g.nodes) (h : insertDummies g l = .ok a) :
    a.Chained g := by
  have hnodes := Digraph.nodes_ofLists_nil g.nodes_nodup
  have hstart : Chained ⟨Digraph.ofLists g.nodes [], l, []⟩ g := by
    refine ⟨⟨?_, hkeys ▸ g.nodes_nodup⟩, ?_, ?_, fun _ hc => (nomatch hc), List.nodup_nil⟩
    · simp only [hkeys, hnodes, imp_self, implies_true]
    · simp only [hnodes, imp_self, implies_true]
    · simp only [hnodes]
      exact fun v hv => .inl hv
  refine chained_of_foldlM hstart (fun e he => ?_) ?_ (fun _ _ => List.not_mem_nil) h
  · exact Digraph.mem_edgesByTail.mp (List.fst_mem_of_mem_zipIdx he)
  · rw [List.zipIdx_map_fst]
    exact g.nodup_edgesByTail

theorem Chained.chain_eq (h : a.Chained g) {c : (Text × Text) × List Text} (hc : c ∈ a.chains) :
    a.chain c.1.1 c.1.2 = c.2 := by
  obtain ⟨c', hc', hkey, hfound⟩ := List.exists_find?_key (p := fun c' : (Text × Text) × List Text => c'.1 = c.1)
    (fun _ => decide_eq_true_iff) (List.mem_map_of_mem hc)
  obtain rfl := List.inj_on_of_nodup_map h.once hc' hc hkey
  rw [chain, hfound]
  rfl

theorem Noted.exists_last (h : a.Noted) (hlayers : a.layers ≠ []) :
    ∃ v ∈ a.graph.nodes, a.layers.layer v = .ok (a.layerCount - 1) := by
  obtain ⟨e, he, hcount⟩ := Layering.exists_count_eq hlayers
  refine ⟨e.1, h.known _ (List.mem_map_of_mem he), (Layering.layer_of_mem h.nodup he).trans (congrArg _ ?_)⟩
  rw [layerCount, hcount, Int.add_sub_cancel]

end Augmented

namespace Arrangement

variable {g : Digraph Text} {a : Arrangement}

theorem chained (h : Arrangement.ofGraph g = .ok a) : a.augmented.Chained g.removeCycles.dag := by
  obtain ⟨l, hl, ha, -, -⟩ := of_ofGraph h
  exact Augmented.chained_of_insertDummies (reached_of_assignLayers g.acyclic_removeCycles hl).keys ha

theorem length_rows (h : Arrangement.ofGraph g = .ok a) : (a.rows.length : Int) = a.augmented.layerCount := by
  obtain ⟨hextends, -⟩ := extends_of_ofGraph h
  obtain ⟨-, -, -, harrange, -⟩ := of_ofGraph h
  exact Augmented.length_arrange hextends.covers harrange

theorem exists_mem_last (h : Arrangement.ofGraph g = .ok a) (hne : g.nodes ≠ []) :
    ∃ row v, a.rows.getLast? = some row ∧ v ∈ row := by
  obtain ⟨hextends, hperm⟩ := extends_of_ofGraph h
  obtain ⟨-, -, -, harrange, -⟩ := of_ofGraph h
  have hlayers : a.augmented.layers ≠ [] := by
    obtain ⟨v, hv⟩ := List.exists_mem_of_ne_nil _ hne
    exact List.ne_nil_of_mem (List.exists_of_mem_map (hextends.covers.known v (hextends.keeps v hv))).choose_spec.1
  obtain ⟨v, hv, hlayer⟩ := (chained h).exists_last hlayers
  obtain ⟨row, hrow, hvrow⟩ := List.mem_flatten.mp (hperm.mem_iff.mpr hv)
  obtain ⟨k, hk⟩ := List.mem_iff_getElem?.mp hrow
  have hlast := Except.ok.inj (hlayer.symm.trans (Augmented.layer_of_mem_row hextends.covers harrange hk hvrow))
  have hlength := length_rows h
  refine ⟨row, v, ?_, hvrow⟩
  rw [List.getLast?_eq_getElem?, ← hk]
  congr 1
  omega

theorem exists_chainOf_of_new (h : Arrangement.ofGraph g = .ok a) {v : Text} (hv : v ∈ a.augmented.graph.nodes)
    (hnew : v ∉ g.nodes) :
    ∃ e ∈ g.edges, e.1 ≠ e.2 ∧ ∀ f : Edge, (f.tail, f.head) = e → v ∈ chainOf a.augmented a.turned f := by
  have hchained := chained h
  obtain ⟨-, -, -, -, hturned⟩ := of_ofGraph h
  have hnew : v ∉ g.removeCycles.dag.nodes := by rwa [g.nodes_removeCycles]
  obtain ⟨c, hc, hvc⟩ := (hchained.new v hv).resolve_left hnew
  obtain ⟨e, he, hne, hforward⟩ := Digraph.mem_edges_removeCycles.mp (hchained.listed c hc)
  refine ⟨e, he, hne, ?_⟩
  rintro f rfl
  rw [← hchained.chain_eq hc, hforward, Digraph.forward_greedyOrder he hne] at hvc
  simp only [chainOf, hturned, List.contains_iff_mem]
  split
  · next hmem =>
    rw [if_pos hmem] at hvc
    exact List.mem_reverse.mpr hvc
  · next hmem =>
    rw [if_neg hmem] at hvc
    exact hvc

end Arrangement

end Yuml.Layered
