import Yuml.Layered.Dummies
import Yuml.Proofs.Layered.Layering

namespace Yuml.Layered

theorem isDummy_dummyName (edge step : Nat) : isDummy (dummyName edge step) = true := by
  rw [isDummy, List.isPrefixOf_iff_prefix]
  exact List.prefix_append _ _

namespace Augmented

structure Extends (a : Augmented) (g : Digraph Text) : Prop where
  keeps : ∀ v ∈ g.nodes, v ∈ a.graph.nodes
  new : ∀ v ∈ a.graph.nodes, v ∈ g.nodes ∨ isDummy v = true
  covers : a.layers.Covers a.graph.nodes
  chain_mem : ∀ c ∈ a.chains, ∀ v ∈ c.2, v ∈ a.graph.nodes ∧ isDummy v = true

theorem mem_nodes_addDummy {a : Augmented} {prev dummy v : Text} {layer : Int}
    (hprev : prev ∈ a.graph.nodes) :
    v ∈ (a.addDummy prev dummy layer).graph.nodes ↔ v ∈ a.graph.nodes ∨ v = dummy := by
  rw [addDummy, Digraph.nodes_addEdge_of_mem, Digraph.mem_addNode]
  · exact Digraph.mem_addNode.mpr (.inl hprev)
  · exact Digraph.mem_addNode.mpr (.inr rfl)

theorem Extends.addDummy {a : Augmented} {g : Digraph Text} (h : a.Extends g) {prev dummy : Text}
    {layer : Int} (hprev : prev ∈ a.graph.nodes) (hdummy : isDummy dummy = true) (hlayer : 0 ≤ layer) :
    (a.addDummy prev dummy layer).Extends g where
  keeps v hv := (mem_nodes_addDummy hprev).mpr (.inl (h.keeps v hv))
  new v hv := ((mem_nodes_addDummy hprev).mp hv).elim (h.new v) fun heq => .inr (heq ▸ hdummy)
  covers :=
    { known := fun v hv => Layering.mem_keys_set.mpr
        (((mem_nodes_addDummy hprev).mp hv).imp_left (h.covers.known v))
      nonneg := (h.covers.set hlayer dummy).nonneg }
  chain_mem c hc v hv := (h.chain_mem c hc v hv).imp_left fun hmem => (mem_nodes_addDummy hprev).mpr (.inl hmem)

theorem addChain_ok {g : Digraph Text} (edge : Nat) {tail : Text} (steps : List Nat) {prev : Text}
    {a : Augmented} (h : a.Extends g) (htail : tail ∈ a.graph.nodes) (hprev : prev ∈ a.graph.nodes) :
    ∃ a' last, addChain edge tail steps prev a = .ok (a', last) ∧ a'.Extends g ∧
      last ∈ a'.graph.nodes ∧ (∀ v ∈ a.graph.nodes, v ∈ a'.graph.nodes) ∧
      (∀ step ∈ steps, dummyName edge step ∈ a'.graph.nodes) ∧ a'.chains = a.chains := by
  induction steps generalizing prev a with
  | nil => exact ⟨a, prev, rfl, h, hprev, fun _ hv => hv, by simp, rfl⟩
  | cons step steps ih =>
    obtain ⟨top, htop, hpos, -⟩ := h.covers.exists_layer htail
    let a₁ := a.addDummy prev (dummyName edge step) (top + step)
    have h₁ : a₁.Extends g := h.addDummy hprev (isDummy_dummyName edge step) (by omega)
    have hkeep (v : Text) (hv : v ∈ a.graph.nodes) : v ∈ a₁.graph.nodes :=
      (mem_nodes_addDummy hprev).mpr (.inl hv)
    have hnew : dummyName edge step ∈ a₁.graph.nodes := (mem_nodes_addDummy hprev).mpr (.inr rfl)
    obtain ⟨a₂, last, heq, h₂, hlast, hkeep₂, hsteps, hchains⟩ := ih h₁ (hkeep tail htail) hnew
    refine ⟨a₂, last, ?_, h₂, hlast, fun v hv => hkeep₂ v (hkeep v hv), ?_, hchains⟩
    · simp only [addChain, htop, bind, Except.bind]
      exact heq
    · intro s hs
      rcases List.mem_cons.mp hs with rfl | hs
      · exact hkeep₂ _ hnew
      · exact hsteps s hs

theorem Extends.addEdge {a : Augmented} {g : Digraph Text} (h : a.Extends g) {u v : Text}
    (hu : u ∈ a.graph.nodes) (hv : v ∈ a.graph.nodes) :
    Extends { a with graph := a.graph.addEdge u v } g := by
  have hnodes := Digraph.nodes_addEdge_of_mem hu hv
  refine ⟨?_, ?_, ?_, ?_⟩
  all_goals simp only [hnodes]
  · exact h.keeps
  · exact h.new
  · exact h.covers
  · exact h.chain_mem

theorem Extends.addChain {a : Augmented} {g : Digraph Text} (h : a.Extends g)
    {c : (Text × Text) × List Text} (hc : ∀ v ∈ c.2, v ∈ a.graph.nodes ∧ isDummy v = true) :
    Extends { a with chains := a.chains ++ [c] } g where
  keeps := h.keeps
  new := h.new
  covers := h.covers
  chain_mem := by
    intro d hd
    rcases List.mem_append.mp hd with hd | hd
    · exact h.chain_mem d hd
    · obtain rfl := List.mem_singleton.mp hd
      exact hc

theorem addEdge_ok {g : Digraph Text} {a : Augmented} (h : a.Extends g) (edge : Nat) {tail head : Text}
    (htail : tail ∈ g.nodes) (hhead : head ∈ g.nodes) :
    ∃ a', a.addEdge edge tail head = .ok a' ∧ a'.Extends g := by
  have htail' := h.keeps tail htail
  have hhead' := h.keeps head hhead
  obtain ⟨bottom, hbottom, -, -⟩ := h.covers.exists_layer hhead'
  obtain ⟨top, htop, -, -⟩ := h.covers.exists_layer htail'
  simp only [addEdge, hbottom, htop, bind, Except.bind]
  by_cases hspan : bottom - top ≤ 1
  · rw [if_pos hspan]
    exact ⟨_, rfl, h.addEdge htail' hhead'⟩
  · let steps := (List.range ((bottom - top).toNat - 1)).map (· + 1)
    obtain ⟨a', last, heq, h', hlast, hkeep, hsteps, hchains⟩ :=
      addChain_ok edge steps h htail' htail'
    have hmem : ∀ v ∈ steps.map (dummyName edge), v ∈ a'.graph.nodes ∧ isDummy v = true := by
      intro v hv
      obtain ⟨s, hs, rfl⟩ := List.mem_map.mp hv
      exact ⟨hsteps s hs, isDummy_dummyName edge s⟩
    rw [if_neg hspan, heq]
    exact ⟨_, rfl, (h'.addChain (c := ((tail, head), _)) hmem).addEdge hlast (hkeep head hhead')⟩

theorem mem_chain {a : Augmented} {g : Digraph Text} (h : a.Extends g) {tail head v : Text}
    (hv : v ∈ a.chain tail head) : v ∈ a.graph.nodes ∧ isDummy v = true := by
  unfold chain at hv
  cases hc : a.chains.find? (·.1 = (tail, head)) with
  | none => simp [hc] at hv
  | some c =>
    simp only [hc, Option.map_some, Option.getD_some] at hv
    exact h.chain_mem c (List.mem_of_find?_eq_some hc) v hv

end Augmented

theorem insertDummies_ok {g : Digraph Text} {l : Layering Text} (h : l.Covers g.nodes) :
    ∃ a, insertDummies g l = .ok a ∧ a.Extends g := by
  have hnodes := Digraph.nodes_ofLists_nil g.nodes_nodup
  have hstart : Augmented.Extends ⟨Digraph.ofLists g.nodes [], l, []⟩ g := by
    refine ⟨?_, ?_, ?_, ?_⟩
    all_goals simp only [hnodes]
    · exact fun v hv => hv
    · exact fun v hv => .inl hv
    · exact h
    · simp
  refine Except.foldlM_ok _ (fun a ha e he => ?_) hstart
  have hedge : e.1 ∈ g.edges := Digraph.mem_edgesByTail.mp (List.fst_mem_of_mem_zipIdx he)
  exact Augmented.addEdge_ok ha e.2 (Digraph.fst_mem hedge) (Digraph.snd_mem hedge)

end Yuml.Layered
