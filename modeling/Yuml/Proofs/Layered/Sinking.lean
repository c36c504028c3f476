import Yuml.Proofs.Layered.Routes

namespace Yuml.Layered

namespace Augmented

def Sinks (a : Augmented) (ids : List Text) : Prop :=
  ids.Pairwise fun u v => ∃ m n, a.layers.layer u = .ok m ∧ a.layers.layer v = .ok n ∧ m < n

def Sinking (a : Augmented) (k : Nat) : Prop :=
  ∀ c ∈ a.chains, a.Sinks c.2 ∧ ∃ number < k, ∀ v ∈ c.2, ∃ step, v = dummyName number step

variable {a a' : Augmented}

theorem Sinks.congr {ids : List Text} (h : a.Sinks ids)
    (hlayer : ∀ v ∈ ids, a'.layers.layer v = a.layers.layer v) : a'.Sinks ids := by
  refine h.imp_of_mem fun {u v} hu hv hlt => ?_
  rw [hlayer u hu, hlayer v hv]
  exact hlt

/-- A dummy may bear the name of the tail and take it down with it: then the dummies after it are even lower. -/
theorem sinks_of_addChain {edge : Nat} {tail : Text} {steps : List Nat} {prev last : Text} {top : Int}
    (hsteps : steps.Pairwise (· < ·)) (htop : a.layers.layer tail = .ok top)
    (h : addChain edge tail steps prev a = .ok (a', last)) :
    a'.Sinks (steps.map (dummyName edge)) ∧
      ∀ step ∈ steps, ∃ n, a'.layers.layer (dummyName edge step) = .ok n ∧ top + step ≤ n := by
  induction steps generalizing prev a top with
  | nil => exact ⟨.nil, fun _ hstep => nomatch hstep⟩
  | cons step steps ih =>
    obtain ⟨hfirst, hsteps⟩ := List.pairwise_cons.mp hsteps
    obtain ⟨top', htop', hrest⟩ := Except.bind_eq_ok.mp h
    obtain rfl := Except.ok.inj (htop.symm.trans htop')
    obtain ⟨top₁, htop₁, hle⟩ : ∃ top₁, (a.addDummy prev (dummyName edge step) (top + step)).layers.layer tail = .ok top₁ ∧
        top ≤ top₁ := by
      rw [layers_addDummy, Layering.layer_set]
      split
      · exact ⟨_, rfl, by omega⟩
      · exact ⟨top, htop, le_rfl⟩
    obtain ⟨hsinks, hlower⟩ := ih hsteps htop₁ hrest
    have hkept : a'.layers.layer (dummyName edge step) = .ok (top + step) := by
      rw [layer_addChain hrest fun s hs heq => (hfirst s hs).ne (dummyName_inj heq).2.symm, layers_addDummy,
        Layering.layer_set, if_pos rfl]
    refine ⟨List.pairwise_cons.mpr ⟨fun v hv => ?_, hsinks⟩, List.forall_mem_cons.mpr ⟨⟨_, hkept, le_rfl⟩, ?_⟩⟩
    · obtain ⟨s, hs, rfl⟩ := List.mem_map.mp hv
      obtain ⟨n, hn, hbelow⟩ := hlower s hs
      have hlt := hfirst s hs
      exact ⟨_, n, hkept, hn, by omega⟩
    · intro s hs
      obtain ⟨n, hn, hbelow⟩ := hlower s hs
      exact ⟨n, hn, by omega⟩

theorem sinking_of_addEdge {k : Nat} {tail head : Text} (h : a.Sinking k) (hstep : a.addEdge k tail head = .ok a') :
    a'.Sinking (k + 1) := by
  have hold : ∀ c ∈ a.chains, a'.Sinks c.2 ∧ ∃ number < k + 1, ∀ v ∈ c.2, ∃ step, v = dummyName number step := by
    intro c hc
    obtain ⟨hsinks, number, hlt, hnamed⟩ := h c hc
    refine ⟨hsinks.congr fun v hv => layer_addEdge hstep fun step heq => ?_, number, by omega, hnamed⟩
    obtain ⟨step', rfl⟩ := hnamed v hv
    exact hlt.ne (dummyName_inj heq).1.symm
  obtain ⟨bottom, -, hstep⟩ := Except.bind_eq_ok.mp hstep
  obtain ⟨top, htop, hstep⟩ := Except.bind_eq_ok.mp hstep
  dsimp only at hstep
  split at hstep
  · obtain rfl := Except.ok.inj hstep
    exact hold
  · obtain ⟨⟨a₁, last⟩, hchain, hstep⟩ := Except.bind_eq_ok.mp hstep
    obtain rfl := Except.ok.inj hstep
    have hsteps : ((List.range ((bottom - top).toNat - 1)).map (· + 1)).Pairwise (· < ·) :=
      List.pairwise_map.mpr (List.pairwise_lt_range.imp Nat.succ_lt_succ)
    rw [Sinking, chains_addChain hchain]
    refine List.forall_mem_append.mpr ⟨hold, List.forall_mem_singleton.mpr ⟨?_, k, Nat.lt_succ_self k, ?_⟩⟩
    · exact (sinks_of_addChain hsteps htop hchain).1
    · intro v hv
      obtain ⟨step, -, rfl⟩ := List.mem_map.mp hv
      exact ⟨step, rfl⟩

theorem sinking_of_foldlM {es : List (Text × Text)} {k : Nat} (h : a.Sinking k)
    (hrun : (es.zipIdx k).foldlM (fun a (e, number) => a.addEdge number e.1 e.2) a = .ok a') :
    a'.Sinking (k + es.length) := by
  induction es generalizing k a with
  | nil =>
    obtain rfl := Except.ok.inj hrun
    exact h
  | cons e es ih =>
    rw [List.zipIdx_cons, List.foldlM_cons] at hrun
    obtain ⟨a₁, hstep, hrun⟩ := Except.bind_eq_ok.mp hrun
    have hdone := ih (sinking_of_addEdge h hstep) hrun
    rwa [List.length_cons, Nat.add_comm es.length, ← Nat.add_assoc]

theorem Sinking.chain {k : Nat} (h : a.Sinking k) (u v : Text) : a.Sinks (a.chain u v) := by
  rw [Augmented.chain]
  cases hfound : a.chains.find? (·.1 = (u, v)) with
  | none => exact List.Pairwise.nil
  | some c => exact (h c (List.mem_of_find?_eq_some hfound)).1

end Augmented

theorem Arrangement.pairwise_layer_chainOf {g : Digraph Text} {a : Arrangement} (h : Arrangement.ofGraph g = .ok a)
    (e : Edge) : (chainOf a.augmented a.turned e).Pairwise fun u v =>
      a.augmented.layers.layer u ≠ a.augmented.layers.layer v := by
  obtain ⟨l, -, ha, -, -⟩ := of_ofGraph h
  have hstart : Augmented.Sinking ⟨Digraph.ofLists g.removeCycles.dag.nodes [], l, []⟩ 0 := fun _ hc => nomatch hc
  have hsinking := Augmented.sinking_of_foldlM hstart ha
  have hchain (u v : Text) : (a.augmented.chain u v).Pairwise fun u v =>
      a.augmented.layers.layer u ≠ a.augmented.layers.layer v :=
    (hsinking.chain u v).imp fun ⟨m, n, hm, hn, hlt⟩ => by
      rw [hm, hn]
      exact fun heq => hlt.ne (Except.ok.inj heq)
  rw [chainOf]
  split
  · exact List.pairwise_reverse.mpr ((hchain e.head e.tail).imp Ne.symm)
  · exact hchain e.tail e.head

end Yuml.Layered
