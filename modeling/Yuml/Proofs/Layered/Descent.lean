import Yuml.Proofs.Graph.Acyclic
import Yuml.Proofs.Layered.Dummies

namespace Yuml.Layered

variable {V : Type} [DecidableEq V]

namespace Layering

theorem layer?_cons (u v : V) (n : Int) (l : Layering V) :
    Layering.layer? ((u, n) :: l) v = if u = v then some n else l.layer? v := by
  by_cases h : u = v <;> simp [layer?, h]

theorem layer?_set (l : Layering V) (v w : V) (n : Int) :
    (l.set v n).layer? w = if w = v then some n else l.layer? w := by
  induction l with
  | nil =>
    rw [set, layer?_cons]
    exact if_congr eq_comm rfl rfl
  | cons e l ih =>
    obtain ⟨u, m⟩ := e
    rw [set]
    by_cases hu : u = v
    · rw [if_pos hu, layer?_cons, layer?_cons, hu]
      by_cases hw : w = v
      · rw [if_pos hw, if_pos hw.symm]
      · rw [if_neg hw, if_neg (Ne.symm hw), if_neg (Ne.symm hw)]
    · rw [if_neg hu, layer?_cons, layer?_cons, ih]
      by_cases huw : u = w
      · rw [if_pos huw, if_pos huw, if_neg (huw ▸ hu)]
      · rw [if_neg huw, if_neg huw]

theorem layer_set (l : Layering V) (v w : V) (n : Int) :
    (l.set v n).layer w = if w = v then .ok n else l.layer w := by
  rw [layer, layer?_set]
  by_cases h : w = v
  · rw [if_pos h, if_pos h]
  · rw [if_neg h, if_neg h, layer]

def Above (l : Layering V) (v w : V) : Prop :=
  ∃ n m, l.layer v = .ok n ∧ l.layer w = .ok m ∧ n < m

/-- What lowering the heads of some edges below their tails, one after the other, does to layers:
heads are below their tails then, nothing goes up, and what is no head stays where it is. -/
structure Lowered (edges : List (V × V)) (l l' : Layering V) : Prop where
  above : ∀ e ∈ edges, l'.Above e.1 e.2
  kept : ∀ v, (∀ e ∈ edges, e.2 ≠ v) → l'.layer v = l.layer v
  sinks : ∀ v n, l.layer v = .ok n → ∃ m, l'.layer v = .ok m ∧ n ≤ m

namespace Lowered

theorem nil (l : Layering V) : Lowered [] l l where
  above _ he := nomatch he
  kept _ _ := rfl
  sinks _ n hn := ⟨n, hn, le_refl n⟩

theorem single {l : Layering V} {v w : V} {own above : Int} (hne : v ≠ w) (hown : l.layer w = .ok own)
    (habove : l.layer v = .ok above) : Lowered [(v, w)] l (l.set w (max own (above + 1))) := by
  refine ⟨?_, ?_, ?_⟩
  · intro e he
    obtain rfl := List.mem_singleton.mp he
    refine ⟨above, max own (above + 1), ?_, ?_, by omega⟩
    · rw [layer_set, if_neg hne, habove]
    · rw [layer_set, if_pos rfl]
  · intro u hu
    rw [layer_set, if_neg (hu _ List.mem_cons_self).symm]
  · intro u n hn
    rw [layer_set]
    by_cases huw : u = w
    · obtain rfl : own = n := Except.ok.inj (hown.symm.trans (huw ▸ hn))
      exact ⟨_, if_pos huw, by omega⟩
    · exact ⟨n, by rw [if_neg huw, hn], le_refl n⟩

theorem trans {es es' : List (V × V)} {l l' l'' : Layering V} (h : Lowered es l l')
    (h' : Lowered es' l' l'') (hapart : ∀ e ∈ es, ∀ e' ∈ es', e'.2 ≠ e.1) :
    Lowered (es ++ es') l l'' := by
  refine ⟨?_, ?_, ?_⟩
  · intro e he
    rcases List.mem_append.mp he with he | he
    · obtain ⟨n, m, hn, hm, hlt⟩ := h.above e he
      obtain ⟨m', hm', hle⟩ := h'.sinks e.2 m hm
      exact ⟨n, m', by rw [h'.kept e.1 (hapart e he), hn], hm', by omega⟩
    · exact h'.above e he
  · intro v hv
    rw [h'.kept v fun e he => hv e (List.mem_append_right _ he),
      h.kept v fun e he => hv e (List.mem_append_left _ he)]
  · intro v n hn
    obtain ⟨m, hm, hle⟩ := h.sinks v n hn
    obtain ⟨m', hm', hle'⟩ := h'.sinks v m hm
    exact ⟨m', hm', by omega⟩

end Lowered

end Layering

open Layering

theorem lowered_of_lower {g : Digraph V} (hg : g.Acyclic) {l l' : Layering V} {v : V}
    (h : lower g l v = .ok l') : Lowered ((g.successors v).map (v, ·)) l l' := by
  have hne : ∀ w ∈ g.successors v, v ≠ w := fun w hw =>
    hg.ne_of_mem (Digraph.mem_successors.mp hw)
  rw [lower] at h
  generalize g.successors v = ws at h hne
  induction ws generalizing l with
  | nil =>
    obtain rfl := Except.ok.inj h
    exact .nil l
  | cons w ws ih =>
    obtain ⟨hvw, hvws⟩ := List.forall_mem_cons.mp hne
    rw [List.foldlM_cons] at h
    obtain ⟨l₁, hstep, hrest⟩ := Except.bind_eq_ok.mp h
    obtain ⟨own, hown, hstep⟩ := Except.bind_eq_ok.mp hstep
    obtain ⟨above, habove, hstep⟩ := Except.bind_eq_ok.mp hstep
    obtain rfl := Except.ok.inj hstep
    refine (Lowered.single hvw hown habove).trans (ih hrest hvws) ?_
    intro e he e' he'
    obtain rfl := List.mem_singleton.mp he
    obtain ⟨w', hw', rfl⟩ := List.mem_map.mp he'
    exact (hvws w' hw').symm

theorem lowered_of_foldlM {g : Digraph V} (hg : g.Acyclic) {vs : List V} (hvs : g.Ordered vs)
    {l l' : Layering V} (h : vs.foldlM (lower g) l = .ok l') :
    Lowered (vs.flatMap fun v => (g.successors v).map (v, ·)) l l' := by
  induction vs generalizing l with
  | nil =>
    obtain rfl := Except.ok.inj h
    exact .nil l
  | cons v vs ih =>
    rw [List.foldlM_cons] at h
    obtain ⟨l₁, hstep, hrest⟩ := Except.bind_eq_ok.mp h
    obtain ⟨hfirst, hvs⟩ := List.pairwise_cons.mp hvs
    refine (lowered_of_lower hg hstep).trans (ih hvs hrest) ?_
    -- no later node has an edge back to `v`
    intro e he e' he'
    obtain ⟨w, hw, rfl⟩ := List.mem_map.mp he
    obtain ⟨u, hu, he'⟩ := List.mem_flatMap.mp he'
    obtain ⟨w', hw', rfl⟩ := List.mem_map.mp he'
    rintro (rfl : w' = v)
    exact hfirst u hu (Digraph.mem_successors.mp hw')

theorem above_of_foldlM {g : Digraph V} (hg : g.Acyclic) {order : List V} (hperm : order.Perm g.nodes)
    (hordered : g.Ordered order) {l l' : Layering V} (h : order.foldlM (lower g) l = .ok l') :
    ∀ e ∈ g.edges, l'.Above e.1 e.2 := by
  intro e he
  apply (lowered_of_foldlM hg hordered h).above
  refine List.mem_flatMap.mpr ⟨e.1, hperm.mem_iff.mpr (Digraph.fst_mem he), ?_⟩
  exact List.mem_map.mpr ⟨e.2, Digraph.mem_successors.mpr he, rfl⟩

theorem assignLayers_eq {g : Digraph V} (hg : g.Acyclic) : ∃ order, order.Perm g.nodes ∧ g.Ordered order ∧
    assignLayers g = order.foldlM (lower g) (g.nodes.map fun v => (v, 0)) := by
  obtain ⟨generations, hgenerations, hperm⟩ := hg.generationsOf?_eq g.nodes
  refine ⟨generations.flatten, hperm, (Digraph.ordered_generationsOf? g.nodes hgenerations).2, ?_⟩
  rw [assignLayers, Digraph.generations?, hgenerations]

theorem above_of_assignLayers {g : Digraph V} (hg : g.Acyclic) {l : Layering V}
    (h : assignLayers g = .ok l) : ∀ e ∈ g.edges, l.Above e.1 e.2 := by
  obtain ⟨order, hperm, hordered, heq⟩ := assignLayers_eq hg
  exact above_of_foldlM hg hperm hordered (heq ▸ h)

namespace Augmented

theorem layer_addChain {edge : Nat} {tail : Text} {steps : List Nat} {prev last : Text}
    {a a' : Augmented} (h : addChain edge tail steps prev a = .ok (a', last)) {v : Text}
    (hv : ∀ step ∈ steps, dummyName edge step ≠ v) : a'.layers.layer v = a.layers.layer v := by
  induction steps generalizing prev a with
  | nil =>
    obtain ⟨rfl, -⟩ := Prod.mk.inj (Except.ok.inj h)
    rfl
  | cons step steps ih =>
    obtain ⟨top, -, hrest⟩ := Except.bind_eq_ok.mp h
    obtain ⟨hstep, hsteps⟩ := List.forall_mem_cons.mp hv
    rw [ih hrest hsteps, layers_addDummy, layer_set, if_neg hstep.symm]

theorem chains_addChain {edge : Nat} {tail : Text} {steps : List Nat} {prev last : Text} {a a' : Augmented}
    (h : addChain edge tail steps prev a = .ok (a', last)) : a'.chains = a.chains := by
  induction steps generalizing prev a with
  | nil =>
    obtain ⟨rfl, -⟩ := Prod.mk.inj (Except.ok.inj h)
    rfl
  | cons step steps ih =>
    obtain ⟨top, -, hrest⟩ := Except.bind_eq_ok.mp h
    rw [ih hrest, chains_addDummy]

theorem layer_addEdge {a a' : Augmented} {edge : Nat} {tail head : Text}
    (h : a.addEdge edge tail head = .ok a') {v : Text} (hv : ∀ step, dummyName edge step ≠ v) :
    a'.layers.layer v = a.layers.layer v := by
  obtain ⟨bottom, -, h⟩ := Except.bind_eq_ok.mp h
  obtain ⟨top, -, h⟩ := Except.bind_eq_ok.mp h
  dsimp only at h
  split at h
  · obtain rfl := Except.ok.inj h
    rfl
  · obtain ⟨⟨a₁, last⟩, hchain, h⟩ := Except.bind_eq_ok.mp h
    obtain rfl := Except.ok.inj h
    exact layer_addChain hchain fun step _ => hv step

end Augmented

theorem layer_insertDummies {g : Digraph Text} {l : Layering Text} {a : Augmented}
    (h : insertDummies g l = .ok a) {v : Text} (hv : ∀ edge step, dummyName edge step ≠ v) :
    a.layers.layer v = l.layer v := by
  refine Except.foldlM_keeps (P := fun a : Augmented => a.layers.layer v = l.layer v) ?_ rfl h
  intro a ha e _ a' hstep
  rw [← ha]
  exact Augmented.layer_addEdge hstep (hv e.2)

end Yuml.Layered
