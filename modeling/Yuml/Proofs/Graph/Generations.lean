import Mathlib.Data.Fintype.Card
import Mathlib.Data.List.Perm.Basic
import Mathlib.Data.Set.Finite.Basic
import Mathlib.Order.WellFounded
import Yuml.Graph.Generations
import Yuml.Proofs.Graph.Basic

namespace Yuml.Digraph

variable {V : Type} [DecidableEq V] {g : Digraph V}

theorem isSource_iff {among : List V} {v : V} :
    g.isSource among v = true ↔ ∀ u ∈ among, (u, v) ∉ g.edges := by
  simp only [isSource, Bool.not_eq_true', List.any_eq_false, List.contains_iff_mem, mem_predecessors]
  exact ⟨fun h u hu he => h u he hu, fun h u he hu => h u hu he⟩

omit [DecidableEq V] in
theorem exists_cycle {r : V → V → Prop} {among : List V} (h : ∀ u ∈ among, ∃ v ∈ among, r u v) {u : V}
    (hu : u ∈ among) : ∃ v, Relation.ReflTransGen r u v ∧ Relation.TransGen r v v := by
  by_contra! hno
  let later (a b : {v // v ∈ among ∧ Relation.ReflTransGen r u v}) : Prop := Relation.TransGen r b.1 a.1
  have : Finite {v // v ∈ among ∧ Relation.ReflTransGen r u v} :=
    ((List.finite_toSet among).subset fun _ hv => hv.1).to_subtype
  have : IsTrans _ later := ⟨fun _ _ _ hab hbc => hbc.trans hab⟩
  have : Std.Irrefl later := ⟨fun a => hno a.1 a.2.2⟩
  obtain ⟨v, -, hlast⟩ := (Finite.wellFounded_of_trans_of_irrefl later).has_min Set.univ ⟨⟨u, hu, .refl⟩, trivial⟩
  obtain ⟨w, hw, hvw⟩ := h v.1 v.2.1
  exact hlast ⟨w, hw, v.2.2.tail hvw⟩ trivial (.single hvw)

omit [DecidableEq V] in
theorem Acyclic.exists_first (h : g.Acyclic) {among : List V} (hne : among ≠ []) :
    ∃ v ∈ among, ∀ u ∈ among, ¬ g.Leads u v := by
  by_contra! hall
  obtain ⟨u, hu⟩ := List.exists_mem_of_ne_nil _ hne
  obtain ⟨v, -, hv⟩ := exists_cycle (r := fun v u => g.Leads u v) hall hu
  have hback : Relation.TransGen g.Leads v v := Relation.transGen_swap.mp hv
  unfold Leads at hback
  rw [Relation.transGen_eq_self] at hback
  exact h v hback

theorem Acyclic.sources_ne_nil (h : g.Acyclic) {among : List V} (hne : among ≠ []) :
    g.sources among ≠ [] := by
  obtain ⟨v, hv, hfirst⟩ := h.exists_first hne
  have hsource : g.isSource among v = true :=
    isSource_iff.mpr fun u hu he => hfirst u hu (.single he)
  exact List.ne_nil_of_mem (List.mem_filter.mpr ⟨hv, hsource⟩)

theorem Acyclic.generationsOf?_eq (h : g.Acyclic) (remaining : List V) :
    ∃ generations, g.generationsOf? remaining = some generations ∧
      generations.flatten.Perm remaining := by
  induction remaining using generationsOf?.induct g with
  | case1 => exact ⟨[], by rw [generationsOf?, if_pos rfl], .refl _⟩
  | case2 remaining hne hsources => exact absurd hsources (h.sources_ne_nil hne)
  | case3 remaining hne hsources _ ih =>
    obtain ⟨generations, heq, hperm⟩ := ih
    refine ⟨g.sources remaining :: generations, ?_, ?_⟩
    · rw [generationsOf?, if_neg hne, dif_neg hsources, heq]
      rfl
    · rw [List.flatten_cons]
      exact (hperm.append_left _).trans (List.filter_append_perm _ _)

theorem generationsOf?_eq_none {p : V → Prop} (hp : ∀ v, p v → ∃ u, p u ∧ (u, v) ∈ g.edges) (remaining : List V)
    (hmem : ∀ v, p v → v ∈ remaining) {v : V} (hv : p v) : g.generationsOf? remaining = none := by
  induction remaining using generationsOf?.induct g with
  | case1 => exact absurd (hmem v hv) List.not_mem_nil
  | case2 remaining hne hsources => rw [generationsOf?, if_neg hne, dif_pos hsources]
  | case3 remaining hne hsources _ ih =>
    rw [generationsOf?, if_neg hne, dif_neg hsources, ih fun w hw => ?_, Option.map_none]
    obtain ⟨u, hu, huw⟩ := hp w hw
    refine List.mem_filter.mpr ⟨hmem w hw, ?_⟩
    rw [Bool.not_eq_true', Bool.eq_false_iff]
    exact fun hsource => isSource_iff.mp hsource u (hmem u hu) huw

theorem generations?_eq_none (h : ¬ g.Acyclic) : g.generations? = none := by
  unfold Acyclic at h
  push Not at h
  obtain ⟨v, hv⟩ := h
  refine generationsOf?_eq_none (p := fun v => g.Leads v v) (fun v hv => ?_) g.nodes (fun v hv => ?_) hv
  · obtain ⟨u, hvu, huv⟩ := Relation.TransGen.tail'_iff.mp hv
    exact ⟨u, Relation.TransGen.head' huv hvu, huv⟩
  · obtain ⟨u, -, huv⟩ := Relation.TransGen.tail'_iff.mp hv
    exact snd_mem huv

theorem isAcyclic_iff : g.isAcyclic = true ↔ g.Acyclic := by
  constructor
  · intro h
    by_contra hcycle
    rw [isAcyclic, generations?_eq_none hcycle] at h
    cases h
  · intro h
    obtain ⟨generations, heq, -⟩ := h.generationsOf?_eq g.nodes
    rw [isAcyclic, generations?, heq, Option.isSome_some]

end Yuml.Digraph
