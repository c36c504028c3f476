import Yuml.Proofs.Graph.Path
import Yuml.Proofs.Layered.Descent

namespace Yuml.Layered

variable {V : Type} [DecidableEq V] {g : Digraph V}

namespace Layering

theorem keys_set_of_mem {l : Layering V} {v : V} (h : v ∈ l.map (·.1)) (n : Int) :
    (l.set v n).map (·.1) = l.map (·.1) := by
  induction l with
  | nil => cases h
  | cons e l ih =>
    obtain ⟨w, m⟩ := e
    rw [set]
    by_cases hw : w = v
    · rw [if_pos hw, List.map_cons, List.map_cons]
    · rw [if_neg hw, List.map_cons, List.map_cons, ih ((List.mem_cons.mp h).resolve_left (Ne.symm hw))]

theorem mem_of_layer {l : Layering V} {v : V} {n : Int} (h : l.layer v = .ok n) : (v, n) ∈ l := by
  obtain ⟨⟨w, m⟩, he, rfl⟩ := Option.map_eq_some_iff.mp (layer_eq_ok.mp h)
  have hw : w = v := by simpa using List.find?_some he
  exact hw ▸ List.mem_of_find?_eq_some he

theorem mem_keys_of_layer {l : Layering V} {v : V} {n : Int} (h : l.layer v = .ok n) : v ∈ l.map (·.1) :=
  List.mem_map_of_mem (mem_of_layer h)

theorem layer_of_mem {l : Layering V} (hnodup : (l.map (·.1)).Nodup) {e : V × Int} (h : e ∈ l) : l.layer e.1 = .ok e.2 := by
  obtain ⟨n, hn, hmem⟩ := exists_layer (List.mem_map_of_mem h)
  rw [hn, List.inj_on_of_nodup_map hnodup h hmem rfl]

theorem ext_layer {l l' : Layering V} (hkeys : l.map (·.1) = l'.map (·.1)) (hnodup : (l.map (·.1)).Nodup)
    (h : ∀ v ∈ l.map (·.1), l.layer? v = l'.layer? v) : l = l' := by
  induction l generalizing l' with
  | nil => exact (List.map_eq_nil_iff.mp hkeys.symm).symm
  | cons e l ih =>
    obtain ⟨v, n⟩ := e
    cases l' with
    | nil => cases hkeys
    | cons e' l' =>
      obtain ⟨v', n'⟩ := e'
      rw [List.map_cons, List.map_cons, List.cons.injEq] at hkeys
      obtain ⟨rfl, hkeys⟩ := hkeys
      obtain ⟨hnew, hnodup⟩ := List.nodup_cons.mp hnodup
      have hfirst := h v List.mem_cons_self
      rw [layer?_cons, layer?_cons, if_pos rfl, if_pos rfl] at hfirst
      obtain rfl := Option.some.inj hfirst
      refine congrArg _ (ih hkeys hnodup fun w hw => ?_)
      have hne : v ≠ w := fun heq => hnew (heq ▸ hw)
      have hrest := h w (List.mem_cons_of_mem _ hw)
      rwa [layer?_cons, layer?_cons, if_neg hne, if_neg hne] at hrest

structure Reached (l : Layering V) (g : Digraph V) : Prop where
  keys : l.map (·.1) = g.nodes
  path : ∀ v n, l.layer v = .ok n → ∃ k : Nat, n = k ∧ ∃ u vs, g.IsPath u v vs ∧ vs.length = k + 1

namespace Reached

theorem start (g : Digraph V) : Reached (g.nodes.map fun v => (v, 0)) g where
  keys := by
    rw [List.map_map]
    exact List.map_id g.nodes
  path v n hn := by
    obtain ⟨w, hw, heq⟩ := List.mem_map.mp (mem_of_layer hn)
    obtain ⟨rfl, rfl⟩ := Prod.mk.inj heq
    exact ⟨0, rfl, w, [w], .single hw, rfl⟩

variable {l : Layering V} (h : l.Reached g)

include h

theorem set (hg : g.Acyclic) {v w : V} (he : (v, w) ∈ g.edges) {own above : Int} (hown : l.layer w = .ok own)
    (habove : l.layer v = .ok above) : Reached (l.set w (max own (above + 1))) g where
  keys := (keys_set_of_mem (mem_keys_of_layer hown) _).trans h.keys
  path x n hn := by
    rw [layer_set] at hn
    split at hn
    · next hx =>
      subst hx
      obtain rfl := Except.ok.inj hn
      rcases le_total own (above + 1) with hle | hle
      · obtain ⟨k, rfl, u, vs, hpath, hlength⟩ := h.path v above habove
        rw [max_eq_right hle]
        exact ⟨k + 1, rfl, u, vs ++ [x], hpath.concat hg he, by rw [List.length_append, hlength, List.length_singleton]⟩
      · rw [max_eq_left hle]
        exact h.path x own hown
    · exact h.path x n hn

theorem lower (hg : g.Acyclic) {v : V} {l' : Layering V} (hl : lower g l v = .ok l') : l'.Reached g := by
  refine Except.foldlM_keeps (P := fun l : Layering V => l.Reached g) (fun l hl w hw l' hstep => ?_) h hl
  obtain ⟨own, hown, hstep⟩ := Except.bind_eq_ok.mp hstep
  obtain ⟨above, habove, hstep⟩ := Except.bind_eq_ok.mp hstep
  obtain rfl := Except.ok.inj hstep
  exact hl.set hg (Digraph.mem_successors.mp hw) hown habove

theorem length_le (habove : ∀ e ∈ g.edges, l.Above e.1 e.2) {u v : V} {vs : List V} (hpath : g.IsPath u v vs) {n : Int}
    (hn : l.layer v = .ok n) : (vs.length : Int) ≤ n + 1 := by
  induction hk : vs.length generalizing vs v n with
  | zero => exact absurd hpath.head (by simp [List.length_eq_zero_iff.mp hk])
  | succ k ih =>
    obtain ⟨m, rfl, -⟩ := h.path v n hn
    cases k with
    | zero => omega
    | succ k =>
      obtain ⟨x, ws, hpath', he, hlength⟩ := hpath.exists_edge hk
      obtain ⟨a, b, ha, hb, hlt⟩ := habove _ he
      have hrest := ih hpath' ha hlength
      obtain rfl : (m : Int) = b := Except.ok.inj (hn.symm.trans hb)
      omega

theorem exists_depth (habove : ∀ e ∈ g.edges, l.Above e.1 e.2) {v : V} (hv : v ∈ g.nodes) :
    ∃ n : Nat, l.layer v = .ok n ∧ g.IsDepth v n := by
  obtain ⟨n, hn, -⟩ := exists_layer (h.keys ▸ hv)
  obtain ⟨k, rfl, hreached⟩ := h.path v n hn
  refine ⟨k, hn, hreached, ?_⟩
  rintro m ⟨u, vs, hpath, hlength⟩
  have hle := h.length_le habove hpath hn
  omega

theorem exists_predecessor (habove : ∀ e ∈ g.edges, l.Above e.1 e.2) {v : V} {n : Nat}
    (hn : l.layer v = .ok ((n : Int) + 1)) : ∃ u, (u, v) ∈ g.edges ∧ l.layer u = .ok n := by
  obtain ⟨k, hk, u, vs, hpath, hlength⟩ := h.path v _ hn
  obtain ⟨x, ws, hpath', he, hlength'⟩ := hpath.exists_edge (k := n) (by omega)
  obtain ⟨a, b, ha, hb, hlt⟩ := habove _ he
  have hle := h.length_le habove hpath' ha
  obtain rfl := Except.ok.inj (hn.symm.trans hb)
  obtain rfl : a = n := by omega
  exact ⟨x, he, ha⟩

theorem exists_above (habove : ∀ e ∈ g.edges, l.Above e.1 e.2) {v : V} {n : Nat} (hn : l.layer v = .ok (n : Int)) :
    ∀ k ≤ n, ∃ u ∈ g.nodes, l.layer u = .ok (k : Int) := by
  induction n generalizing v with
  | zero =>
    intro k hk
    obtain rfl := Nat.le_zero.mp hk
    exact ⟨v, h.keys ▸ mem_keys_of_layer hn, hn⟩
  | succ n ih =>
    intro k hk
    rcases Nat.lt_or_eq_of_le hk with hlt | rfl
    · obtain ⟨u, -, hu⟩ := h.exists_predecessor habove hn
      exact ih hu k (Nat.le_of_lt_succ hlt)
    · exact ⟨v, h.keys ▸ mem_keys_of_layer hn, hn⟩

theorem unique (habove : ∀ e ∈ g.edges, l.Above e.1 e.2) {l' : Layering V} (h' : l'.Reached g)
    (habove' : ∀ e ∈ g.edges, l'.Above e.1 e.2) : l = l' := by
  refine ext_layer (h.keys.trans h'.keys.symm) (h.keys ▸ g.nodes_nodup) fun v hv => ?_
  obtain ⟨n, hn, hdepth⟩ := h.exists_depth habove (h.keys ▸ hv)
  obtain ⟨m, hm, hdepth'⟩ := h'.exists_depth habove' (h.keys ▸ hv)
  rw [layer_eq_ok.mp hn, layer_eq_ok.mp hm, hdepth.unique hdepth']

end Reached

end Layering

open Layering

theorem reached_of_foldlM (hg : g.Acyclic) {order : List V} {l : Layering V}
    (h : order.foldlM (lower g) (g.nodes.map fun v => (v, 0)) = .ok l) : l.Reached g :=
  Except.foldlM_keeps (P := fun l : Layering V => l.Reached g) (fun _ hl _ _ _ hstep => hl.lower hg hstep)
    (Reached.start g) h

theorem reached_of_assignLayers (hg : g.Acyclic) {l : Layering V} (h : assignLayers g = .ok l) : l.Reached g := by
  obtain ⟨order, -, -, heq⟩ := assignLayers_eq hg
  exact reached_of_foldlM hg (heq ▸ h)

theorem assignLayers_longest (g : Digraph V) :
    (g.Acyclic → ∃ l, assignLayers g = .ok l ∧
      l.map (·.1) = g.nodes ∧
      (∀ v ∈ g.nodes, ∃ n : Nat, l.layer v = .ok n ∧ g.IsDepth v n) ∧
      (∀ e ∈ g.edges, l.Above e.1 e.2) ∧
      (∀ v ∈ g.nodes, ∀ n : Nat, l.layer v = .ok (n + 1) → ∃ u, (u, v) ∈ g.edges ∧ l.layer u = .ok n) ∧
      (∀ v ∈ g.nodes, ∀ n : Nat, l.layer v = .ok n → ∀ k ≤ n, ∃ u ∈ g.nodes, l.layer u = .ok k) ∧
      ∀ order : List V, order.Perm g.nodes → g.Ordered order →
        order.foldlM (lower g) (g.nodes.map fun v => (v, 0)) = .ok l) ∧
    (¬ g.Acyclic → assignLayers g = .error .cyclicGraph) := by
  refine ⟨fun hg => ?_, fun hcycle => ?_⟩
  · obtain ⟨l, hl, -⟩ := assignLayers_ok hg
    have hreached := reached_of_assignLayers hg hl
    have habove := above_of_assignLayers hg hl
    refine ⟨l, hl, hreached.keys, fun v hv => hreached.exists_depth habove hv, habove,
      fun v _ n hn => hreached.exists_predecessor habove hn, fun v _ n hn => hreached.exists_above habove hn,
      fun order hperm hordered => ?_⟩
    obtain ⟨l', hl', -⟩ := foldlM_lower_ok fun v hv => hperm.mem_iff.mp hv
    rw [hl', hreached.unique habove (reached_of_foldlM hg hl') (above_of_foldlM hg hperm hordered hl')]
  · rw [assignLayers, Digraph.generations?_eq_none hcycle]

theorem assignLayers_longest_past_shortcut :
    let g : Digraph Nat := .ofLists [2, 3] [(0, 3), (0, 1), (1, 2), (2, 3), (4, 3)]
    let ring : Digraph Nat := .ofLists [] [(0, 1), (1, 2), (2, 1)]
    (∃ l, assignLayers g = .ok l ∧ l.layer 3 = .ok 3 ∧ (∀ v ∈ g.nodes, ∃ n : Nat, l.layer v = .ok n ∧ g.IsDepth v n) ∧
      [4, 0, 1, 2, 3].foldlM (lower g) (g.nodes.map fun v => (v, 0)) = .ok l) ∧
    assignLayers ring = .error .cyclicGraph := by
  intro g ring
  have hacyclic : g.Acyclic := Digraph.acyclic_of_lt (f := fun v => v % 4) (by decide)
  have hcycle : ¬ ring.Acyclic := fun h => h 1 (.tail (.single (by decide)) (by decide : (2, 1) ∈ ring.edges))
  obtain ⟨l, hl, -, hdepth, -, -, -, horders⟩ := (assignLayers_longest g).1 hacyclic
  have horder := horders [4, 0, 1, 2, 3] (by decide) (by unfold Digraph.Ordered; decide)
  have hlast : l.layer 3 = .ok 3 := by
    obtain rfl : [(2, 2), (3, 3), (0, 0), (1, 1), (4, 0)] = l := Except.ok.inj horder
    rfl
  exact ⟨⟨l, hl, hlast, hdepth, horder⟩, (assignLayers_longest ring).2 hcycle⟩

end Yuml.Layered
