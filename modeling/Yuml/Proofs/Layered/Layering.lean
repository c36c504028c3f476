import Yuml.Layered.Layering
import Yuml.Proofs.Graph.Generations
import Yuml.Proofs.Outcome

namespace Yuml.Layered

variable {V : Type} [DecidableEq V]

namespace Layering

theorem mem_keys_set {l : Layering V} {v w : V} {n : Int} :
    w ∈ (l.set v n).map (·.1) ↔ w ∈ l.map (·.1) ∨ w = v := by
  induction l with
  | nil => simp [set]
  | cons e l ih =>
    obtain ⟨u, m⟩ := e
    by_cases h : u = v
    · subst h
      simp only [set, if_true, List.map_cons, List.mem_cons]
      exact ⟨Or.inl, fun hw => hw.elim id Or.inl⟩
    · simp only [set, h, if_false, List.map_cons, List.mem_cons, ih, or_assoc]

theorem mem_of_mem_set {l : Layering V} {v : V} {n : Int} {e : V × Int} (h : e ∈ l.set v n) :
    e ∈ l ∨ e = (v, n) := by
  induction l with
  | nil => exact .inr (List.mem_singleton.mp h)
  | cons d l ih =>
    obtain ⟨u, m⟩ := d
    by_cases hu : u = v
    · simp only [set, hu, if_true, List.mem_cons] at h
      exact h.elim .inr fun h => .inl (List.mem_cons_of_mem _ h)
    · simp only [set, hu, if_false, List.mem_cons] at h
      rcases h with rfl | h
      · exact .inl List.mem_cons_self
      · exact (ih h).imp_left (List.mem_cons_of_mem _)

theorem layer_eq_ok {l : Layering V} {v : V} {n : Int} : l.layer v = .ok n ↔ l.layer? v = some n := by
  rw [layer]
  cases l.layer? v <;> simp

theorem exists_layer {l : Layering V} {v : V} (h : v ∈ l.map (·.1)) :
    ∃ n, l.layer v = .ok n ∧ (v, n) ∈ l := by
  obtain ⟨e, he, rfl, hfound⟩ := List.exists_find?_key (fun _ => decide_eq_true_iff) h
  have hlayer : l.layer? e.1 = some e.2 := by
    rw [layer?, hfound]
    rfl
  exact ⟨e.2, layer_eq_ok.mpr hlayer, he⟩

theorem le_foldl_max (xs : List Int) (n : Int) : n ≤ xs.foldl max n ∧ ∀ x ∈ xs, x ≤ xs.foldl max n := by
  induction xs generalizing n with
  | nil => simp
  | cons x xs ih =>
    have h := ih (max n x)
    simp only [List.foldl_cons, List.mem_cons, forall_eq_or_imp]
    exact ⟨by omega, by omega, h.2⟩

omit [DecidableEq V] in
theorem lt_count {l : Layering V} {e : V × Int} (h : e ∈ l) : e.2 < l.count := by
  cases l with
  | nil => simp at h
  | cons d l =>
    have hmax := le_foldl_max (l.map (·.2)) d.2
    rcases List.mem_cons.mp h with rfl | h
    · simp only [count]
      omega
    · have := hmax.2 e.2 (List.mem_map_of_mem h)
      simp only [count]
      omega

omit [DecidableEq V] in
theorem exists_count_eq {l : Layering V} (h : l ≠ []) : ∃ e ∈ l, l.count = e.2 + 1 := by
  obtain ⟨d, l, rfl⟩ := List.exists_cons_of_ne_nil h
  obtain ⟨e, he, hmax⟩ := List.mem_map.mp ((l.map (·.2)).foldl_mem_of_choice max_choice d.2 : _ ∈ (d :: l).map (·.2))
  exact ⟨e, he, by rw [hmax]; rfl⟩

structure Covers (l : Layering V) (nodes : List V) : Prop where
  known : ∀ v ∈ nodes, v ∈ l.map (·.1)
  nonneg : ∀ e ∈ l, 0 ≤ e.2

theorem Covers.exists_layer {l : Layering V} {nodes : List V} (h : l.Covers nodes) {v : V}
    (hv : v ∈ nodes) : ∃ n, l.layer v = .ok n ∧ 0 ≤ n ∧ n < l.count := by
  obtain ⟨n, hn, hmem⟩ := Layering.exists_layer (h.known v hv)
  exact ⟨n, hn, h.nonneg _ hmem, lt_count hmem⟩

omit [DecidableEq V] in
theorem Covers.count_pos {l : Layering V} {nodes : List V} (h : l.Covers nodes) : 0 < l.count := by
  cases l with
  | nil => exact Int.zero_lt_one
  | cons e l => exact (h.nonneg e List.mem_cons_self).trans_lt (lt_count List.mem_cons_self)

theorem Covers.set {l : Layering V} {nodes : List V} (h : l.Covers nodes) {n : Int} (hn : 0 ≤ n)
    (v : V) : (l.set v n).Covers nodes where
  known w hw := mem_keys_set.mpr (.inl (h.known w hw))
  nonneg e he := (mem_of_mem_set he).elim (h.nonneg e) fun heq => heq ▸ hn

end Layering

theorem lower_ok {g : Digraph V} {l : Layering V} {v : V} (hv : v ∈ g.nodes)
    (h : l.Covers g.nodes) : ∃ l', lower g l v = .ok l' ∧ l'.Covers g.nodes := by
  apply Except.foldlM_ok (P := fun l : Layering V => l.Covers g.nodes) (g.successors v) _ h
  intro l hl w hw
  have hmem : w ∈ g.nodes := Digraph.snd_mem (Digraph.mem_successors.mp hw)
  obtain ⟨own, hown, hpos, -⟩ := hl.exists_layer hmem
  obtain ⟨above, habove, -, -⟩ := hl.exists_layer hv
  refine ⟨l.set w (max own (above + 1)), ?_, hl.set (by omega) w⟩
  simp only [hown, habove, bind, Except.bind, pure, Except.pure]

theorem foldlM_lower_ok {g : Digraph V} {order : List V} (h : ∀ v ∈ order, v ∈ g.nodes) :
    ∃ l, order.foldlM (lower g) (g.nodes.map fun v => (v, 0)) = .ok l ∧ l.Covers g.nodes := by
  have hstart : Layering.Covers (g.nodes.map fun v => (v, (0 : Int))) g.nodes :=
    ⟨by simp, by simp⟩
  exact Except.foldlM_ok order (fun l hl v hv => lower_ok (h v hv) hl) hstart

theorem assignLayers_ok {g : Digraph V} (h : g.Acyclic) :
    ∃ l, assignLayers g = .ok l ∧ l.Covers g.nodes := by
  obtain ⟨generations, hgenerations, hperm⟩ := h.generationsOf?_eq g.nodes
  obtain ⟨l, hl, hcovers⟩ := foldlM_lower_ok fun v hv => hperm.mem_iff.mp hv
  exact ⟨l, by rw [assignLayers, Digraph.generations?, hgenerations]; exact hl, hcovers⟩

end Yuml.Layered
