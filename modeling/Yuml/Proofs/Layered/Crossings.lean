import Yuml.Layered.Crossings
import Yuml.Proofs.Layered.Dummies
import Mathlib.Data.List.Perm.Basic
import Mathlib.Data.List.Permutation
import Mathlib.Logic.Function.Iterate

namespace Yuml.Layered

variable {V : Type} [DecidableEq V]

abbrev SameRows (rows rows' : List (List V)) : Prop :=
  List.Forall₂ List.Perm rows rows'

namespace SameRows

omit [DecidableEq V] in
theorem refl (rows : List (List V)) : SameRows rows rows :=
  List.forall₂_same.mpr fun row _ => .refl row

omit [DecidableEq V] in
theorem trans {rows rows' rows'' : List (List V)} (h : SameRows rows rows')
    (h' : SameRows rows' rows'') : SameRows rows rows'' := by
  induction h generalizing rows'' with
  | nil => exact h'
  | cons hrow _ ih =>
    obtain ⟨row, rest, hrow', hrest, rfl⟩ := List.forall₂_cons_left_iff.mp h'
    exact .cons (hrow.trans hrow') (ih hrest)

omit [DecidableEq V] in
theorem reverse {rows rows' : List (List V)} (h : SameRows rows rows') :
    SameRows rows.reverse rows'.reverse :=
  List.forall₂_reverse_iff.mpr h

omit [DecidableEq V] in
theorem flatten {rows rows' : List (List V)} (h : SameRows rows rows') :
    rows.flatten.Perm rows'.flatten := by
  induction h with
  | nil => exact .nil
  | cons hrow _ ih => exact hrow.append ih

end SameRows

theorem sortRow_perm (neighbours : V → List V) (fixed row : List V) :
    (sortRow neighbours fixed row).Perm row := by
  rw [sortRow]
  refine ((List.mergeSort_perm _ _).map _).trans (.of_eq ?_)
  rw [List.map_map]
  exact List.zipIdx_map_fst 0 row

theorem sameRows_sweepFrom (neighbours : V → List V) (fixed : List V) (rows : List (List V)) :
    SameRows rows (sweepFrom neighbours fixed rows) := by
  induction rows generalizing fixed with
  | nil => exact .nil
  | cons row rows ih => exact .cons (sortRow_perm neighbours fixed row).symm (ih _)

theorem sameRows_sweep (neighbours : V → List V) (rows : List (List V)) :
    SameRows rows (sweep neighbours rows) := by
  cases rows with
  | nil => exact .nil
  | cons first rows => exact .cons (.refl first) (sameRows_sweepFrom neighbours first rows)

theorem sameRows_pass (g : Digraph V) (rows : List (List V)) : SameRows rows (pass g rows) := by
  have hdown : SameRows rows.reverse (sweep g.predecessors rows).reverse :=
    (sameRows_sweep g.predecessors rows).reverse
  have hup := (hdown.trans (sameRows_sweep g.successors _)).reverse
  rwa [List.reverse_reverse] at hup

theorem sameRows_improve (g : Digraph V) (n : Nat) (rows : List (List V)) :
    SameRows rows (improve g n rows) := by
  induction n generalizing rows with
  | zero => exact .refl rows
  | succ n ih =>
    rw [improve]
    split
    · exact .refl rows
    · exact (sameRows_pass g rows).trans (ih (pass g rows))

/-- Whether that many passes are made one after the other: crossings are left before each of them, and each but the last
lowers their number. -/
structure Passes (g : Digraph V) (rows : List (List V)) (k : Nat) : Prop where
  left : ∀ j < k, crossings g ((pass g)^[j] rows) ≠ 0
  lower : ∀ j, j + 1 < k → crossings g ((pass g)^[j + 1] rows) < crossings g ((pass g)^[j] rows)

namespace Passes

variable {g : Digraph V} {rows : List (List V)} {k : Nat}

theorem next (h : Passes g rows (k + 1)) : Passes g (pass g rows) k where
  left j hj := h.left (j + 1) (Nat.succ_lt_succ hj)
  lower j hj := h.lower (j + 1) (Nat.succ_lt_succ hj)

theorem zero : Passes g rows 0 :=
  ⟨fun _ h => absurd h (Nat.not_lt_zero _), fun _ h => absurd h (Nat.not_lt_zero _)⟩

theorem one (hleft : crossings g rows ≠ 0) : Passes g rows 1 where
  left j hj := by
    obtain rfl : j = 0 := by omega
    exact hleft
  lower j hj := by omega

theorem succ (hleft : crossings g rows ≠ 0) (hlower : crossings g (pass g rows) < crossings g rows)
    (h : Passes g (pass g rows) k) : Passes g rows (k + 1) where
  left j hj := by
    cases j with
    | zero => exact hleft
    | succ j => exact h.left j (Nat.lt_of_succ_lt_succ hj)
  lower j hj := by
    cases j with
    | zero => exact hlower
    | succ j => exact h.lower j (Nat.lt_of_succ_lt_succ hj)

end Passes

theorem crossings_improve_le (g : Digraph V) (n : Nat) (rows : List (List V)) :
    crossings g (improve g n rows) ≤ crossings g rows := by
  induction n generalizing rows with
  | zero => exact le_refl _
  | succ n ih =>
    rw [improve]
    split
    · exact le_refl _
    · next hgo =>
      have hrest := ih (pass g rows)
      omega

theorem crossings_improve_le_iterate {g : Digraph V} {n k : Nat} {rows : List (List V)} (hk : k ≤ n)
    (h : Passes g rows k) : crossings g (improve g n rows) ≤ crossings g ((pass g)^[k] rows) := by
  induction k generalizing n rows with
  | zero => exact crossings_improve_le g n rows
  | succ k ih =>
    obtain ⟨n, rfl⟩ := Nat.exists_eq_add_one.mpr (Nat.lt_of_lt_of_le (Nat.succ_pos k) hk)
    have hleft : crossings g rows ≠ 0 := h.left 0 (Nat.succ_pos k)
    rw [improve]
    split
    · next hstop =>
      have hworse := hstop.resolve_left hleft
      cases k with
      | zero => exact hworse
      | succ k =>
        have hlower : crossings g (pass g rows) < crossings g rows := h.lower 0 (by omega)
        omega
    · exact ih (Nat.le_of_succ_le_succ hk) h.next

theorem exists_improve_eq_iterate (g : Digraph V) (n : Nat) (rows : List (List V)) :
    ∃ k ≤ n, Passes g rows k ∧ improve g n rows = (pass g)^[k] rows := by
  induction n generalizing rows with
  | zero => exact ⟨0, le_refl 0, .zero, rfl⟩
  | succ n ih =>
    rw [improve]
    split
    · exact ⟨0, Nat.zero_le _, .zero, rfl⟩
    · next hgo =>
      obtain ⟨k, hk, hpasses, heq⟩ := ih (pass g rows)
      exact ⟨k + 1, Nat.succ_le_succ hk, .succ (by omega) (by omega) hpasses, heq⟩

theorem crossings?_ok {g : Digraph V} {rows : List (List V)} (h : rows.flatten.Perm g.nodes) :
    crossings? g rows = .ok (crossings g rows) := by
  refine if_pos (List.all_eq_true.mpr fun row hrow => List.all_eq_true.mpr fun v hv => ?_)
  have hmem : v ∈ rows.flatten := List.mem_flatten_of_mem (List.mem_of_mem_dropLast hrow) hv
  exact List.contains_iff_mem.mpr (h.mem_iff.mp hmem)

namespace Augmented

def IsLayered (a : Augmented) : Prop :=
  ∀ v ∈ a.graph.nodes, ∃ k : Nat, a.layers.layer v = .ok (k : Int) ∧ (k : Int) < a.layerCount

theorem isLayered_of_covers {a : Augmented} (h : a.layers.Covers a.graph.nodes) : a.IsLayered := by
  intro v hv
  obtain ⟨n, hn, hpos, hlt⟩ := h.exists_layer hv
  obtain ⟨k, rfl⟩ := Int.eq_ofNat_of_zero_le hpos
  exact ⟨k, hn, hlt⟩

def layerNodes (a : Augmented) (k : Nat) : List Text :=
  a.graph.nodes.filter fun v => a.layers.layer? v = some (k : Int)

theorem mem_layerNodes {a : Augmented} {k : Nat} {v : Text} :
    v ∈ a.layerNodes k ↔ v ∈ a.graph.nodes ∧ a.layers.layer v = .ok (k : Int) := by
  rw [layerNodes, List.mem_filter, decide_eq_true_iff, Layering.layer_eq_ok]

theorem rowOf_ok {a : Augmented} (h : a.IsLayered) {v : Text} (hv : v ∈ a.graph.nodes) :
    ∃ k : Nat, a.rowOf v = .ok k ∧ a.layers.layer v = .ok (k : Int) ∧ k < a.layerCount.toNat := by
  obtain ⟨k, hn, hlt⟩ := h v hv
  refine ⟨k, ?_, hn, by omega⟩
  have hrow : ¬ (k : Int) < 0 := by omega
  simp [rowOf, hn, hrow, hlt, bind, Except.bind, pure, Except.pure]

theorem filter_placed {l : Layering Text} {nodes : List Text} {placed : List (Text × Nat)}
    (h : List.Forall₂ (fun v e => e.1 = v ∧ l.layer? v = some (e.2 : Int)) nodes placed) (k : Nat) :
    (placed.filter (·.2 = k)).map (·.1) = nodes.filter fun v => l.layer? v = some (k : Int) := by
  induction h with
  | nil => rfl
  | @cons v e _ _ he _ ih =>
    obtain ⟨rfl, hlayer⟩ := he
    have hiff : l.layer? e.1 = some (k : Int) ↔ e.2 = k := by
      rw [hlayer, Option.some_inj, Int.ofNat_inj]
    by_cases hk : e.2 = k
    · simp [hk, hiff.mpr hk, ih]
    · simp [hk, mt hiff.mp hk, ih]

theorem rows_ok {a : Augmented} (h : a.IsLayered) :
    a.rows = .ok ((List.range a.layerCount.toNat).map a.layerNodes) := by
  obtain ⟨placed, hplaced, hforall⟩ := Except.mapM_ok a.graph.nodes
    (f := fun v => do return (v, ← a.rowOf v))
    (R := fun v e => e.1 = v ∧ a.layers.layer? v = some (e.2 : Int)) fun v hv => by
      obtain ⟨k, hrow, hlayer, -⟩ := rowOf_ok h hv
      refine ⟨(v, k), by rw [hrow]; rfl, rfl, ?_⟩
      exact Layering.layer_eq_ok.mp hlayer
  rw [rows, hplaced]
  simp only [bind, Except.bind, pure, Except.pure, filter_placed hforall]
  rfl

theorem flatten_layerNodes_perm {a : Augmented} (h : a.IsLayered) :
    ((List.range a.layerCount.toNat).map a.layerNodes).flatten.Perm a.graph.nodes := by
  refine (List.perm_ext_iff_of_nodup (List.nodup_flatten.mpr ⟨?_, ?_⟩) a.graph.nodes_nodup).mpr ?_
  · intro row hrow
    obtain ⟨k, -, rfl⟩ := List.mem_map.mp hrow
    exact a.graph.nodes_nodup.filter _
  · refine List.pairwise_map.mpr (List.nodup_range.imp fun hne v hv hv' => hne ?_)
    have hlayer := (mem_layerNodes.mp hv).2.symm.trans (mem_layerNodes.mp hv').2
    exact Int.ofNat_inj.mp (Except.ok.inj hlayer)
  · intro v
    simp only [List.mem_flatten, List.mem_map, List.mem_range]
    constructor
    · rintro ⟨_, ⟨k, -, rfl⟩, hv⟩
      exact (mem_layerNodes.mp hv).1
    · intro hv
      obtain ⟨k, -, hlayer, hk⟩ := rowOf_ok h hv
      exact ⟨_, ⟨k, hk, rfl⟩, mem_layerNodes.mpr ⟨hv, hlayer⟩⟩

theorem arrange_ok {a : Augmented} (h : a.IsLayered) :
    ∃ rows, a.arrange = .ok rows ∧ SameRows ((List.range a.layerCount.toNat).map a.layerNodes) rows := by
  refine ⟨_, ?_, sameRows_improve a.graph maxPasses _⟩
  rw [arrange, rows_ok h]
  rfl

theorem length_arrange {a : Augmented} (h : a.layers.Covers a.graph.nodes) {rows : List (List Text)}
    (hrows : a.arrange = .ok rows) : (rows.length : Int) = a.layerCount := by
  obtain ⟨rows', hrows', hsame⟩ := arrange_ok (isLayered_of_covers h)
  obtain rfl := Except.ok.inj (hrows.symm.trans hrows')
  have hcount : 0 < a.layerCount := h.count_pos
  have hlength := hsame.length_eq
  rw [List.length_map, List.length_range] at hlength
  omega

theorem arrange_reduces_crossings {a : Augmented} (h : a.IsLayered) :
    ∃ start rows, a.rows = .ok start ∧ a.arrange = .ok rows ∧
      start = (List.range a.layerCount.toNat).map a.layerNodes ∧
      List.Forall₂ List.Perm start rows ∧
      crossings? a.graph rows = .ok (crossings a.graph rows) ∧
      crossings a.graph rows ≤ crossings a.graph start ∧
      (∀ k ≤ maxPasses, Passes a.graph start k →
        crossings a.graph rows ≤ crossings a.graph ((pass a.graph)^[k] start)) ∧
      ∃ k ≤ maxPasses, Passes a.graph start k ∧ rows = (pass a.graph)^[k] start := by
  have hsame := sameRows_improve a.graph maxPasses ((List.range a.layerCount.toNat).map a.layerNodes)
  refine ⟨_, _, rows_ok h, ?_, rfl, hsame, ?_, ?_, ?_, ?_⟩
  · rw [arrange, rows_ok h]
    rfl
  · exact crossings?_ok (hsame.flatten.symm.trans (flatten_layerNodes_perm h))
  · exact crossings_improve_le a.graph maxPasses _
  · exact fun k => crossings_improve_le_iterate
  · exact exists_improve_eq_iterate a.graph maxPasses _

theorem arrange_reduces_crossings_past_worse_pass :
    let ends : List (String × String) :=
      [("f", "g"), ("d", "h"), ("b", "e"), ("b", "d"), ("c", "f"), ("a", "f"), ("f", "h"), ("a", "e")]
    let start : List (List Text) := [["a", "b", "c"], ["d", "e", "f"], ["g", "h"]]
    let a : Augmented := {
      graph := .ofLists start.flatten (ends.map fun e => (e.1, e.2))
      layers := start.zipIdx.flatMap fun row => row.1.map fun id => (id, row.2) }
    (a.IsLayered ∧ Passes a.graph start 2 ∧ crossings a.graph ((pass a.graph)^[2] start) = 2) ∧
      ∃ rows, a.arrange = .ok rows ∧ List.Forall₂ List.Perm start rows ∧ crossings a.graph rows ≤ 1 := by
  intro ends start a
  have hlayered : a.IsLayered := by
    have hranks : ∀ v ∈ a.graph.nodes, ∃ k ∈ List.range 3, a.layers.layer? v = some (k : Int) ∧
        (k : Int) < a.layerCount := by decide +kernel
    intro v hv
    obtain ⟨k, -, hk, hlt⟩ := hranks v hv
    exact ⟨k, Layering.layer_eq_ok.mpr hk, hlt⟩
  have hstart : crossings a.graph start = 4 := by cbv
  have hfirst : crossings a.graph (pass a.graph start) = 1 := by cbv
  have hsecond : crossings a.graph (pass a.graph (pass a.graph start)) = 2 := by cbv
  have hone : Passes a.graph start 1 := .one (by omega)
  have htwo : Passes a.graph start 2 := .succ (by omega) (by omega) (.one (by omega))
  have hrows : (List.range a.layerCount.toNat).map a.layerNodes = start := by decide +kernel
  obtain ⟨_, rows, -, ha, rfl, hsame, -, -, hle, -⟩ := arrange_reduces_crossings hlayered
  rw [hrows] at hsame hle
  exact ⟨⟨hlayered, htwo, hsecond⟩, rows, ha, hsame, hfirst ▸ hle 1 (by decide) hone⟩

end Augmented

end Yuml.Layered
