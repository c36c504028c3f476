import Mathlib.Tactic.Linarith
import Yuml.Drawing.Metrics
import Yuml.Proofs.EndToEnd
import Yuml.Proofs.Number.Exact

namespace Yuml

open Number Scalar

section Stack

variable {α : Type} [Scalar α]

theorem map_text_stackCompartments (size top : α) (ts : List Text) :
    (stackCompartments size top ts).map (·.text) = ts := by
  induction ts generalizing top with
  | nil => rfl
  | cons t ts ih => exact congrArg (t :: ·) (ih _)

theorem text_mem_of_mem_stackCompartments {size top : α} {ts : List Text} {c : Compartment α}
    (h : c ∈ stackCompartments size top ts) : c.text ∈ ts :=
  map_text_stackCompartments size top ts ▸ List.mem_map_of_mem h

theorem height_stackCompartments (size top : α) (ts : List Text) :
    ∀ c ∈ stackCompartments size top ts, c.height = compartmentHeight size c.text := by
  induction ts generalizing top with
  | nil => exact List.forall_mem_nil _
  | cons t ts ih => exact List.forall_mem_cons.mpr ⟨rfl, ih _⟩

end Stack

theorem length_le_longestLine {s line : Text} (h : line ∈ labelLines s) : line.length ≤ longestLine s := by
  have hfold (ls : List Text) (n : Nat) : n ≤ ls.foldl (fun n l => max n l.length) n ∧
      ∀ l ∈ ls, l.length ≤ ls.foldl (fun n l => max n l.length) n := by
    induction ls generalizing n with
    | nil => exact ⟨le_refl n, List.forall_mem_nil _⟩
    | cons l ls ih =>
      obtain ⟨hstart, hall⟩ := ih (max n l.length)
      exact ⟨(le_max_left _ _).trans hstart, List.forall_mem_cons.mpr ⟨(le_max_right _ _).trans hstart, hall⟩⟩
  exact (hfold (labelLines s) 0).2 line h

theorem Node.compartments_ne_nil (n : Node) : n.compartments ≠ [] := by
  unfold compartments
  split
  · exact List.cons_ne_nil _ _
  · next h => exact mt List.isEmpty_iff.mpr h

theorem padY_exact : (padY : Rat) = 4 := by
  norm_num [padY]

theorem total_eq_sum (xs : List Rat) : total xs = xs.sum := by
  rw [total, decimal_zero, List.sum_eq_foldl]

theorem endToEnd_stackCompartments (size top : Rat) (ts : List Text) :
    EndToEnd (·.top) (fun c => c.top + c.height) top (stackCompartments size top ts)
      (top + total (ts.map (compartmentHeight size))) := by
  rw [total_eq_sum]
  induction ts generalizing top with
  | nil => exact add_zero top
  | cons t ts ih =>
    refine ⟨rfl, ?_⟩
    rw [List.map_cons, List.sum_cons, ← add_assoc]
    exact ih _

section Sizes

variable {size : Rat} (h : 0 < size)

include h

theorem lineHeight_pos : 0 < lineHeight size := mul_pos h (by norm_num)

theorem charWidth_pos : 0 < charWidth size := mul_pos h (by norm_num)

theorem blockSize_nonneg (s : Text) : 0 ≤ (blockSize size s).1 ∧ 0 ≤ (blockSize size s).2 :=
  ⟨mul_nonneg (Nat.cast_nonneg _) (charWidth_pos h).le, mul_nonneg (Nat.cast_nonneg _) (lineHeight_pos h).le⟩

theorem compartmentHeight_pos (s : Text) : 0 < compartmentHeight size s := by
  rw [compartmentHeight, padY_exact, decimal_two]
  linarith [(blockSize_nonneg h s).2]

end Sizes

theorem blockWidth_le_recordSize {size : Rat} {s : Text} {ts : List Text} (hs : s ∈ ts) :
    (blockSize size s).1 + 2 * padX ≤ (recordSize size ts).1 := by
  have hle := le_largest? (d := 0.0) (List.mem_map_of_mem (f := fun s => (blockSize size s).1) hs)
  rw [recordSize, decimal_two]
  linarith

end Yuml
