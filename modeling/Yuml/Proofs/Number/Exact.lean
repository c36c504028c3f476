import Yuml.Number.Scalar
import Yuml.Proofs.Outcome
import Mathlib.Algebra.Order.Ring.Rat
import Mathlib.Tactic.NormNum

namespace Yuml.Number.Scalar

theorem decimal_zero : (0.0 : Rat) = 0 := by
  norm_num

theorem decimal_two : (2.0 : Rat) = 2 := by
  norm_num

theorem less_iff {x y : Rat} : less x y = true ↔ x < y :=
  decide_eq_true_iff

theorem larger_eq_max (x y : Rat) : larger x y = max x y := by
  rw [larger]
  by_cases h : x < y
  · rw [if_pos (less_iff.mpr h), max_eq_right h.le]
  · rw [if_neg (mt less_iff.mp h), max_eq_left (not_lt.mp h)]

theorem smaller_eq_min (x y : Rat) : smaller x y = min x y := by
  rw [smaller]
  by_cases h : y < x
  · rw [if_pos (less_iff.mpr h), min_eq_right h.le]
  · rw [if_neg (mt less_iff.mp h), min_eq_left (not_lt.mp h)]

theorem le_foldl_larger (xs : List Rat) (n : Rat) :
    n ≤ xs.foldl larger n ∧ ∀ x ∈ xs, x ≤ xs.foldl larger n := by
  induction xs generalizing n with
  | nil => simp
  | cons x xs ih =>
    obtain ⟨hstart, hall⟩ := ih (larger n x)
    rw [larger_eq_max, max_le_iff] at hstart
    simp only [List.foldl_cons, List.mem_cons, forall_eq_or_imp, larger_eq_max] at *
    exact ⟨hstart.1, hstart.2, hall⟩

theorem foldl_smaller_le (xs : List Rat) (n : Rat) :
    xs.foldl smaller n ≤ n ∧ ∀ x ∈ xs, xs.foldl smaller n ≤ x := by
  induction xs generalizing n with
  | nil => simp
  | cons x xs ih =>
    obtain ⟨hstart, hall⟩ := ih (smaller n x)
    rw [smaller_eq_min, le_min_iff] at hstart
    simp only [List.foldl_cons, List.mem_cons, forall_eq_or_imp, smaller_eq_min] at *
    exact ⟨hstart.1, hstart.2, hall⟩

theorem le_largest? {xs : List Rat} {x d : Rat} (h : x ∈ xs) : x ≤ (largest? xs).getD d := by
  cases xs with
  | nil => cases h
  | cons y ys =>
    obtain ⟨hfirst, hrest⟩ := le_foldl_larger ys y
    rcases List.mem_cons.mp h with rfl | h
    · exact hfirst
    · exact hrest x h

theorem largest?_mem {xs : List Rat} (h : xs ≠ []) (d : Rat) : (largest? xs).getD d ∈ xs := by
  cases xs with
  | nil => exact absurd rfl h
  | cons x xs => exact xs.foldl_mem_of_choice (fun y z => larger_eq_max y z ▸ max_choice y z) x

theorem largest?_eq {xs : List Rat} {x : Rat} (h : x ∈ xs) (hle : ∀ y ∈ xs, y ≤ x) (d : Rat) :
    (largest? xs).getD d = x :=
  le_antisymm (hle _ (largest?_mem (List.ne_nil_of_mem h) d)) (le_largest? h)

theorem smallest?_le {xs : List Rat} {x d : Rat} (h : x ∈ xs) : (smallest? xs).getD d ≤ x := by
  cases xs with
  | nil => cases h
  | cons y ys =>
    obtain ⟨hfirst, hrest⟩ := foldl_smaller_le ys y
    rcases List.mem_cons.mp h with rfl | h
    · exact hfirst
    · exact hrest x h

end Yuml.Number.Scalar
