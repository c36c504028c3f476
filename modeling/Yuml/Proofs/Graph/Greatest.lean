import Mathlib.Data.List.Induction
import Yuml.Graph.CycleRemoval

namespace Yuml

variable {α : Type} {key : α → Int} {xs : List α} {x : α}

theorem firstGreatest?_eq_none (h : firstGreatest? key xs = none) : xs = [] := by
  cases xs with
  | nil => rfl
  | cons x xs => cases h

theorem exists_split_foldl_greater (key : α → Int) (xs : List α) (x : α) :
    ∃ before after, x :: xs = before ++ xs.foldl (greater key) x :: after ∧
      (∀ y ∈ before, key y < key (xs.foldl (greater key) x)) ∧
      ∀ y ∈ after, key y ≤ key (xs.foldl (greater key) x) := by
  induction xs using List.reverseRecOn with
  | nil => exact ⟨[], [], rfl, List.forall_mem_nil _, List.forall_mem_nil _⟩
  | append_singleton xs y ih =>
    obtain ⟨before, after, hsplit, hbefore, hafter⟩ := ih
    rw [List.foldl_append, List.foldl_cons, List.foldl_nil]
    generalize xs.foldl (greater key) x = z at hsplit hbefore hafter
    have hwhole : x :: (xs ++ [y]) = before ++ z :: after ++ [y] := by rw [← hsplit, List.cons_append]
    by_cases hlt : key z < key y
    · rw [greater, if_pos hlt]
      refine ⟨before ++ z :: after, [], hwhole, fun w hw => ?_, List.forall_mem_nil _⟩
      rcases List.mem_append.mp hw with hw | hw
      · exact Int.lt_trans (hbefore w hw) hlt
      · rcases List.mem_cons.mp hw with rfl | hw
        · exact hlt
        · exact Int.lt_of_le_of_lt (hafter w hw) hlt
    · rw [greater, if_neg hlt]
      refine ⟨before, after ++ [y], by simpa using hwhole, hbefore, fun w hw => ?_⟩
      rcases List.mem_append.mp hw with hw | hw
      · exact hafter w hw
      · exact List.mem_singleton.mp hw ▸ Int.not_lt.mp hlt

theorem foldl_greater_eq_self (h : ∀ y ∈ xs, key y ≤ key x) : xs.foldl (greater key) x = x := by
  induction xs with
  | nil => rfl
  | cons y ys ih =>
    obtain ⟨hy, hys⟩ := List.forall_mem_cons.mp h
    rw [List.foldl_cons, greater, if_neg (Int.not_lt.mpr hy), ih hys]

theorem firstGreatest?_eq_some_iff :
    firstGreatest? key xs = some x ↔ ∃ before after, xs = before ++ x :: after ∧
      (∀ y ∈ before, key y < key x) ∧ ∀ y ∈ after, key y ≤ key x := by
  constructor
  · intro h
    cases xs with
    | nil => cases h
    | cons y ys =>
      obtain rfl := Option.some.inj h
      exact exists_split_foldl_greater key ys y
  · rintro ⟨before, after, rfl, hbefore, hafter⟩
    cases before with
    | nil => exact congrArg some (foldl_greater_eq_self hafter)
    | cons y ys =>
      have hlt := hbefore _ (foldl_greater_mem key ys y)
      rw [List.cons_append, firstGreatest?, List.foldl_append, List.foldl_cons, greater, if_pos hlt,
        foldl_greater_eq_self hafter]

theorem le_firstGreatest? (h : firstGreatest? key xs = some x) : ∀ y ∈ xs, key y ≤ key x := by
  obtain ⟨before, after, rfl, hbefore, hafter⟩ := firstGreatest?_eq_some_iff.mp h
  intro y hy
  rcases List.mem_append.mp hy with hy | hy
  · exact Int.le_of_lt (hbefore y hy)
  · rcases List.mem_cons.mp hy with rfl | hy
    · exact Int.le_refl _
    · exact hafter y hy

theorem firstGreatest?_filter {p : α → Bool} (h : firstGreatest? key xs = some x) (hx : p x = true) :
    firstGreatest? key (xs.filter p) = some x := by
  obtain ⟨before, after, rfl, hbefore, hafter⟩ := firstGreatest?_eq_some_iff.mp h
  refine firstGreatest?_eq_some_iff.mpr ⟨before.filter p, after.filter p, ?_, fun y hy => ?_, fun y hy => ?_⟩
  · rw [List.filter_append, List.filter_cons_of_pos hx]
  · exact hbefore y (List.mem_filter.mp hy).1
  · exact hafter y (List.mem_filter.mp hy).1

end Yuml
