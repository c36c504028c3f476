import Mathlib.Algebra.Order.Ring.Rat
import Mathlib.Data.List.Chain

namespace Yuml

variable {τ : Type} {start stop : τ → Rat}

/-- Things laid end to end: the first starts at `x`, each next one where the one before it stops, and
`z` is where another one would start. -/
def EndToEnd (start stop : τ → Rat) : Rat → List τ → Rat → Prop
  | x, [], z => z = x
  | x, t :: ts, z => start t = x ∧ EndToEnd start stop (stop t) ts z

namespace EndToEnd

variable {x z : Rat} {ts : List τ}

theorem start_of_head? (h : EndToEnd start stop x ts z) : ∀ t ∈ ts.head?, start t = x := by
  cases ts with
  | nil => simp
  | cons t ts => simpa using h.1

theorem isChain (h : EndToEnd start stop x ts z) : ts.IsChain fun t u => start u = stop t := by
  induction ts generalizing x with
  | nil => exact .nil
  | cons t ts ih => exact (ih h.2).cons h.2.start_of_head?

theorem stop_of_getLast? (h : EndToEnd start stop x ts z) : ∀ t ∈ ts.getLast?, z = stop t := by
  induction ts generalizing x with
  | nil => simp
  | cons t ts ih =>
    cases ts with
    | nil => simpa [EndToEnd] using h.2
    | cons u us =>
      rw [List.getLast?_cons_cons]
      exact ih h.2

theorem within (h : EndToEnd start stop x ts z) (hle : ∀ t ∈ ts, start t ≤ stop t) :
    x ≤ z ∧ ∀ t ∈ ts, x ≤ start t ∧ stop t ≤ z := by
  induction ts generalizing x with
  | nil => exact ⟨ge_of_eq h, List.forall_mem_nil _⟩
  | cons t ts ih =>
    obtain ⟨rfl, h⟩ := h
    obtain ⟨ht, hts⟩ := List.forall_mem_cons.mp hle
    obtain ⟨hend, hall⟩ := ih h hts
    refine ⟨ht.trans hend, List.forall_mem_cons.mpr ⟨⟨le_refl _, hend⟩, fun u hu => ?_⟩⟩
    exact ⟨ht.trans (hall u hu).1, (hall u hu).2⟩

theorem pairwise (h : EndToEnd start stop x ts z) (hle : ∀ t ∈ ts, start t ≤ stop t) :
    ts.Pairwise fun t u => stop t ≤ start u := by
  induction ts generalizing x with
  | nil => exact .nil
  | cons t ts ih =>
    have hts := (List.forall_mem_cons.mp hle).2
    exact List.pairwise_cons.mpr ⟨fun u hu => ((h.2.within hts).2 u hu).1, ih h.2 hts⟩

theorem pairwise_marks (h : EndToEnd start stop x ts z) (hlt : ∀ t ∈ ts, start t < stop t) :
    (ts.map start ++ [z]).Pairwise (· < ·) := by
  induction ts generalizing x with
  | nil => exact List.pairwise_singleton _ _
  | cons t ts ih =>
    obtain ⟨ht, hts⟩ := List.forall_mem_cons.mp hlt
    obtain ⟨hend, hall⟩ := h.2.within fun u hu => (hts u hu).le
    refine List.pairwise_cons.mpr ⟨List.forall_mem_append.mpr ⟨fun y hy => ?_, ?_⟩, ih h.2 hts⟩
    · obtain ⟨u, hu, rfl⟩ := List.mem_map.mp hy
      exact ht.trans_le (hall u hu).1
    · exact List.forall_mem_singleton.mpr (ht.trans_le hend)

theorem getElem?_marks (h : EndToEnd start stop x ts z) {i : Nat} {t : τ} (ht : ts[i]? = some t) :
    (ts.map start ++ [z])[i]? = some (start t) ∧ (ts.map start ++ [z])[i + 1]? = some (stop t) := by
  induction ts generalizing x i with
  | nil => cases ht
  | cons u us ih =>
    obtain ⟨-, h⟩ := h
    cases i with
    | succ i => exact ih h ht
    | zero =>
      cases ht
      refine ⟨rfl, ?_⟩
      cases us with
      | nil => exact congrArg some h
      | cons v vs => exact congrArg some h.1

end EndToEnd

end Yuml
