import Mathlib.Data.List.Induction
import Mathlib.Data.List.Nodup
import Mathlib.Tactic.Tauto

namespace List

section By

variable {α : Type} {r : α → α → Bool}

theorem eraseDupsBy_loop_append (xs ys seen : List α) :
    eraseDupsBy.loop r (xs ++ ys) seen = eraseDupsBy.loop r ys (eraseDupsBy.loop r xs seen).reverse := by
  induction xs generalizing seen with
  | nil => simp [eraseDupsBy.loop]
  | cons x xs ih =>
    rw [cons_append, eraseDupsBy.loop, eraseDupsBy.loop]
    cases seen.any (r x) with
    | true => exact ih seen
    | false => exact ih (x :: seen)

theorem eraseDupsBy_concat (xs : List α) (x : α) :
    (xs ++ [x]).eraseDupsBy r =
      if (xs.eraseDupsBy r).any (r x) then xs.eraseDupsBy r else xs.eraseDupsBy r ++ [x] := by
  rw [eraseDupsBy, eraseDupsBy_loop_append, eraseDupsBy.loop, any_reverse, ← eraseDupsBy]
  cases (xs.eraseDupsBy r).any (r x) with
  | true => simp [eraseDupsBy.loop]
  | false => simp [eraseDupsBy.loop]

end By

variable {α : Type} [BEq α] [LawfulBEq α] {xs : List α} {x : α}

theorem eraseDups_concat (xs : List α) (x : α) :
    (xs ++ [x]).eraseDups = if x ∈ xs then xs.eraseDups else xs.eraseDups ++ [x] := by
  have hknown : (xs.eraseDupsBy (· == ·)).any (x == ·) = true ↔ x ∈ xs := by
    rw [← mem_eraseDups (l := xs), any_beq, contains_iff_mem]
    rfl
  rw [eraseDups, eraseDupsBy_concat]
  exact if_congr hknown rfl rfl

theorem eraseDups_concat_of_mem (h : x ∈ xs) : (xs ++ [x]).eraseDups = xs.eraseDups := by
  rw [eraseDups_concat, if_pos h]

theorem eraseDups_concat_of_not_mem (h : x ∉ xs) : (xs ++ [x]).eraseDups = xs.eraseDups ++ [x] := by
  rw [eraseDups_concat, if_neg h]

theorem nodup_eraseDups (xs : List α) : xs.eraseDups.Nodup := by
  induction xs using reverseRecOn with
  | nil => exact nodup_nil
  | append_singleton xs x ih =>
    rw [eraseDups_concat]
    split
    · exact ih
    · next h =>
      have hx : x ∉ xs.eraseDups := mt mem_eraseDups.mp h
      exact nodup_append.mpr ⟨ih, nodup_singleton x, fun y hy z hz heq => hx (mem_singleton.mp hz ▸ heq ▸ hy)⟩

theorem Nodup.eraseDups_eq (h : xs.Nodup) : xs.eraseDups = xs := by
  induction xs using reverseRecOn with
  | nil => rfl
  | append_singleton xs x ih =>
    obtain ⟨hxs, -, hne⟩ := nodup_append.mp h
    rw [eraseDups_concat_of_not_mem fun hx => hne x hx x (mem_singleton_self x) rfl, ih hxs]

theorem eraseDups_append_again {ys : List α} (h : ys ⊆ xs) (zs : List α) :
    (xs ++ ys ++ zs).eraseDups = (xs ++ zs).eraseDups := by
  induction zs using reverseRecOn with
  | nil =>
    have hnone : ys.removeAll xs = [] := filter_eq_nil_iff.mpr fun y hy => by simpa using h hy
    rw [append_nil, append_nil, eraseDups_append, hnone, eraseDups_nil, append_nil]
  | append_singleton zs z ih =>
    have hmem : z ∈ xs ++ ys ++ zs ↔ z ∈ xs ++ zs := by
      have hys : z ∈ ys → z ∈ xs := fun hz => h hz
      simp only [mem_append]
      tauto
    rw [← append_assoc, ← append_assoc, eraseDups_concat, eraseDups_concat, ih]
    exact if_congr hmem rfl rfl

theorem foldl_eq_eraseDups {β σ : Type} {keys : σ → List α} {key : β → α} {f : σ → β → σ}
    [∀ s y, Decidable (key y ∈ keys s)]
    (hf : ∀ s y, keys (f s y) = if key y ∈ keys s then keys s else keys s ++ [key y]) {s : σ}
    (h : keys s = xs.eraseDups) (ys : List β) : keys (ys.foldl f s) = (xs ++ ys.map key).eraseDups := by
  induction ys generalizing s xs with
  | nil => rw [map_nil, append_nil, foldl_nil, h]
  | cons y ys ih =>
    have hstep : keys (f s y) = (xs ++ [key y]).eraseDups := by
      have hknown : key y ∈ keys s ↔ key y ∈ xs := by rw [h, mem_eraseDups]
      rw [hf, eraseDups_concat, ← h]
      exact if_congr hknown rfl rfl
    rw [foldl_cons, ih hstep, map_cons, append_assoc, singleton_append]

end List
