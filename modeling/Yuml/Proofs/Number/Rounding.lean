import Mathlib.Algebra.Order.Field.Basic
import Mathlib.Algebra.Order.Field.Rat
import Mathlib.Algebra.Ring.Int.Parity
import Mathlib.Tactic.Linarith
import Mathlib.Tactic.Positivity
import Mathlib.Tactic.Ring
import Yuml.Number.Binary

namespace Yuml.Number

structure NearestEven (x : Rat) (n : Int) : Prop where
  nearest : ∀ m : Int, |x - n| ≤ |x - m|
  tie : ∀ m : Int, m ≠ n → |x - m| = |x - n| → Even n

namespace NearestEven

variable {x : Rat} {m n : Int}

theorem abs_sub_le_add (x : Rat) (m n : Int) : ((|m - n| : Int) : Rat) ≤ |x - m| + |x - n| := by
  have htriangle := abs_sub_le (m : Rat) x n
  rw [abs_sub_comm (m : Rat) x] at htriangle
  exact_mod_cast htriangle

theorem one_le_abs_add_abs (x : Rat) (h : m ≠ n) : 1 ≤ |x - m| + |x - n| := by
  have hapart : (1 : Rat) ≤ (|m - n| : Int) := by
    exact_mod_cast Int.one_le_abs (sub_ne_zero.mpr h)
  exact hapart.trans (abs_sub_le_add x m n)

theorem of_half (h : |x - n| ≤ 1 / 2) (heven : |x - n| = 1 / 2 → Even n) : NearestEven x n := by
  constructor
  · intro m
    rcases eq_or_ne m n with rfl | hne
    · exact le_refl _
    · have hone := one_le_abs_add_abs x hne
      linarith
  · intro m hne htie
    have hone := one_le_abs_add_abs x hne
    exact heven (by linarith)

theorem abs_le_half (h : NearestEven x n) : |x - n| ≤ 1 / 2 := by
  have hbelow := h.nearest (n - 1)
  have habove := h.nearest (n + 1)
  push_cast at hbelow habove
  rcases abs_cases (x - n) with ⟨habs, -⟩ | ⟨habs, -⟩
  · rcases abs_cases (x - (n + 1)) with ⟨habs', -⟩ | ⟨habs', -⟩ <;> linarith
  · rcases abs_cases (x - (n - 1)) with ⟨habs', -⟩ | ⟨habs', -⟩ <;> linarith

theorem unique (hm : NearestEven x m) (hn : NearestEven x n) : m = n := by
  by_contra hne
  have hsame := le_antisymm (hm.nearest n) (hn.nearest m)
  have hmeven := hm.tie n (Ne.symm hne) hsame.symm
  have hneven := hn.tie m hne hsame
  have hclose : ((|m - n| : Int) : Rat) ≤ 1 := by
    linarith [abs_sub_le_add x m n, hm.abs_le_half, hn.abs_le_half]
  have hclose' : |m - n| ≤ 1 := by exact_mod_cast hclose
  obtain ⟨k, rfl⟩ := hmeven
  obtain ⟨l, rfl⟩ := hneven
  rw [abs_le] at hclose'
  omega

theorem neg (h : NearestEven x n) : NearestEven (-x) (-n) := by
  have hdistance (k : Int) : |-x - (-k : Int)| = |x - k| := by
    rw [← abs_neg (x - k)]
    push_cast
    congr 1
    ring
  constructor
  · intro m
    rw [hdistance, ← neg_neg m, hdistance]
    exact h.nearest (-m)
  · intro m hne htie
    rw [hdistance, ← neg_neg m, hdistance] at htie
    exact (h.tie (-m) (fun heq => hne (by rw [← heq, neg_neg])) htie).neg

end NearestEven

theorem nearestEven_add (k : Nat) {part : Rat} (hlow : 0 ≤ part) (hhigh : part < 1) :
    NearestEven (k + part)
      (if part < 1 / 2 then k else if 1 / 2 < part then k + 1 else if k % 2 = 0 then k else k + 1 : Nat) := by
  have hdown : |(k : Rat) + part - ((k : Nat) : Int)| = part := by
    rw [Int.cast_natCast, add_sub_cancel_left, abs_of_nonneg hlow]
  have hup : |(k : Rat) + part - ((k + 1 : Nat) : Int)| = 1 - part := by
    rw [abs_sub_comm, ← abs_of_pos (sub_pos.mpr hhigh)]
    push_cast
    congr 1
    ring
  split_ifs with hbelow habove heven
  · exact .of_half (hdown.trans_le hbelow.le) fun htie => absurd (hdown.symm.trans htie) hbelow.ne
  · have hless : 1 - part < 1 / 2 := by linarith
    exact .of_half (hup.trans_le hless.le) fun htie => absurd (hup.symm.trans htie) hless.ne
  · exact .of_half (hdown.trans_le (not_lt.mp habove)) fun _ => (Int.even_coe_nat k).mpr (Nat.even_iff.mpr heven)
  · have heven' : (k + 1) % 2 = 0 := by omega
    exact .of_half (hup.trans_le (by linarith)) fun _ => (Int.even_coe_nat (k + 1)).mpr (Nat.even_iff.mpr heven')

theorem nearestEven_roundDiv (num : Nat) {den : Nat} (h : 0 < den) :
    NearestEven ((num : Rat) / den) (roundDiv num den) := by
  have hden : (0 : Rat) < den := Nat.cast_pos.mpr h
  have hsplit : (num : Rat) / den = (num / den : Nat) + (num % den : Nat) / (den : Rat) := by
    have hnum : (num : Rat) = den * (num / den : Nat) + (num % den : Nat) := by
      exact_mod_cast (Nat.div_add_mod num den).symm
    nth_rewrite 1 [hnum]
    rw [add_div, mul_div_cancel_left₀ _ hden.ne']
  have hbelow : 2 * (num % den) < den ↔ (num % den : Nat) / (den : Rat) < 1 / 2 := by
    rw [div_lt_div_iff₀ hden two_pos, one_mul, mul_comm]
    exact_mod_cast Iff.rfl
  have habove : den < 2 * (num % den) ↔ 1 / 2 < (num % den : Nat) / (den : Rat) := by
    rw [div_lt_div_iff₀ two_pos hden, one_mul, mul_comm]
    exact_mod_cast Iff.rfl
  have hhigh : (num % den : Nat) / (den : Rat) < 1 := (div_lt_one hden).mpr (Nat.cast_lt.mpr (Nat.mod_lt num h))
  rw [hsplit]
  simp only [roundDiv, hbelow, habove]
  exact nearestEven_add (num / den) (by positivity) hhigh

theorem nearestEven_roundToEven (q : Rat) : NearestEven q (roundToEven q) := by
  have hmagnitude := nearestEven_roundDiv q.num.natAbs q.den_pos
  have hvalue : q = q.num / q.den := (Rat.num_div_den q).symm
  rw [Nat.cast_natAbs] at hmagnitude
  unfold roundToEven
  dsimp only
  split
  · next hneg =>
    rw [abs_of_neg hneg, Int.cast_neg, neg_div, ← hvalue] at hmagnitude
    have hback := hmagnitude.neg
    rwa [neg_neg] at hback
  · next hnonneg =>
    rwa [abs_of_nonneg (not_lt.mp hnonneg), ← hvalue] at hmagnitude

theorem nearestEven_roundPlaces (places : Nat) (q : Rat) : NearestEven (q * 10 ^ places) (roundPlaces places q) := by
  have hunit : ((Nat.pow 10 places : Nat) : Rat) = 10 ^ places := by
    rw [Nat.pow_eq, Nat.cast_pow, Nat.cast_ofNat]
  rw [← hunit]
  exact nearestEven_roundToEven _

end Yuml.Number
