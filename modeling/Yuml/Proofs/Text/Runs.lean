import Mathlib.Data.List.TakeWhile
import Yuml.Text.Basic
import Yuml.Text.Word

namespace Yuml.Text

def AllBlank (s : Text) : Prop :=
  ∀ c ∈ s, isBlank c = true

def IsWordRun (s : Text) : Prop :=
  s ≠ [] ∧ ∀ c ∈ s, isWord c = true

theorem allBlank_of_all {s : Text} (h : s.all isBlank = true) : AllBlank s :=
  List.all_eq_true.mp h

theorem isWord_of_isBlank {c : Char} (h : isBlank c = true) : isWord c = false := by
  have hcodes : ∀ n ∈ [9, 10, 11, 12, 13, 28, 29, 30, 31, 32, 0x85, 0xA0, 0x1680, 0x2000, 0x2001, 0x2002, 0x2003,
      0x2004, 0x2005, 0x2006, 0x2007, 0x2008, 0x2009, 0x200A, 0x2028, 0x2029, 0x202F, 0x205F, 0x3000],
      isWord (Char.ofNat n) = false := by decide +kernel
  rw [← Char.ofNat_toNat c]
  apply hcodes
  simp only [isBlank, Bool.or_eq_true, Bool.and_eq_true, decide_eq_true_eq, beq_iff_eq] at h
  simp only [List.mem_cons, List.not_mem_nil, or_false]
  omega

theorem span_append {p : Char → Bool} {s rest : Text} (hs : ∀ c ∈ s, p c = true) (hrest : ∀ c ∈ rest.head?, p c = false) :
    (s ++ rest).takeWhile p = s ∧ (s ++ rest).dropWhile p = rest := by
  rw [List.takeWhile_append_of_pos hs, List.dropWhile_append_of_pos hs]
  cases rest with
  | nil => exact ⟨List.append_nil s, rfl⟩
  | cons c cs =>
    have hc : ¬ p c = true := Bool.eq_false_iff.mp (hrest c rfl)
    rw [List.takeWhile_cons_of_neg hc, List.dropWhile_cons_of_neg hc]
    exact ⟨List.append_nil s, rfl⟩

end Yuml.Text
