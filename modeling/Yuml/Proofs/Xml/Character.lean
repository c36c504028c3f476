import Yuml.Proofs.Number.Written
import Yuml.Xml.Character

namespace Yuml.Xml

abbrev Legal (s : Text) : Prop :=
  ∀ c ∈ s, isLegal c = true

theorem isLegal_of_bounds {c : Char} (h : 32 ≤ c.toNat) (h' : c.toNat < 0xFFFE) : isLegal c = true := by
  simp only [isLegal, Bool.or_eq_true, Bool.and_eq_true, decide_eq_true_eq, ne_eq]
  exact .inr ⟨⟨h, by omega⟩, by omega⟩

theorem legal_of_all {s : Text} (h : s.all isLegal = true) : Legal s :=
  List.all_eq_true.mp h

theorem legal_cons_iff {c : Char} {s : Text} : Legal (c :: s) ↔ isLegal c = true ∧ Legal s :=
  List.forall_mem_cons

theorem legal_append_iff {s t : Text} : Legal (s ++ t) ↔ Legal s ∧ Legal t :=
  List.forall_mem_append

theorem legal_append {s t : Text} (hs : Legal s) (ht : Legal t) : Legal (s ++ t) :=
  List.forall_mem_append.mpr ⟨hs, ht⟩

theorem legal_legalText (s : Text) : Legal (legalText s) :=
  fun _ hc => (List.mem_filter.mp hc).2

theorem legalText_eq_self {s : Text} (h : Legal s) : legalText s = s :=
  List.filter_eq_self.mpr h

theorem legal_ofNat (n : Nat) : Legal (Text.ofNat n) := by
  intro c hc
  have hbounds := Number.isMark_bounds (.inl (Text.isDigit_of_mem_ofNat hc))
  exact isLegal_of_bounds (by omega) (by omega)

theorem legal_fmt (x : Float) : Legal (Number.fmt x) := by
  rcases Number.fmt_cases x with h | ⟨negative, s, hs, h⟩
  · have hwords : ∀ w ∈ ["nan".toList, "inf".toList, "-inf".toList], w.all isLegal = true := by decide
    exact legal_of_all (hwords _ h)
  · intro c hc
    rw [h] at hc
    have hbounds := Number.isMark_bounds (Number.isMark_of_isDecimal hs negative c hc)
    exact isLegal_of_bounds (by omega) (by omega)

theorem isNameChar_of_isNameStart {c : Char} (h : isNameStart c = true) : isNameChar c = true := by
  unfold isNameStart at h
  unfold isNameChar
  split at h
  · next hc =>
    simp only [Bool.or_eq_true] at h
    rw [if_pos hc]
    rcases h with h | h <;> simp [h, Char.isAlphanum]
  · next hc =>
    rw [if_neg hc, h, Bool.true_or]

theorem not_isSpace_of_isNameChar {c : Char} (h : isNameChar c = true) : isSpace c = false := by
  by_contra hc
  simp only [isSpace, Bool.not_eq_false, Bool.or_eq_true, beq_iff_eq] at hc
  rcases hc with ((rfl | rfl) | rfl) | rfl <;> cases h

end Yuml.Xml
