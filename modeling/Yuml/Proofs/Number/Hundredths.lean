import Yuml.Proofs.Number.Rounding
import Yuml.Proofs.Number.Written

namespace Yuml.Number

def Decimal.toRat (d : Decimal) : Rat :=
  (if d.negative then -(d.digits : Rat) else d.digits) / 10 ^ d.places * 10 ^ d.exponent

def decimalValue? (s : Text) : Option Rat :=
  (readDecimal (takeSign s).1 (takeSign s).2).map Decimal.toRat

section Value

variable (s t : Text) (n : Nat)

theorem digitsValue_ofNat : digitsValue (Text.ofNat n) = n := by
  have h : Nat.ofDigitChars 10 (Text.ofNat n) 0 = n := Nat.ofDigitChars_toDigits (by decide) (by decide)
  nth_rewrite 2 [← h]
  simp only [digitsValue, Nat.ofDigitChars, Nat.mul_comm]
  rfl

theorem digitsValue_concat (c : Char) : digitsValue (s ++ [c]) = digitsValue s * 10 + (c.toNat - 48) :=
  List.foldl_concat ..

theorem digitChar_toNat_sub {d : Nat} (h : d < 10) : (Nat.digitChar d).toNat - 48 = d := by
  have hall : ∀ d < 10, (Nat.digitChar d).toNat - 48 = d := by decide
  exact hall d h

theorem getLast?_decimalsOf : ∀ c ∈ (decimalsOf n).getLast?, c ≠ '0' := by
  have hzero {d : Nat} (h : d < 10) (hd : d ≠ 0) : Nat.digitChar d ≠ '0' := by
    intro heq
    rw [← digitChar_toNat_sub h, heq] at hd
    exact hd rfl
  unfold decimalsOf
  dsimp only
  split_ifs with hlast htenth
  · rintro c ⟨⟩
    exact hzero (Nat.mod_lt _ (by decide)) hlast
  · rintro c ⟨⟩
    exact hzero (Nat.mod_lt _ (by decide)) htenth
  · exact fun _ h => nomatch h

theorem digitsValue_decimalsOf :
    digitsValue (Text.ofNat (n / 100) ++ decimalsOf n) * 100 = n * 10 ^ (decimalsOf n).length := by
  have htenth := digitChar_toNat_sub (Nat.mod_lt (n / 10) (by decide : 0 < 10))
  have hlast := digitChar_toNat_sub (Nat.mod_lt n (by decide : 0 < 10))
  unfold decimalsOf
  dsimp only
  split_ifs
  · rw [List.append_cons, digitsValue_concat, digitsValue_concat, digitsValue_ofNat, htenth, hlast]
    simp only [List.length_cons, List.length_nil]
    omega
  · rw [digitsValue_concat, digitsValue_ofNat, htenth]
    simp only [List.length_cons, List.length_nil]
    omega
  · rw [List.append_nil, digitsValue_ofNat]
    simp only [List.length_nil]
    omega

end Value

theorem decimalValue?_signed {whole ds : Text} (hne : whole ≠ []) (hwhole : Digits whole) (hds : Digits ds) (negative : Bool) :
    decimalValue? ((if negative then ['-'] else []) ++ (whole ++ pointed ds)) =
      some (Decimal.toRat ⟨negative, digitsValue (whole ++ ds), ds.length, 0⟩) := by
  have hread : readDecimal negative (whole ++ pointed ds) = some ⟨negative, digitsValue (whole ++ ds), ds.length, 0⟩ := by
    cases ds with
    | nil =>
      rw [pointed, List.append_nil]
      exact readDecimal_whole hne hwhole negative
    | cons d ds => exact readDecimal_pointed hne hwhole negative hds
  rw [decimalValue?, takeSign_signed (isDecimal_pointed hne hwhole hds), hread, Option.map_some]

theorem decimalValue?_hundredthsText (n : Int) : decimalValue? (hundredthsText n) = some ((n : Rat) / 100) := by
  have hvalue : (digitsValue (Text.ofNat (n.natAbs / 100) ++ decimalsOf n.natAbs) : Rat) /
      10 ^ (decimalsOf n.natAbs).length = n.natAbs / 100 := by
    rw [div_eq_div_iff (by positivity) (by norm_num)]
    exact_mod_cast digitsValue_decimalsOf n.natAbs
  have hsign : hundredthsText n = (if decide (n < 0) then ['-'] else []) ++
      (Text.ofNat (n.natAbs / 100) ++ pointed (decimalsOf n.natAbs)) := by
    simp [hundredthsText]
  rw [hsign, decimalValue?_signed (Text.ofNat_ne_nil _) (digits_ofNat _) (digits_decimalsOf _)]
  congr 1
  rw [Decimal.toRat, zpow_zero, mul_one]
  by_cases h : n < 0
  · rw [if_pos (decide_eq_true h), neg_div, hvalue, Nat.cast_natAbs, abs_of_neg h, Int.cast_neg, neg_div, neg_neg]
  · rw [if_neg (by simpa using h), hvalue, Nat.cast_natAbs, abs_of_nonneg (not_lt.mp h)]

/-- A number as it should be written: a minus sign if need be, digits, and a point with more digits if need be. It ends
neither with a point nor with a zero after one, and zero is written in one way only. -/
structure Canonical (s : Text) : Prop where
  plain : ∃ (negative : Bool) (body : Text), IsDecimal body ∧ s = (if negative then ['-'] else []) ++ body
  last : '.' ∈ s → ∀ c ∈ s.getLast?, c ≠ '0' ∧ c ≠ '.'
  zero : decimalValue? s = some 0 → s = "0".toList

theorem point_not_mem_digits {s : Text} (h : Digits s) : '.' ∉ s :=
  fun hmem => absurd (h '.' hmem) (by decide)

theorem canonical_hundredthsText (n : Int) : Canonical (hundredthsText n) where
  plain := by
    obtain ⟨body, hbody, htext⟩ := isDecimal_hundredths n
    exact ⟨decide (n < 0), body, hbody, by simpa using htext⟩
  last := by
    unfold hundredthsText
    have hlast := getLast?_decimalsOf n.natAbs
    have hdigits := digits_decimalsOf n.natAbs
    cases hds : decimalsOf n.natAbs with
    | nil =>
      intro hpoint
      have hsign : '.' ∉ (if n < 0 then ['-'] else []) := by split <;> decide
      simp [pointed, hsign, point_not_mem_digits (digits_ofNat _)] at hpoint
    | cons d ds =>
      rw [hds] at hlast hdigits
      intro _ c hc
      have hc' : c ∈ (d :: ds).getLast? := by
        rw [pointed, ← List.append_assoc, List.append_cons, List.getLast?_append_of_ne_nil _ (List.cons_ne_nil d ds)] at hc
        exact hc
      refine ⟨hlast c hc', ?_⟩
      rintro rfl
      exact point_not_mem_digits hdigits (List.mem_of_mem_getLast? hc')
  zero := by
    rw [decimalValue?_hundredthsText]
    intro h
    have hn : n = 0 := by simpa using h
    rw [hn]
    rfl

theorem nearestEven_hundredths (q : Rat) : NearestEven (q * 100) (roundPlaces 2 q) := by
  have h := nearestEven_roundPlaces 2 q
  norm_num at h
  exact h

theorem ratText_eq {q : Rat} {n : Int} (h : NearestEven (q * 100) n) : ratText q = hundredthsText n := by
  rw [ratText, (nearestEven_hundredths q).unique h]

theorem hundredthsText_injective : Function.Injective hundredthsText := by
  intro m n h
  have hvalue : (m : Rat) / 100 = n / 100 := by
    rw [← Option.some_inj, ← decimalValue?_hundredthsText, ← decimalValue?_hundredthsText, h]
  exact_mod_cast (div_left_inj' (by norm_num)).mp hvalue

theorem fmt_eq_ratText {x : Float} {q : Rat} (h : (Double.ofFloat x).toRat? = some q) : fmt x = ratText q := by
  unfold fmt
  cases hx : Double.ofFloat x with
  | nan => cases hx ▸ h
  | infinite negative => cases hx ▸ h
  | finite negative m e =>
    rw [hx] at h
    rw [← Option.some.inj h]

theorem fmt_canonical :
    (∀ x q, (Double.ofFloat x).toRat? = some q → fmt x = ratText q) ∧
    (∀ q, Canonical (ratText q) ∧ ∃ n, NearestEven (q * 100) n ∧ (∀ m, NearestEven (q * 100) m → m = n) ∧
      decimalValue? (ratText q) = some ((n : Rat) / 100)) ∧
    ∀ q r, ratText q = ratText r ↔ ∃ n, NearestEven (q * 100) n ∧ NearestEven (r * 100) n := by
  refine ⟨fun x q => fmt_eq_ratText, fun q => ?_, fun q r => ⟨fun h => ?_, ?_⟩⟩
  · have hq := nearestEven_hundredths q
    rw [ratText_eq hq]
    exact ⟨canonical_hundredthsText _, _, hq, fun m hm => hm.unique hq, decimalValue?_hundredthsText _⟩
  · have hsame : roundPlaces 2 q = roundPlaces 2 r := hundredthsText_injective h
    exact ⟨roundPlaces 2 q, nearestEven_hundredths q, hsame ▸ nearestEven_hundredths r⟩
  · rintro ⟨n, hq, hr⟩
    rw [ratText_eq hq, ratText_eq hr]

theorem fmt_canonical_tie :
    (Double.ofFloat 0.125).toRat? = some (1 / 8) ∧ fmt 0.125 = ratText (1 / 8) ∧ fmt 0.125 = "0.12".toList ∧
      fmt (-0.001) = "0".toList := by
  have hvalue : (Double.ofFloat 0.125).toRat? = some (1 / 8) := by decide +kernel
  exact ⟨hvalue, fmt_canonical.1 _ _ hvalue, by decide +kernel, by decide +kernel⟩

end Yuml.Number
