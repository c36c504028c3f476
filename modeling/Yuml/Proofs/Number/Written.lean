import Mathlib.Data.List.TakeWhile
import Yuml.Number.Hundredths
import Yuml.Value.Numeric
import Yuml.Xml.Character

namespace Yuml

namespace Text

theorem isDigit_of_mem_ofNat {n : Nat} {c : Char} (h : c ∈ ofNat n) : c.isDigit = true :=
  Nat.isDigit_of_mem_toDigits (by decide) (by decide) h

theorem ofNat_injective : Function.Injective ofNat := by
  intro m n h
  have hm : Nat.ofDigitChars 10 (ofNat m) 0 = m := Nat.ofDigitChars_toDigits (by decide) (by decide)
  have hn : Nat.ofDigitChars 10 (ofNat n) 0 = n := Nat.ofDigitChars_toDigits (by decide) (by decide)
  rw [← hm, h, hn]

theorem ofNat_ne_nil (n : Nat) : ofNat n ≠ [] :=
  List.ne_nil_of_length_pos Nat.length_toDigits_pos

theorem trimBy_eq_self {p : Char → Bool} {s : Text} (h : ∀ c ∈ s, p c = false) : trimBy p s = s := by
  have hkeep (t : Text) (ht : ∀ c ∈ t, p c = false) : t.dropWhile p = t := by
    cases t with
    | nil => rfl
    | cons c cs => exact List.dropWhile_cons_of_neg (by simp [ht c List.mem_cons_self])
  rw [trimBy, hkeep s h, hkeep s.reverse (fun c hc => h c (List.mem_reverse.mp hc)), List.reverse_reverse]

end Text

namespace Number

def Digits (s : Text) : Prop :=
  ∀ c ∈ s, isDigit c = true

theorem digits_ofNat (n : Nat) : Digits (Text.ofNat n) :=
  fun _ hc => Text.isDigit_of_mem_ofNat hc

theorem isDigit_digitChar {n : Nat} (h : n < 10) : isDigit (Nat.digitChar n) = true := by
  refine digits_ofNat n _ ?_
  rw [Text.ofNat, Nat.toDigits_of_lt_base h]
  exact List.mem_singleton_self _

def IsDecimal (s : Text) : Prop :=
  ∃ whole more, s = whole ++ more ∧ whole ≠ [] ∧ Digits whole ∧
    (more = [] ∨ ∃ ds, Digits ds ∧ more = '.' :: ds)

section Reading

variable {whole ds : Text} (hne : whole ≠ []) (hwhole : Digits whole) (negative : Bool)

include hne hwhole

theorem readDecimal_whole : readDecimal negative whole = some ⟨negative, digitsValue whole, 0, 0⟩ := by
  have htake : whole.takeWhile isDigit = whole := List.takeWhile_eq_self_iff.mpr hwhole
  have hdrop : whole.dropWhile isDigit = [] := List.dropWhile_eq_nil_iff.mpr hwhole
  rw [readDecimal, htake, hdrop]
  simp [hne, readExponent]

theorem readDecimal_pointed (hds : Digits ds) :
    readDecimal negative (whole ++ '.' :: ds) = some ⟨negative, digitsValue (whole ++ ds), ds.length, 0⟩ := by
  have htake : (whole ++ '.' :: ds).takeWhile isDigit = whole := by
    rw [List.takeWhile_append_of_pos hwhole]
    exact List.append_nil whole
  have hdrop : (whole ++ '.' :: ds).dropWhile isDigit = '.' :: ds := List.dropWhile_append_of_pos hwhole
  have htake' : ds.takeWhile isDigit = ds := List.takeWhile_eq_self_iff.mpr hds
  have hdrop' : ds.dropWhile isDigit = [] := List.dropWhile_eq_nil_iff.mpr hds
  rw [readDecimal, htake, hdrop]
  simp [hne, htake', hdrop', readExponent]

end Reading

theorem readDecimal_ok {s : Text} (h : IsDecimal s) (negative : Bool) :
    ∃ d, readDecimal negative s = some d := by
  obtain ⟨whole, more, rfl, hne, hwhole, rfl | ⟨ds, hds, rfl⟩⟩ := h
  · rw [List.append_nil]
    exact ⟨_, readDecimal_whole hne hwhole negative⟩
  · exact ⟨_, readDecimal_pointed hne hwhole negative hds⟩

theorem takeSign_signed {s : Text} (h : IsDecimal s) (negative : Bool) :
    takeSign ((if negative then ['-'] else []) ++ s) = (negative, s) := by
  cases negative with
  | true => rfl
  | false =>
    obtain ⟨whole, more, rfl, hne, hwhole, -⟩ := h
    obtain ⟨d, ds, rfl⟩ := List.exists_cons_of_ne_nil hne
    have hmark {c : Char} {cs : Text} (hc : isDigit c = false) : d :: ds ++ more ≠ c :: cs := by
      rintro heq
      rw [← (List.cons.inj heq).1, hwhole d List.mem_cons_self] at hc
      cases hc
    unfold takeSign
    split
    · next heq => exact absurd heq (hmark rfl)
    · next heq => exact absurd heq (hmark rfl)
    · rfl

def IsMark (c : Char) : Prop :=
  isDigit c = true ∨ c = '.' ∨ c = '-'

theorem isMark_bounds {c : Char} (h : IsMark c) : 32 < c.toNat ∧ c.toNat < 58 := by
  rcases h with h | rfl | rfl
  · simp only [isDigit, Char.isDigit, ge_iff_le, Bool.and_eq_true, decide_eq_true_eq] at h
    have h1 : '0'.toNat ≤ c.toNat := h.1
    have h2 : c.toNat ≤ '9'.toNat := h.2
    exact ⟨Nat.lt_of_lt_of_le (by decide) h1, Nat.lt_of_le_of_lt h2 (by decide)⟩
  · decide
  · decide

theorem dropUnderscores_eq {s : Text} (h : ∀ c ∈ s, c ≠ '_') (before : Option Char) :
    dropUnderscores before s = some s := by
  induction s generalizing before with
  | nil => rfl
  | cons c cs ih =>
    rw [dropUnderscores, ih fun d hd => h d (List.mem_cons_of_mem _ hd)]
    · rfl
    · exact h c List.mem_cons_self

theorem read?_of_marks {s : Text} (h : ∀ c ∈ s, IsMark c) : read? s = readPlain s := by
  have hplain : s.map plainChar = s := by
    have hid : s.map plainChar = s.map id := List.map_congr_left fun c hc => by
      rw [plainChar, if_pos (Nat.lt_trans (isMark_bounds (h c hc)).2 (by decide))]
      rfl
    rw [hid, List.map_id]
  have htrim : Text.trimBy isPadding s = s := by
    refine Text.trimBy_eq_self fun c hc => ?_
    obtain ⟨hlow, -⟩ := isMark_bounds (h c hc)
    have hspace : c ≠ ' ' := by
      rintro rfl
      exact absurd hlow (by decide)
    simp only [isPadding, beq_eq_false_iff_ne.mpr hspace, Bool.false_or, Bool.and_eq_false_iff,
      decide_eq_false_iff_not]
    omega
  have hline : ∀ c ∈ s, c ≠ '_' := by
    rintro c hc rfl
    exact absurd (isMark_bounds (h '_' hc)).2 (by decide)
  rw [read?, hplain, htrim, dropUnderscores_eq hline]
  rfl

theorem isMark_of_isDecimal {s : Text} (h : IsDecimal s) (negative : Bool) :
    ∀ c ∈ (if negative then ['-'] else []) ++ s, IsMark c := by
  obtain ⟨whole, more, rfl, -, hwhole, hmore⟩ := h
  intro c hc
  rcases List.mem_append.mp hc with hc | hc
  · cases negative with
    | true => exact .inr (.inr (List.mem_singleton.mp hc))
    | false => cases hc
  · rcases List.mem_append.mp hc with hc | hc
    · exact .inl (hwhole c hc)
    · rcases hmore with rfl | ⟨ds, hds, rfl⟩
      · cases hc
      · rcases List.mem_cons.mp hc with rfl | hc
        · exact .inr (.inl rfl)
        · exact .inl (hds c hc)

theorem toLower_of_isMark {c : Char} (h : IsMark c) : c.toLower = c := by
  have hbound := (isMark_bounds h).2
  unfold Char.toLower
  split
  · next hupper =>
    have hlow : 'A'.toNat ≤ c.toNat := hupper.1
    have hletter : 58 ≤ 'A'.toNat := by decide
    omega
  · rfl

theorem readPlain_ok {s : Text} (h : IsDecimal s) (negative : Bool) :
    ∃ x, readPlain ((if negative then ['-'] else []) ++ s) = some x := by
  obtain ⟨number, hnumber⟩ := readDecimal_ok h negative
  have hsign := takeSign_signed h negative
  obtain ⟨whole, more, hs, hne, hwhole, -⟩ := h
  obtain ⟨d, ds, rfl⟩ := List.exists_cons_of_ne_nil hne
  have hd : IsMark d := .inl (hwhole d List.mem_cons_self)
  -- the words for other numbers begin with letters, which come after all marks
  have hletter {c : Char} {cs : Text} (hc : 58 ≤ c.toNat) : s.map Char.toLower ≠ c :: cs := by
    rw [hs, List.cons_append, List.map_cons, toLower_of_isMark hd]
    rintro heq
    obtain ⟨rfl, -⟩ := List.cons.inj heq
    have := (isMark_bounds hd).2
    omega
  have hinf : s.map Char.toLower ≠ "inf".toList := hletter (by decide)
  have hinfinity : s.map Char.toLower ≠ "infinity".toList := hletter (by decide)
  have hnan : s.map Char.toLower ≠ "nan".toList := hletter (by decide)
  rw [readPlain, hsign]
  simp only [hinf, hinfinity, hnan, or_self, if_false, hnumber]
  exact ⟨_, rfl⟩

theorem digits_decimalsOf (n : Nat) : Digits (decimalsOf n) := by
  have htenth := isDigit_digitChar (Nat.mod_lt (n / 10) (by decide : 0 < 10))
  have hlast := isDigit_digitChar (Nat.mod_lt n (by decide : 0 < 10))
  unfold decimalsOf
  dsimp only
  split_ifs
  · exact List.forall_mem_cons.mpr ⟨htenth, List.forall_mem_singleton.mpr hlast⟩
  · exact List.forall_mem_singleton.mpr htenth
  · exact List.forall_mem_nil _

theorem isDecimal_pointed {whole ds : Text} (hne : whole ≠ []) (hwhole : Digits whole) (hds : Digits ds) :
    IsDecimal (whole ++ pointed ds) := by
  refine ⟨whole, pointed ds, rfl, hne, hwhole, ?_⟩
  cases ds with
  | nil => exact .inl rfl
  | cons d ds => exact .inr ⟨d :: ds, hds, rfl⟩

theorem isDecimal_hundredths (n : Int) :
    ∃ s, IsDecimal s ∧ hundredthsText n = (if n < 0 then ['-'] else []) ++ s :=
  ⟨_, isDecimal_pointed (Text.ofNat_ne_nil _) (digits_ofNat _) (digits_decimalsOf _), rfl⟩

theorem fmt_cases (x : Float) : fmt x ∈ ["nan".toList, "inf".toList, "-inf".toList] ∨
    ∃ (negative : Bool) (s : Text), IsDecimal s ∧ fmt x = (if negative then ['-'] else []) ++ s := by
  rw [fmt]
  cases Double.ofFloat x with
  | nan => exact .inl (by decide)
  | infinite negative => exact .inl (by cases negative <;> decide)
  | finite negative m e =>
    obtain ⟨s, hs, htext⟩ := isDecimal_hundredths (roundPlaces 2 (if negative then -scaled m e else scaled m e))
    refine .inr ⟨decide (roundPlaces 2 (if negative then -scaled m e else scaled m e) < 0), s, hs, ?_⟩
    simpa [ratText] using htext

theorem readFloat_fmt (x : Float) : ∃ y, Value.readFloat (fmt x) = .ok y := by
  have hread {s : Text} (h : ∃ y, read? s = some y) : ∃ y, Value.readFloat s = .ok y := by
    obtain ⟨y, hy⟩ := h
    exact ⟨y, by rw [Value.readFloat, hy]⟩
  rcases fmt_cases x with h | ⟨negative, s, hs, h⟩
  · simp only [List.mem_cons, List.not_mem_nil, or_false] at h
    rcases h with h | h | h <;> rw [h] <;> exact hread ⟨_, rfl⟩
  · rw [h]
    refine hread ?_
    rw [read?_of_marks (isMark_of_isDecimal hs negative)]
    exact readPlain_ok hs negative

end Number

end Yuml
