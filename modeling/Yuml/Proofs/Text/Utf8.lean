import Mathlib.Algebra.Group.Nat.Defs
import Mathlib.Tactic.SplitIfs
import Yuml.Proofs.Outcome
import Yuml.Text.Utf8

namespace Yuml.Utf8

theorem decodeFrom_character {s : State} {b : UInt8} {c : Char} (h : step s b = .character c)
    (position : Nat) (bs : List UInt8) :
    decodeFrom s position (b :: bs) =
      (decodeFrom .ready (position + s.kept + 1) bs).map fun r => (c :: r.1, r.2) := by
  simp only [decodeFrom, h]
  cases decodeFrom .ready (position + s.kept + 1) bs <;> rfl

theorem decodeFrom_more {s s' : State} {b : UInt8} (h : step s b = .more s')
    (position : Nat) (bs : List UInt8) :
    decodeFrom s position (b :: bs) = decodeFrom s' position bs := by
  simp only [decodeFrom, h]

theorem decodeFrom_refused {s : State} {b first : UInt8} {fault : Fault} {length : Nat}
    (h : step s b = .refused fault first length) (position : Nat) (bs : List UInt8) :
    decodeFrom s position (b :: bs) = .error ⟨fault, first, position, length⟩ := by
  simp only [decodeFrom, h]

theorem start_more {b : UInt8} {s : State} (h : start b = .more s) : s.kept = 1 := by
  unfold start at h
  split_ifs at h <;> cases h <;> rfl

theorem kept_of_more {s s' : State} {b : UInt8} (h : step s b = .more s') :
    s'.kept = s.kept + 1 := by
  cases s with
  | ready => exact start_more h
  | surrogate first => simp [step] at h
  | begun p =>
    simp only [step, Begun.next] at h
    split_ifs at h with hb ho hs
    · cases h
      rfl
    · cases h
      simp only [Begun.isSurrogate, Bool.and_eq_true, decide_eq_true_eq] at hs
      simp [State.kept, hs.1.1.2]

theorem decodeFrom_append {s s' : State} {position : Nat} {xs : List UInt8} {t : Text}
    (h : decodeFrom s position xs = .ok (t, s')) (ys : List UInt8) :
    decodeFrom s position (xs ++ ys) =
      (decodeFrom s' (position + s.kept + xs.length - s'.kept) ys).map
        fun r => (t ++ r.1, r.2) := by
  induction xs generalizing s position t with
  | nil =>
    cases h
    simp only [List.nil_append, List.length_nil, Nat.add_zero, Nat.add_sub_cancel]
    cases decodeFrom s' position ys <;> rfl
  | cons b bs ih =>
    rw [List.cons_append]
    cases hb : step s b with
    | refused fault first length => simp [decodeFrom_refused hb] at h
    | more s₁ =>
      rw [decodeFrom_more hb] at h ⊢
      rw [ih h, kept_of_more hb, List.length_cons]
      congr 2
      omega
    | character c =>
      rw [decodeFrom_character hb] at h ⊢
      obtain ⟨⟨u, s₁⟩, hr, hu⟩ := Except.map_eq_ok.mp h
      cases hu
      have hp : position + s.kept + 1 + State.ready.kept + bs.length - s₁.kept =
          position + s.kept + (bs.length + 1) - s₁.kept := by
        simp only [State.kept]
        omega
      rw [ih hr, hp, List.length_cons]
      cases decodeFrom s₁ (position + s.kept + (bs.length + 1) - s₁.kept) ys <;> rfl

theorem decodeFrom_append_of_error {s : State} {position : Nat} {xs : List UInt8} {e : Malformed}
    (h : decodeFrom s position xs = .error e) (ys : List UInt8) :
    decodeFrom s position (xs ++ ys) = .error e := by
  induction xs generalizing s position with
  | nil => cases h
  | cons b bs ih =>
    rw [List.cons_append]
    cases hb : step s b with
    | refused fault first length => rwa [decodeFrom_refused hb] at h ⊢
    | more s₁ =>
      rw [decodeFrom_more hb] at h ⊢
      exact ih h
    | character c =>
      rw [decodeFrom_character hb] at h ⊢
      exact Except.map_eq_error.mpr (ih (Except.map_eq_error.mp h))

def Malformed.moveBy (n : Nat) (e : Malformed) : Malformed :=
  { e with position := e.position + n }

theorem decodeFrom_add (s : State) (position n : Nat) (bs : List UInt8) :
    decodeFrom s (position + n) bs = (decodeFrom s position bs).mapError (·.moveBy n) := by
  induction bs generalizing s position with
  | nil => rfl
  | cons b bs ih =>
    cases hb : step s b with
    | refused fault first length => simp only [decodeFrom_refused hb, Except.mapError, Malformed.moveBy]
    | more s' => simpa only [decodeFrom_more hb] using ih s' position
    | character c =>
      rw [decodeFrom_character hb, decodeFrom_character hb,
        show position + n + s.kept + 1 = position + s.kept + 1 + n by omega, ih]
      cases decodeFrom .ready (position + s.kept + 1) bs <;> rfl

theorem decodeFrom_ok_iff {s : State} (position position' : Nat) {bs : List UInt8}
    {r : Text × State} :
    decodeFrom s position bs = .ok r ↔ decodeFrom s position' bs = .ok r := by
  have h (n : Nat) : decodeFrom s n bs = .ok r ↔ decodeFrom s 0 bs = .ok r := by
    rw [← Nat.zero_add n, decodeFrom_add, Except.mapError_eq_ok]
  exact (h position).trans (h position').symm

theorem finish_eq_ok_iff {s : State} {position : Nat} : finish s position = .ok () ↔ s = .ready := by
  cases s <;> simp [finish]

theorem finish_add (s : State) (position n : Nat) :
    finish s (position + n) = (finish s position).mapError (·.moveBy n) := by
  cases s <;> rfl

theorem decode_eq_ok_iff {bytes : List UInt8} {t : Text} :
    decode bytes = .ok t ↔ decodeFrom .ready 0 bytes = .ok (t, .ready) := by
  unfold decode
  cases decodeFrom .ready 0 bytes with
  | error e => simp [bind, Except.bind]
  | ok r =>
    obtain ⟨u, s⟩ := r
    cases s <;> simp [bind, Except.bind, finish, pure, Except.pure]

def tailOf (n : Nat) : Nat → List UInt8
  | 0 => []
  | k + 1 => UInt8.ofNat (0x80 + n / 64 ^ k % 64) :: tailOf n k

def Begun.Admits (p : Begun) (n : Nat) : Prop :=
  n / 64 ^ p.owed = p.value ∧ p.low.toNat ≤ 0x80 + n / 64 ^ (p.owed - 1) % 64 ∧
    0x80 + n / 64 ^ (p.owed - 1) % 64 ≤ p.high.toNat

def State.Holds : State → List UInt8 → Prop
  | .ready, w => w = []
  | .begun p, w => 1 ≤ p.owed ∧ 0x80 ≤ p.low.toNat ∧ p.high.toNat ≤ 0xBF ∧
      ∀ n, p.Admits n → n.isValidChar ∧ encodeCode n = w ++ tailOf n p.owed
  | .surrogate _, _ => True

theorem encodeCode_one {n : Nat} (h : n < 0x80) : encodeCode n = [UInt8.ofNat n] := by
  simp [encodeCode, h]

theorem encodeCode_two {n : Nat} (h : 0x80 ≤ n) (h' : n < 0x800) :
    encodeCode n = UInt8.ofNat (0xC0 + n / 64) :: tailOf n 1 := by
  have h₁ : ¬ n < 0x80 := by omega
  simp [encodeCode, tailOf, h₁, h']

theorem encodeCode_three {n : Nat} (h : 0x800 ≤ n) (h' : n < 0x10000) :
    encodeCode n = UInt8.ofNat (0xE0 + n / 4096) :: tailOf n 2 := by
  have h₁ : ¬ n < 0x80 := by omega
  have h₂ : ¬ n < 0x800 := by omega
  simp [encodeCode, tailOf, h₁, h₂, h']

theorem encodeCode_four {n : Nat} (h : 0x10000 ≤ n) :
    encodeCode n = UInt8.ofNat (0xF0 + n / 262144) :: tailOf n 3 := by
  have h₁ : ¬ n < 0x80 := by omega
  have h₂ : ¬ n < 0x800 := by omega
  have h₃ : ¬ n < 0x10000 := by omega
  simp [encodeCode, tailOf, h₁, h₂, h₃]

theorem ofNat_eq {n : Nat} {b : UInt8} (h : n = b.toNat) : UInt8.ofNat n = b := by
  rw [h, UInt8.ofNat_toNat]

theorem toNat_ofNat {n : Nat} (h : n.isValidChar) : (Char.ofNat n).toNat = n := by
  rw [Char.ofNat, dif_pos h]
  rfl

theorem encodeChar_ofNat {n : Nat} (h : n.isValidChar) : encodeChar (Char.ofNat n) = encodeCode n := by
  rw [encodeChar, toNat_ofNat h]

theorem start_character {b : UInt8} {c : Char} (h : start b = .character c) :
    encodeChar c = [b] := by
  unfold start at h
  split_ifs at h with hb
  cases h
  have hn : b.toNat < 0x80 := UInt8.lt_iff_toNat_lt.mp hb
  rw [encodeChar_ofNat (.inl (by omega)), encodeCode_one hn, UInt8.ofNat_toNat]

theorem holds_two {b : UInt8} (h : 0xC2 ≤ b.toNat) (h' : b.toNat < 0xE0) :
    State.Holds (.begun ⟨b, 1, 1, 0x80, 0xBF, b.toNat - 0xC0⟩) [b] := by
  refine ⟨Nat.le_refl 1, Nat.le_refl 0x80, Nat.le_refl 0xBF, fun n hn => ?_⟩
  have hv : n / 64 = b.toNat - 0xC0 := hn.1
  rw [encodeCode_two (by omega) (by omega), ofNat_eq (b := b) (by omega)]
  exact ⟨.inl (by omega), rfl⟩

theorem holds_three {b low high : UInt8} (h : 0xE0 ≤ b.toNat) (h' : b.toNat < 0xF0)
    (hl : 0x80 ≤ low.toNat) (hh : high.toNat ≤ 0xBF)
    (hn : ∀ n, n / 4096 = b.toNat - 0xE0 → low.toNat ≤ 0x80 + n / 64 % 64 →
      0x80 + n / 64 % 64 ≤ high.toNat → 0x800 ≤ n ∧ n.isValidChar) :
    State.Holds (.begun ⟨b, 1, 2, low, high, b.toNat - 0xE0⟩) [b] := by
  refine ⟨by simp, hl, hh, fun n ⟨hv, hlow, hhigh⟩ => ?_⟩
  have hv : n / 4096 = b.toNat - 0xE0 := hv
  obtain ⟨hmin, hvalid⟩ := hn n hv (by simpa using hlow) (by simpa using hhigh)
  rw [encodeCode_three hmin (by omega), ofNat_eq (b := b) (by omega)]
  exact ⟨hvalid, rfl⟩

theorem holds_four {b low high : UInt8} (h : 0xF0 ≤ b.toNat)
    (hl : 0x80 ≤ low.toNat) (hh : high.toNat ≤ 0xBF)
    (hn : ∀ n, n / 262144 = b.toNat - 0xF0 → low.toNat ≤ 0x80 + n / 4096 % 64 →
      0x80 + n / 4096 % 64 ≤ high.toNat → 0x10000 ≤ n ∧ n < 0x110000) :
    State.Holds (.begun ⟨b, 1, 3, low, high, b.toNat - 0xF0⟩) [b] := by
  refine ⟨by simp, hl, hh, fun n ⟨hv, hlow, hhigh⟩ => ?_⟩
  have hv : n / 262144 = b.toNat - 0xF0 := hv
  obtain ⟨hmin, hmax⟩ := hn n hv (by simpa using hlow) (by simpa using hhigh)
  rw [encodeCode_four hmin, ofNat_eq (b := b) (by omega)]
  exact ⟨.inr ⟨by omega, hmax⟩, rfl⟩

theorem holds_of_start {b : UInt8} {s : State} (h : start b = .more s) : s.Holds [b] := by
  unfold start at h
  simp only [UInt8.lt_iff_toNat_lt, ← UInt8.toNat_inj, UInt8.reduceToNat] at h
  split_ifs at h <;> cases h
  · exact holds_two (by omega) (by omega)
  -- the narrower ranges after E0, ED, F0 and F4 keep out what two or three bytes could hold,
  -- surrogates, and what no code point reaches
  iterate 3
    · apply holds_three (by omega) (by omega) (by decide) (by decide)
      intro n hv hlow hhigh
      simp only [UInt8.reduceToNat, Nat.isValidChar] at *
      omega
  iterate 3
    · apply holds_four (by omega) (by decide) (by decide)
      intro n hv hlow hhigh
      simp only [UInt8.reduceToNat] at *
      omega

theorem Begun.admits_of_next {p : Begun} {b : UInt8} (ho : 1 ≤ p.owed) (hl : 0x80 ≤ p.low.toNat)
    (hh : p.high.toNat ≤ 0xBF) (hb : p.low ≤ b ∧ b ≤ p.high) {n : Nat}
    (hn : n / 64 ^ (p.owed - 1) = p.value * 64 + (b.toNat - 0x80)) :
    p.Admits n ∧ tailOf n p.owed = b :: tailOf n (p.owed - 1) := by
  have h₁ := UInt8.le_iff_toNat_le.mp hb.1
  have h₂ := UInt8.le_iff_toNat_le.mp hb.2
  obtain ⟨k, hk⟩ : ∃ k, p.owed = k + 1 := ⟨p.owed - 1, by omega⟩
  simp only [Admits, hk, Nat.add_sub_cancel, Nat.pow_succ, ← Nat.div_div_eq_div_mul, tailOf] at hn ⊢
  refine ⟨⟨by omega, by omega, by omega⟩, ?_⟩
  rw [ofNat_eq (b := b) (by omega)]

theorem holds_of_more {s s' : State} {w : List UInt8} {b : UInt8} (hw : s.Holds w)
    (h : step s b = .more s') : s'.Holds (w ++ [b]) := by
  cases s with
  | ready =>
    obtain rfl : w = [] := hw
    exact holds_of_start h
  | surrogate first => cases h
  | begun p =>
    obtain ⟨ho, hl, hh, hn⟩ := hw
    simp only [step, Begun.next] at h
    split_ifs at h with hb ho' hs
    · cases h
      refine ⟨by simp only; omega, Nat.le_refl 0x80, Nat.le_refl 0xBF, fun n hv => ?_⟩
      obtain ⟨ha, ht⟩ := Begun.admits_of_next ho hl hh hb hv.1
      rw [(hn n ha).2, ht, List.append_assoc]
      exact ⟨(hn n ha).1, rfl⟩
    · cases h
      exact True.intro

theorem holds_of_character {s : State} {w : List UInt8} {b : UInt8} {c : Char} (hw : s.Holds w)
    (h : step s b = .character c) : w ++ [b] = encodeChar c := by
  cases s with
  | ready =>
    obtain rfl : w = [] := hw
    exact (start_character h).symm
  | surrogate first => cases h
  | begun p =>
    obtain ⟨ho, hl, hh, hn⟩ := hw
    simp only [step, Begun.next] at h
    split_ifs at h with hb ho' hs
    obtain rfl := Outcome.character.inj h
    have hp : p.owed - 1 = 0 := by omega
    obtain ⟨ha, ht⟩ := Begun.admits_of_next (n := p.value * 64 + (b.toNat - 0x80)) ho hl hh hb
      (by simp [hp])
    rw [encodeChar_ofNat (hn _ ha).1, (hn _ ha).2, ht, hp]
    rfl

theorem exists_held_of_decodeFrom {s s' : State} {w bytes : List UInt8} {position : Nat} {t : Text}
    (hw : s.Holds w) (hkept : w.length = s.kept) (h : decodeFrom s position bytes = .ok (t, s')) :
    ∃ w', w ++ bytes = encode t ++ w' ∧ s'.Holds w' ∧ w'.length = s'.kept := by
  induction bytes generalizing s w position t with
  | nil =>
    cases h
    exact ⟨w, List.append_nil w, hw, hkept⟩
  | cons b bs ih =>
    rw [← List.singleton_append, ← List.append_assoc]
    cases hb : step s b with
    | refused fault first length => simp [decodeFrom_refused hb] at h
    | more s₁ =>
      rw [decodeFrom_more hb] at h
      exact ih (holds_of_more hw hb) (by rw [List.length_append, hkept, kept_of_more hb, List.length_singleton]) h
    | character c =>
      rw [decodeFrom_character hb] at h
      obtain ⟨⟨u, s₁⟩, hr, hu⟩ := Except.map_eq_ok.mp h
      cases hu
      obtain ⟨w', hbs, hw'⟩ := ih (s := .ready) (w := []) rfl rfl hr
      refine ⟨w', ?_, hw'⟩
      rw [holds_of_character hw hb, encode, List.flatMap_cons, List.append_assoc, ← encode, ← hbs, List.nil_append]

theorem exists_held {bytes : List UInt8} {position : Nat} {t : Text} {s : State}
    (h : decodeFrom .ready position bytes = .ok (t, s)) :
    ∃ w, bytes = encode t ++ w ∧ s.Holds w ∧ w.length = s.kept :=
  exists_held_of_decodeFrom (s := .ready) (w := []) rfl rfl h

theorem step_begun {p : Begun} {n : Nat} (ho : 1 ≤ p.owed) (hn : p.Admits n) :
    step (.begun p) (UInt8.ofNat (0x80 + n / 64 ^ (p.owed - 1) % 64)) =
      if p.owed ≤ 1 then .character (Char.ofNat n)
      else .more (.begun ⟨p.first, p.seen + 1, p.owed - 1, 0x80, 0xBF, n / 64 ^ (p.owed - 1)⟩) := by
  obtain ⟨k, hk⟩ : ∃ k, p.owed = k + 1 := ⟨p.owed - 1, by omega⟩
  obtain ⟨hv, hl, hh⟩ := hn
  simp only [hk, Nat.add_sub_cancel, Nat.pow_succ, ← Nat.div_div_eq_div_mul] at hv hl hh ⊢
  have hb : (UInt8.ofNat (0x80 + n / 64 ^ k % 64)).toNat = 0x80 + n / 64 ^ k % 64 := by
    rw [UInt8.toNat_ofNat']
    omega
  simp only [step, Begun.next, UInt8.le_iff_toNat_le, hb, hk, Nat.add_sub_cancel]
  rw [if_pos ⟨hl, hh⟩, show p.value * 64 + (0x80 + n / 64 ^ k % 64 - 0x80) = n / 64 ^ k by omega]
  split_ifs with h
  · obtain rfl : k = 0 := by omega
    simp
  · rfl

theorem decodeFrom_tailOf {p : Begun} {n : Nat} (ho : 1 ≤ p.owed) (hn : p.Admits n)
    (position : Nat) (bs : List UInt8) :
    decodeFrom (.begun p) position (tailOf n p.owed ++ bs) =
      (decodeFrom .ready (position + p.seen + p.owed) bs).map fun r => (Char.ofNat n :: r.1, r.2) := by
  induction hk : p.owed generalizing p with
  | zero => omega
  | succ k ih =>
    have hb := step_begun ho hn
    rw [hk, Nat.add_sub_cancel] at hb
    rw [tailOf, List.cons_append]
    by_cases h : k + 1 ≤ 1
    · obtain rfl : k = 0 := by omega
      rw [if_pos h] at hb
      rw [decodeFrom_character hb]
      rfl
    · rw [if_neg h] at hb
      let q : Begun := ⟨p.first, p.seen + 1, k, 0x80, 0xBF, n / 64 ^ k⟩
      have hlow : 0x80 ≤ 0x80 + n / 64 ^ (k - 1) % 64 := by omega
      have hhigh : 0x80 + n / 64 ^ (k - 1) % 64 ≤ 0xBF := by omega
      have hq : 1 ≤ q.owed := by simp only [q]; omega
      rw [decodeFrom_more hb, ih hq ⟨rfl, hlow, hhigh⟩ rfl,
        show position + q.seen + k = position + p.seen + (k + 1) by simp only [q]; omega]

theorem start_two {b : UInt8} (h : 0xC2 ≤ b.toNat) (h' : b.toNat < 0xE0) :
    start b = .more (.begun ⟨b, 1, 1, 0x80, 0xBF, b.toNat - 0xC0⟩) := by
  simp only [start, UInt8.lt_iff_toNat_lt, UInt8.reduceToNat]
  rw [if_neg (by omega), if_neg (by omega), if_pos h']

theorem start_three {b : UInt8} (h : 0xE0 ≤ b.toNat) (h' : b.toNat < 0xF0) :
    start b = .more (.begun ⟨b, 1, 2, if b.toNat = 0xE0 then 0xA0 else 0x80,
      if b.toNat = 0xED then 0x9F else 0xBF, b.toNat - 0xE0⟩) := by
  simp only [start, UInt8.lt_iff_toNat_lt, ← UInt8.toNat_inj, UInt8.reduceToNat]
  rw [if_neg (by omega), if_neg (by omega), if_neg (by omega), if_pos h']
  split_ifs <;> first | rfl | omega

theorem start_four {b : UInt8} (h : 0xF0 ≤ b.toNat) (h' : b.toNat < 0xF5) :
    start b = .more (.begun ⟨b, 1, 3, if b.toNat = 0xF0 then 0x90 else 0x80,
      if b.toNat = 0xF4 then 0x8F else 0xBF, b.toNat - 0xF0⟩) := by
  simp only [start, UInt8.lt_iff_toNat_lt, ← UInt8.toNat_inj, UInt8.reduceToNat]
  rw [if_neg (by omega), if_neg (by omega), if_neg (by omega), if_neg (by omega),
    if_neg (by omega), if_neg (by omega)]
  split_ifs <;> first | rfl | omega

theorem start_encodeCode {n : Nat} (h : n.isValidChar) (hn : 0x80 ≤ n) :
    ∃ b p, encodeCode n = b :: tailOf n p.owed ∧ start b = .more (.begun p) ∧
      1 ≤ p.owed ∧ p.Admits n := by
  have hv : n < 0xD800 ∨ 0xDFFF < n ∧ n < 0x110000 := h
  by_cases h₂ : n < 0x800
  · have hb : (UInt8.ofNat (0xC0 + n / 64)).toNat = 0xC0 + n / 64 := by
      rw [UInt8.toNat_ofNat']
      omega
    refine ⟨_, _, encodeCode_two hn h₂, start_two (by omega) (by omega), by simp, ?_⟩
    simp only [Begun.Admits, hb, UInt8.reduceToNat]
    omega
  · by_cases h₃ : n < 0x10000
    · have hb : (UInt8.ofNat (0xE0 + n / 4096)).toNat = 0xE0 + n / 4096 := by
        rw [UInt8.toNat_ofNat']
        omega
      refine ⟨_, _, encodeCode_three (by omega) h₃, start_three (by omega) (by omega), by simp, ?_⟩
      simp only [Begun.Admits, hb, Nat.reduceSub, Nat.reducePow]
      split_ifs <;> simp only [UInt8.reduceToNat] <;> omega
    · have hb : (UInt8.ofNat (0xF0 + n / 262144)).toNat = 0xF0 + n / 262144 := by
        rw [UInt8.toNat_ofNat']
        omega
      refine ⟨_, _, encodeCode_four (by omega), start_four (by omega) (by omega), by simp, ?_⟩
      simp only [Begun.Admits, hb, Nat.reduceSub, Nat.reducePow]
      split_ifs <;> simp only [UInt8.reduceToNat] <;> omega

theorem decodeFrom_encodeChar (c : Char) (position : Nat) (bs : List UInt8) :
    ∃ position', decodeFrom .ready position (encodeChar c ++ bs) =
      (decodeFrom .ready position' bs).map fun r => (c :: r.1, r.2) := by
  rw [encodeChar]
  by_cases hn : c.toNat < 0x80
  · have hb : (UInt8.ofNat c.toNat).toNat = c.toNat := by
      rw [UInt8.toNat_ofNat']
      omega
    have hs : step .ready (UInt8.ofNat c.toNat) = .character c := by
      simp only [step, start, UInt8.lt_iff_toNat_lt, hb, UInt8.reduceToNat]
      rw [if_pos hn, Char.ofNat_toNat]
    rw [encodeCode_one hn]
    exact ⟨_, decodeFrom_character hs position bs⟩
  · have hc : c.toNat.isValidChar := c.valid
    obtain ⟨b, p, he, hs, ho, ha⟩ := start_encodeCode hc (Nat.le_of_not_lt hn)
    have hs : step .ready b = .more (.begun p) := hs
    rw [he, List.cons_append, decodeFrom_more hs, decodeFrom_tailOf ho ha]
    exact ⟨_, by rw [Char.ofNat_toNat]⟩

theorem decodeFrom_encode (t : Text) (position : Nat) :
    decodeFrom .ready position (encode t) = .ok (t, .ready) := by
  induction t generalizing position with
  | nil => rfl
  | cons c cs ih =>
    obtain ⟨position', h⟩ := decodeFrom_encodeChar c position (encode cs)
    rw [encode, List.flatMap_cons, ← encode, h, ih]
    rfl

theorem decode_eq_ok_iff_encode {bytes : List UInt8} {t : Text} :
    decode bytes = .ok t ↔ bytes = encode t := by
  rw [decode_eq_ok_iff]
  constructor
  · intro h
    obtain ⟨w, hbytes, hw, -⟩ := exists_held h
    obtain rfl : w = [] := hw
    rw [hbytes, List.append_nil]
  · rintro rfl
    exact decodeFrom_encode t 0

end Yuml.Utf8
