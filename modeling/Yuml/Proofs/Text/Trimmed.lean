import Mathlib.Data.List.DropRight
import Yuml.Proofs.Source.Lines
import Yuml.Text.Basic

namespace Yuml.Text

section Trim

variable (p : Char → Bool) (s : Text)

theorem trimBy_eq_rdropWhile : trimBy p s = (s.dropWhile p).rdropWhile p :=
  rfl

theorem trimBy_dropWhile : trimBy p (s.dropWhile p) = trimBy p s := by
  rw [trimBy_eq_rdropWhile, List.dropWhile_idempotent, trimBy_eq_rdropWhile]

theorem trimBy_prefix_dropWhile : trimBy p s <+: s.dropWhile p := by
  rw [trimBy_eq_rdropWhile]
  exact List.rdropWhile_prefix p _

variable {p s} in
theorem dropWhile_eq_self_mono {t : Text} (h : t <+: s) (hs : s.dropWhile p = s) : t.dropWhile p = t := by
  obtain ⟨rest, rfl⟩ := h
  apply List.dropWhile_eq_self_iff.mpr
  intro hlength
  have hhead := List.dropWhile_eq_self_iff.mp hs (by rw [List.length_append]; omega)
  rwa [List.getElem_append_left hlength] at hhead

theorem dropWhile_trimBy : (trimBy p s).dropWhile p = trimBy p s :=
  dropWhile_eq_self_mono (trimBy_prefix_dropWhile p s) (List.dropWhile_idempotent p s)

theorem trimBy_trimBy : trimBy p (trimBy p s) = trimBy p s := by
  rw [trimBy_eq_rdropWhile, dropWhile_trimBy, trimBy_eq_rdropWhile, List.rdropWhile_idempotent]

end Trim

theorem trim_trim (s : Text) : trim (trim s) = trim s :=
  trimBy_trimBy isBlank s

section Ends

variable {p : Char → Bool} {s t : Text}

theorem trimBy_append_left (hs : ∀ c ∈ s, p c = true) (t : Text) : trimBy p (s ++ t) = trimBy p t := by
  rw [trimBy, List.dropWhile_append_of_pos hs, trimBy]

theorem trimBy_append_right (s : Text) (ht : ∀ c ∈ t, p c = true) : trimBy p (s ++ t) = trimBy p s := by
  have hback (r : Text) : (r ++ t).rdropWhile p = r.rdropWhile p := by
    rw [List.rdropWhile, List.reverse_append, List.dropWhile_append_of_pos fun c hc => ht c (List.mem_reverse.mp hc),
      List.rdropWhile]
  rw [trimBy_eq_rdropWhile, trimBy_eq_rdropWhile, List.dropWhile_append]
  split
  · next hempty => rw [List.isEmpty_iff.mp hempty, List.dropWhile_eq_nil_iff.mpr ht]
  · exact hback _

theorem exists_trimBy (p : Char → Bool) (s : Text) :
    ∃ before after, s = before ++ trimBy p s ++ after ∧ (∀ c ∈ before, p c = true) ∧ ∀ c ∈ after, p c = true := by
  refine ⟨s.takeWhile p, (s.dropWhile p).rtakeWhile p, ?_, fun c hc => List.mem_takeWhile_imp hc,
    fun c hc => List.mem_rtakeWhile_imp hc⟩
  rw [trimBy_eq_rdropWhile, List.append_assoc, List.rdropWhile_append_rtakeWhile, List.takeWhile_append_dropWhile]

theorem trimBy_trimBy_of_imp {q : Char → Bool} (h : ∀ c ∈ s, q c = true → p c = true) :
    trimBy p (trimBy q s) = trimBy p s := by
  obtain ⟨before, after, hs, hbefore, hafter⟩ := exists_trimBy q s
  have hleft : ∀ c ∈ before, p c = true := fun c hc => h c (by rw [hs]; simp [hc]) (hbefore c hc)
  have hright : ∀ c ∈ after, p c = true := fun c hc => h c (by rw [hs]; simp [hc]) (hafter c hc)
  calc trimBy p (trimBy q s)
      = trimBy p (before ++ (trimBy q s ++ after)) := by
        rw [trimBy_append_left hleft, trimBy_append_right _ hright]
    _ = trimBy p s := by rw [← List.append_assoc, ← hs]

theorem dropWhile_eq_self_iff_head? : s.dropWhile p = s ↔ ∀ c ∈ s.head?, p c = false := by
  cases s with
  | nil => simp
  | cons c cs => simp [List.dropWhile_eq_self_iff]

theorem trimBy_eq_self_iff : trimBy p s = s ↔ (∀ c ∈ s.head?, p c = false) ∧ ∀ c ∈ s.getLast?, p c = false := by
  have hback : s.rdropWhile p = s ↔ ∀ c ∈ s.getLast?, p c = false := by
    rw [List.rdropWhile, List.reverse_eq_iff, dropWhile_eq_self_iff_head?, List.head?_reverse]
  rw [← dropWhile_eq_self_iff_head?, ← hback, trimBy_eq_rdropWhile]
  constructor
  · intro h
    have hfront : s.dropWhile p = s := h ▸ dropWhile_trimBy (p := p) (s := s)
    exact ⟨hfront, by rwa [hfront] at h⟩
  · rintro ⟨hfront, hback⟩
    rw [hfront, hback]

theorem trimBy_append_eq_self (hs : trimBy p s = s) (ht : trimBy p t = t) : trimBy p (s ++ t) = s ++ t := by
  obtain ⟨hshead, hslast⟩ := trimBy_eq_self_iff.mp hs
  obtain ⟨hthead, htlast⟩ := trimBy_eq_self_iff.mp ht
  refine trimBy_eq_self_iff.mpr ⟨fun c hc => ?_, fun c hc => ?_⟩
  · rw [List.head?_append] at hc
    exact (Option.or_eq_some_iff.mp hc).elim (hshead c) fun h => hthead c h.2
  · rw [List.getLast?_append] at hc
    exact (Option.or_eq_some_iff.mp hc).elim (htlast c) fun h => hslast c h.2

end Ends

section Marks

variable (mark : Char) (s : Text)

theorem head_pieces : (pieces (· == mark) s).headD [] = s.takeWhile (· != mark) := by
  induction s with
  | nil => rfl
  | cons c cs ih =>
    obtain ⟨w, ws, hw⟩ := List.exists_cons_of_ne_nil (pieces_ne_nil (p := (· == mark)) cs)
    rw [hw] at ih
    by_cases hc : c = mark
    · simp [pieces, hc]
    · rw [pieces_cons_letter (p := (· == mark)) (beq_false_of_ne hc) hw, List.takeWhile_cons_of_pos (by simpa using hc),
        ← ih]
      rfl

theorem replace_char (new : Char) : replace [mark] [new] s = s.map fun c => if c = mark then new else c := by
  unfold replace
  induction s with
  | nil => rfl
  | cons c cs ih =>
    rw [replaceFrom, List.map_cons]
    by_cases hc : c = mark
    · rw [if_pos (by simp [hc]), if_pos hc, ← ih]
      rfl
    · rw [if_neg (by simp [Ne.symm hc]), if_neg hc, ih]

end Marks

end Yuml.Text
