import Mathlib.Data.List.Basic
import Yuml.Text.Basic

namespace Yuml.Text

theorem dropPrefix?_eq_some_iff {p s r : Text} : dropPrefix? p s = some r ↔ s = p ++ r := by
  induction p generalizing s with
  | nil => simp [dropPrefix?]
  | cons c p ih =>
    cases s with
    | nil => simp [dropPrefix?]
    | cons d s =>
      by_cases h : c = d
      · simp [dropPrefix?, h, ih]
      · simp [dropPrefix?, h, Ne.symm h]

theorem occursIn_iff {p s : Text} : occursIn p s = true ↔ p <:+: s := by
  induction s with
  | nil => rw [occursIn, List.isEmpty_iff, List.infix_nil]
  | cons c cs ih => rw [occursIn, Bool.or_eq_true, List.isPrefixOf_iff_prefix, ih, List.infix_cons_iff]

section Subset

variable {p s r : Text}

theorem dropPrefix?_subset (h : dropPrefix? p s = some r) : r ⊆ s := by
  obtain rfl := dropPrefix?_eq_some_iff.mp h
  exact List.subset_append_right p r

theorem dropSuffix?_subset (h : dropSuffix? p s = some r) : r ⊆ s := by
  obtain ⟨t, ht, rfl⟩ := Option.map_eq_some_iff.mp h
  exact fun c hc => List.mem_reverse.mp (dropPrefix?_subset ht (List.mem_reverse.mp hc))

theorem trimBy_subset (q : Char → Bool) (s : Text) : trimBy q s ⊆ s := by
  intro c hc
  have hback := (List.dropWhile_sublist q).subset (List.mem_reverse.mp hc)
  exact (List.dropWhile_sublist q).subset (List.mem_reverse.mp hback)

theorem pieces_subset {q : Char → Bool} {w : Text} (h : w ∈ pieces q s) : w ⊆ s := by
  induction s generalizing w with
  | nil =>
    rw [pieces, List.mem_singleton] at h
    exact h ▸ List.Subset.refl _
  | cons c cs ih =>
    have hrest {v : Text} (hv : v ∈ pieces q cs) : v ⊆ c :: cs :=
      List.Subset.trans (ih hv) (List.subset_cons_self c cs)
    rw [pieces] at h
    split at h
    · rcases List.mem_cons.mp h with rfl | h
      · exact List.nil_subset _
      · exact hrest h
    · split at h
      · rw [List.mem_singleton.mp h]
        exact List.cons_subset.mpr ⟨List.mem_cons_self, List.nil_subset _⟩
      · next v vs hpieces =>
        have hmem {u : Text} (hu : u ∈ v :: vs) : u ∈ pieces q cs := hpieces ▸ hu
        rcases List.mem_cons.mp h with rfl | h
        · exact List.cons_subset.mpr ⟨List.mem_cons_self, hrest (hmem List.mem_cons_self)⟩
        · exact hrest (hmem (List.mem_cons_of_mem _ h))

theorem replaceFrom_subset (old new : Text) (skip : Nat) (s : Text) : replaceFrom old new skip s ⊆ s ++ new := by
  induction s generalizing skip with
  | nil =>
    rw [replaceFrom]
    exact List.nil_subset _
  | cons c cs ih =>
    have hrest (n : Nat) : replaceFrom old new n cs ⊆ c :: cs ++ new := fun d hd => List.mem_cons_of_mem c (ih n hd)
    cases skip with
    | succ n =>
      rw [replaceFrom]
      exact hrest n
    | zero =>
      rw [replaceFrom]
      split
      · exact List.append_subset.mpr ⟨List.subset_append_right _ _, hrest _⟩
      · exact List.cons_subset.mpr ⟨List.mem_cons_self, hrest 0⟩

theorem breakOn_subset (sep s : Text) :
    (breakOn sep s).1 ⊆ s ∧ ∀ r ∈ (breakOn sep s).2, r ⊆ s := by
  induction s with
  | nil => exact ⟨List.nil_subset _, fun r hr => dropPrefix?_subset hr⟩
  | cons c cs ih =>
    rw [breakOn]
    split
    · next rest hrest =>
      refine ⟨List.nil_subset _, ?_⟩
      rintro r ⟨⟩
      exact dropPrefix?_subset hrest
    · refine ⟨List.cons_subset.mpr ⟨List.mem_cons_self, fun d hd => List.mem_cons_of_mem c (ih.1 hd)⟩, fun r hr d hd => ?_⟩
      exact List.mem_cons_of_mem c (ih.2 r hr hd)

end Subset

def NoReturn (s : Text) : Prop :=
  '\r' ∉ s

instance : DecidablePred NoReturn :=
  fun s => inferInstanceAs (Decidable ('\r' ∉ s))

namespace NoReturn

variable {s t : Text}

theorem of_subset (h : NoReturn s) (hsub : t ⊆ s) : NoReturn t :=
  fun hmem => h (hsub hmem)

theorem append (hs : NoReturn s) (ht : NoReturn t) : NoReturn (s ++ t) :=
  fun hmem => (List.mem_append.mp hmem).elim hs ht

theorem trimBy (h : NoReturn s) (q : Char → Bool) : NoReturn (trimBy q s) :=
  h.of_subset (trimBy_subset q s)

theorem trim (h : NoReturn s) : NoReturn (trim s) :=
  h.trimBy isBlank

theorem replace (h : NoReturn s) (old : Text) {new : Text} (hnew : NoReturn new) : NoReturn (replace old new s) :=
  (h.append hnew).of_subset (replaceFrom_subset old new 0 s)

theorem nonEmpty? (h : NoReturn s) : ∀ t ∈ nonEmpty? s, NoReturn t := by
  intro t ht
  unfold Text.nonEmpty? at ht
  split at ht
  · cases ht
  · cases ht
    exact h

end NoReturn

end Yuml.Text
