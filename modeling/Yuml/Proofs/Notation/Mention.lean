import Yuml.Notation.Grammar
import Yuml.Proofs.Mentions
import Yuml.Proofs.Notation.Background
import Yuml.Proofs.Notation.Token
import Yuml.Proofs.Xml.Character

namespace Yuml.Notation

open Xml

def firstMentions (ms : List Mention) : List Mention :=
  ms.eraseDupsBy fun m n => m.key == n.key

theorem firstMentions_concat (ms : List Mention) (m : Mention) :
    firstMentions (ms ++ [m]) =
      if m.key ∈ (firstMentions ms).map (·.key) then firstMentions ms else firstMentions ms ++ [m] := by
  have hknown : ((firstMentions ms).any fun n => m.key == n.key) = true ↔
      m.key ∈ (firstMentions ms).map (·.key) := by
    rw [List.any_eq_true, List.mem_map]
    exact exists_congr fun _ => and_congr_right fun _ => beq_iff_eq.trans eq_comm
  rw [firstMentions, List.eraseDupsBy_concat]
  exact if_congr hknown rfl rfl

theorem keys_firstMentions (ms : List Mention) :
    (firstMentions ms).map (·.key) = (ms.map (·.key)).eraseDups := by
  induction ms using List.reverseRecOn with
  | nil => rfl
  | append_singleton ms m ih =>
    rw [firstMentions_concat, ih, List.map_append, List.map_singleton]
    by_cases h : m.key ∈ ms.map (·.key)
    · rw [if_pos (List.mem_eraseDups.mpr h), List.eraseDups_concat_of_mem h, ih]
    · rw [if_neg (mt List.mem_eraseDups.mp h), List.eraseDups_concat_of_not_mem h, List.map_append, ih]
      rfl

theorem mem_keys_firstMentions {ms : List Mention} {m : Mention} (h : m ∈ ms) :
    m.key ∈ (firstMentions ms).map (·.key) := by
  rw [keys_firstMentions, List.mem_eraseDups]
  exact List.mem_map_of_mem h

theorem mem_of_mem_firstMentions {ms : List Mention} {m : Mention} (h : m ∈ firstMentions ms) : m ∈ ms := by
  induction ms using List.reverseRecOn with
  | nil => exact h
  | append_singleton ms n ih =>
    rw [firstMentions_concat] at h
    split at h
    · exact List.mem_append_left _ (ih h)
    · exact (List.mem_append.mp h).elim (fun hm => List.mem_append_left _ (ih hm)) (List.mem_append_right _)

theorem firstMentions_prefix (ms more : List Mention) : firstMentions ms <+: firstMentions (ms ++ more) := by
  induction more using List.reverseRecOn with
  | nil =>
    have hsame : firstMentions ms = firstMentions (ms ++ []) := by rw [List.append_nil]
    exact hsame ▸ List.prefix_rfl
  | append_singleton more m ih =>
    rw [← List.append_assoc, firstMentions_concat]
    split
    · exact ih
    · exact ih.trans (List.prefix_append _ _)

theorem isLegal_of_isWord {c : Char} (h : Text.isWord c = true) : isLegal c = true := by
  have hranges : ∀ r ∈ Text.wordRanges, 32 ≤ r.1 ∧ (r.2 < 0xFFFE ∨ 0x10000 ≤ r.1) := by decide +kernel
  unfold Text.isWord at h
  split at h
  · next hascii =>
    have hcontrol : ∀ n < 32, (Char.ofNat n).isAlphanum = false ∧ Char.ofNat n ≠ '_' := by decide
    have hbound : 32 ≤ c.toNat := by
      by_contra hlow
      obtain ⟨halphanum, hunderscore⟩ := hcontrol c.toNat (by omega)
      rw [Char.ofNat_toNat] at halphanum hunderscore
      rw [halphanum, Bool.false_or, beq_iff_eq] at h
      exact hunderscore h
    exact isLegal_of_bounds hbound (by omega)
  · obtain ⟨r, hr, hin⟩ := List.any_eq_true.mp h
    obtain ⟨hlow, hhigh⟩ := hranges r hr
    simp only [Bool.and_eq_true, decide_eq_true_eq] at hin
    simp only [isLegal, Bool.or_eq_true, Bool.and_eq_true, decide_eq_true_eq, ne_eq]
    omega

theorem legal_background {inside colour : Text} (h : background? inside = some colour) : Legal colour := by
  obtain ⟨_, _, _, _, -, -, -, hcolour⟩ := namesColour_of_background? h
  intro c hc
  rcases Bool.or_eq_true_iff.mp (hcolour c hc) with hword | hhash
  · exact isLegal_of_isWord hword
  · rw [beq_iff_eq.mp hhash]
    decide

theorem background_ne_nil {inside colour : Text} (h : background? inside = some colour) : colour ≠ [] := by
  obtain ⟨_, _, _, _, -, -, hne, -⟩ := namesColour_of_background? h
  exact hne

theorem background_of_splitStyle {s colour : Text} (h : (splitStyle s).2 = some colour) :
    ∃ inside, background? inside = some colour := by
  unfold splitStyle at h
  split at h
  · next before c hsuffix =>
    cases h
    obtain ⟨inside, _, -, -, hcolour, -⟩ := suffix?_eq_some_iff.mp hsuffix
    exact ⟨inside, hcolour⟩
  · cases h

theorem legal_splitStyle {s colour : Text} (h : (splitStyle s).2 = some colour) : Legal colour := by
  obtain ⟨inside, hinside⟩ := background_of_splitStyle h
  exact legal_background hinside

theorem fill_orNote (t : NodeToken) {read : Text → Option Text → Mention}
    (hread : ∀ text fill, (read text fill).fill = none ∨ (read text fill).fill = fill) :
    (Mention.orNote t read).fill = none ∨ (Mention.orNote t read).fill = (splitStyle t.text).2 := by
  unfold Mention.orNote
  dsimp only
  split
  · exact .inr rfl
  · exact hread _ _

theorem fill_startOrEnd (text : Text) (m : Mention) :
    ((Mention.startOrEnd? text).getD m).fill = none ∨ ((Mention.startOrEnd? text).getD m).fill = m.fill := by
  unfold Mention.startOrEnd?
  split
  · exact .inl rfl
  · split
    · exact .inl rfl
    · exact .inr rfl

theorem Grammar.fill_mention {k : DiagramKind} {g : Grammar} (hk : Grammar.ofKind? k = some g) (t : NodeToken) :
    (g.mention t).fill = none ∨ (g.mention t).fill = (splitStyle t.text).2 := by
  cases k with
  | classes =>
    cases hk
    exact fill_orNote t fun _ _ => .inr rfl
  | useCases =>
    cases hk
    refine fill_orNote t fun _ _ => ?_
    split
    · exact .inl rfl
    · exact .inr rfl
  | activity =>
    cases hk
    unfold activity Mention.ofActivity
    dsimp only
    split
    · exact .inr rfl
    · exact .inl rfl
    · exact fill_startOrEnd _ _
  | state =>
    cases hk
    exact fill_orNote t fun _ _ => fill_startOrEnd _ _
  | deployment =>
    cases hk
    refine fill_orNote t fun _ _ => ?_
    split
    · exact .inr rfl
    · exact .inr rfl
  | package =>
    cases hk
    exact fill_orNote t fun _ _ => .inr rfl
  | sequence => cases hk

theorem Grammar.legal_fill {k : DiagramKind} {g : Grammar} (hk : Grammar.ofKind? k = some g) (t : NodeToken) :
    ∀ c, (g.mention t).fill = some c → Legal c := by
  intro c h
  rcases g.fill_mention hk t with hnone | hfill
  · rw [hnone] at h
    cases h
  · exact legal_splitStyle (hfill ▸ h)

theorem Grammar.fill_ne_nil {k : DiagramKind} {g : Grammar} (hk : Grammar.ofKind? k = some g) (t : NodeToken) :
    (g.mention t).fill ≠ some [] := by
  intro h
  rcases g.fill_mention hk t with hnone | hfill
  · cases hnone.symm.trans h
  · obtain ⟨inside, hinside⟩ := background_of_splitStyle (hfill ▸ h)
    exact background_ne_nil hinside rfl

end Yuml.Notation
