import Yuml.Proofs.Text.Basic

namespace Yuml.Text

section Affixes

variable {p q r s : Text}

theorem dropPrefix?_eq_none_iff : dropPrefix? p s = none ↔ ¬ p <+: s := by
  rw [Option.eq_none_iff_forall_ne_some]
  refine ⟨fun h ⟨r, hr⟩ => h r (dropPrefix?_eq_some_iff.mpr hr.symm), fun h r hr => ?_⟩
  exact h ⟨r, (dropPrefix?_eq_some_iff.mp hr).symm⟩

theorem dropSuffix?_eq_some_iff : dropSuffix? q s = some r ↔ s = r ++ q := by
  rw [dropSuffix?, Option.map_eq_some_iff]
  constructor
  · rintro ⟨t, ht, rfl⟩
    rw [← List.reverse_reverse s, dropPrefix?_eq_some_iff.mp ht, List.reverse_append, List.reverse_reverse]
  · rintro rfl
    exact ⟨r.reverse, dropPrefix?_eq_some_iff.mpr List.reverse_append, List.reverse_reverse r⟩

theorem dropSuffix?_eq_none_iff : dropSuffix? q s = none ↔ ¬ q <:+ s := by
  rw [dropSuffix?, Option.map_eq_none_iff, dropPrefix?_eq_none_iff, List.reverse_prefix]

end Affixes

section Occurrences

variable {mark : Char} {before old sep s : Text}

theorem infix_append_iff (h : mark ∉ before) (s : Text) : (mark :: old) <:+: before ++ s ↔ (mark :: old) <:+: s := by
  induction before with
  | nil => exact Iff.rfl
  | cons c before ih =>
    obtain ⟨hc, hbefore⟩ := not_or.mp (mt List.mem_cons.mpr h)
    have hfails : ¬ (mark :: old) <+: c :: (before ++ s) := fun hprefix => hc (List.cons_prefix_cons.mp hprefix).1
    rw [List.cons_append, List.infix_cons_iff, ih hbefore]
    exact or_iff_right hfails

theorem not_prefix_append (lead : Text) (hlead : mark ∉ lead) (hbefore : mark ∉ before) (hne : before ≠ [])
    (more rest : Text) : ¬ (lead ++ mark :: more) <+: before ++ (lead ++ mark :: rest) := by
  rintro ⟨after, hafter⟩
  have hfirst {u : Text} (hu : mark ∉ u) (v : Text) : (u ++ mark :: v).takeWhile (· != mark) = u := by
    rw [List.takeWhile_append_of_pos fun c hc => bne_iff_ne.mpr (ne_of_mem_of_not_mem hc hu),
      List.takeWhile_cons_of_neg (by simp), List.append_nil]
  have hboth := congrArg (List.takeWhile (· != mark)) hafter
  rw [List.append_assoc, List.cons_append, hfirst hlead, ← List.append_assoc,
    hfirst (mt List.mem_append.mp (not_or.mpr ⟨hbefore, hlead⟩))] at hboth
  exact hne (List.self_eq_append_left.mp hboth)

theorem breakOn_append (h : mark ∉ before) (sep after : Text) :
    breakOn (mark :: sep) (before ++ (mark :: sep ++ after)) = (before, some after) := by
  induction before with
  | nil =>
    have hfound : dropPrefix? (mark :: sep) (mark :: (sep ++ after)) = some after := dropPrefix?_eq_some_iff.mpr rfl
    rw [List.nil_append, List.cons_append, breakOn, hfound]
  | cons c before ih =>
    have hfails : dropPrefix? (mark :: sep) (c :: (before ++ (mark :: sep ++ after))) = none :=
      dropPrefix?_eq_none_iff.mpr (not_prefix_append [] List.not_mem_nil h (List.cons_ne_nil c before) sep _)
    rw [List.cons_append, breakOn, hfails, ih fun hmem => h (List.mem_cons_of_mem c hmem)]

theorem replace_eq_self (h : ¬ old <:+: s) (new : Text) : replace old new s = s := by
  unfold replace
  induction s with
  | nil => rfl
  | cons c cs ih =>
    obtain ⟨hhere, hlater⟩ := not_or.mp (mt List.infix_cons_iff.mpr h)
    rw [replaceFrom, if_neg (mt List.isPrefixOf_iff_prefix.mp hhere), ih hlater]

theorem replaceFrom_append (old new s t : Text) : replaceFrom old new s.length (s ++ t) = replace old new t := by
  induction s with
  | nil => rfl
  | cons c cs ih => exact ih

theorem replace_append {lead : Text} (hlead : mark ∉ lead) (hbefore : mark ∉ before) (more new after : Text) :
    replace (lead ++ mark :: more) new (before ++ (lead ++ mark :: more ++ after)) =
      before ++ (new ++ replace (lead ++ mark :: more) new after) := by
  induction before with
  | nil =>
    obtain ⟨c, cs, hold⟩ := List.exists_cons_of_ne_nil (l := lead ++ mark :: more) (by simp)
    have hfound : (c :: cs).isPrefixOf (c :: (cs ++ after)) = true :=
      List.isPrefixOf_iff_prefix.mpr (List.prefix_append (c :: cs) after)
    rw [hold, List.nil_append, List.cons_append, replace, replaceFrom, if_pos hfound, List.length_cons,
      Nat.add_sub_cancel, replaceFrom_append, List.nil_append]
  | cons c before ih =>
    have hfails : ¬ (lead ++ mark :: more) <+: c :: (before ++ (lead ++ mark :: more ++ after)) := by
      rw [List.append_assoc lead]
      exact not_prefix_append lead hlead hbefore (List.cons_ne_nil c before) more _
    rw [List.cons_append, replace, replaceFrom, if_neg (mt List.isPrefixOf_iff_prefix.mp hfails), List.cons_append]
    exact congrArg (c :: ·) (ih fun hmem => hbefore (List.mem_cons_of_mem c hmem))

end Occurrences

end Yuml.Text
