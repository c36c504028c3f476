import Yuml.Proofs.Notation.Association

namespace Yuml.Notation

def tip (mark : Char) (shown : Bool) : Text :=
  if shown then [mark] else []

def bracketed (inside : Text) : Text :=
  '[' :: inside ++ [']']

structure LabelledLine where
  tailTip : Bool
  label : Text
  style : LineStyle
  headTip : Bool

namespace LabelledLine

def print (l : LabelledLine) : Text :=
  tip '<' l.tailTip ++ (l.label ++ l.style.stroke ++ tip '>' l.headTip)

structure Readable (l : LabelledLine) : Prop where
  trimmed : Text.trim l.label = l.label
  undashed : '-' ∉ l.label
  untipped : l.label.head? ≠ some '<'
  unbracketed : ∀ inside, l.label ≠ bracketed inside

def LosesDot (l : LabelledLine) : Prop :=
  l.style = .solid ∧ l.label.getLast? = some '.'

instance (l : LabelledLine) : Decidable l.LosesDot :=
  inferInstanceAs (Decidable (_ ∧ _))

end LabelledLine

section Tips

variable {mark : Char} {s : Text}

theorem trim_tip (h : Text.isBlank mark = false) (shown : Bool) : Text.trim (tip mark shown) = tip mark shown := by
  apply Text.trimBy_eq_self_iff.mpr
  cases shown with
  | false => exact ⟨nofun, nofun⟩
  | true => simp [tip, h]

theorem takePrefix_tip (h : s.head? ≠ some mark) (shown : Bool) : takePrefix [mark] (tip mark shown ++ s) = (shown, s) := by
  unfold takePrefix
  cases shown with
  | true => simp [tip, Text.dropPrefix?]
  | false =>
    have hnone : Text.dropPrefix? [mark] s = none := by
      apply Text.dropPrefix?_eq_none_iff.mpr
      rintro ⟨r, rfl⟩
      exact h rfl
    simp [tip, hnone]

theorem takeSuffix_tip (h : s.getLast? ≠ some mark) (shown : Bool) : takeSuffix [mark] (s ++ tip mark shown) = (shown, s) := by
  unfold takeSuffix
  cases shown with
  | true => simp [tip, Text.dropSuffix?_eq_some_iff.mpr rfl]
  | false =>
    have hnone : Text.dropSuffix? [mark] s = none := by
      apply Text.dropSuffix?_eq_none_iff.mpr
      rintro ⟨r, rfl⟩
      exact h List.getLast?_concat
    simp [tip, hnone]

end Tips

section Brackets

theorem ne_bracketed {s : Text} (h : s.getLast? ≠ some ']') (inside : Text) : s ≠ bracketed inside := by
  rintro rfl
  exact h List.getLast?_concat

theorem unbracket_bracketed (inside : Text) : unbracket (bracketed inside) = Text.trim inside := by
  have htrim : Text.trim (bracketed inside) = bracketed inside := by
    apply Text.trimBy_eq_self_iff.mpr
    constructor
    · rintro c ⟨⟩
      decide
    · intro c hc
      rw [bracketed, List.getLast?_concat] at hc
      cases hc
      decide
  have hsuffix : Text.dropSuffix? [']'] (inside ++ [']']) = some inside := Text.dropSuffix?_eq_some_iff.mpr rfl
  unfold unbracket
  rw [htrim]
  simp [bracketed, Text.dropPrefix?, hsuffix]

theorem unbracket_eq_self {s : Text} (htrim : Text.trim s = s) (h : ∀ inside, s ≠ bracketed inside) : unbracket s = s := by
  unfold unbracket
  rw [htrim]
  dsimp only
  split
  · rfl
  · next rest hrest =>
    split
    · rfl
    · next inside hinside =>
      have hs : s = bracketed inside := by
        rw [Text.dropPrefix?_eq_some_iff.mp hrest, Text.dropSuffix?_eq_some_iff.mp hinside]
        rfl
      exact absurd hs (h inside)

theorem unbracket_trim (s : Text) : unbracket (Text.trim s) = unbracket s := by
  unfold unbracket
  rw [Text.trim_trim]

end Brackets

section Strokes

variable {s : Text}

theorem stripDashes_append {t : Text} (ht : ∀ c ∈ t, c = '-' ∨ c = ' ') (s : Text) : stripDashes (s ++ t) = stripDashes s := by
  apply Text.trimBy_append_right
  intro c hc
  simpa using ht c hc

theorem stripDashes_dash (s : Text) : stripDashes (s ++ ['-']) = stripDashes s := by
  apply stripDashes_append
  simp

theorem stripDashes_eq_self (htrim : Text.trim s = s) (hfront : s.head? ≠ some '-') (hback : s.getLast? ≠ some '-') :
    stripDashes s = s := by
  obtain ⟨hfirst, hlast⟩ := Text.trimBy_eq_self_iff.mp htrim
  have hkept {c : Char} (hblank : Text.isBlank c = false) (hdash : c ≠ '-') : (c == '-' || c == ' ') = false := by
    have hspace : c ≠ ' ' := by
      rintro rfl
      contradiction
    simp [hdash, hspace]
  apply Text.trimBy_eq_self_iff.mpr
  constructor
  · intro c hc
    apply hkept (hfirst c hc)
    rintro rfl
    exact hfront hc
  · intro c hc
    apply hkept (hlast c hc)
    rintro rfl
    exact hback hc

theorem trim_stripDashes (h : '-' ∉ s) : Text.trim (stripDashes s) = Text.trim s := by
  apply Text.trimBy_trimBy_of_imp
  intro c hc hstripped
  have hspace : c = ' ' := by
    have hor : c = '-' ∨ c = ' ' := by simpa using hstripped
    exact hor.resolve_left (ne_of_mem_of_not_mem hc h)
  rw [hspace]
  decide

theorem dot_dash_infix_iff (h : '-' ∉ s) : ".-".toList <:+: s ++ ['-'] ↔ s.getLast? = some '.' := by
  have hback : '-' ∉ s.reverse := mt List.mem_reverse.mp h
  have hlater : ¬ "-.".toList <:+: s.reverse := fun hmet => hback (hmet.subset (by decide))
  rw [← List.reverse_infix, List.reverse_append, List.reverse_singleton, List.singleton_append, ← List.head?_reverse]
  change "-.".toList <:+: '-' :: s.reverse ↔ _
  rw [List.infix_cons_iff, or_iff_left hlater]
  cases s.reverse with
  | nil => decide
  | cons c cs => simp [List.cons_prefix_cons, eq_comm]

theorem not_dash_dot_infix_append (h : '-' ∉ s) : ¬ "-.".toList <:+: s ++ ['-'] := by
  apply mt (Text.infix_append_iff h ['-']).mp
  decide

theorem undotted_dashed (h : '-' ∉ s) : undotted (s ++ LineStyle.dashed.stroke) = s ++ [' '] := by
  have hspaced : '-' ∉ s ++ [' '] := by simp [h]
  have hsplit : Text.replace "-.-" " " (s ++ "-.-".toList) = s ++ [' '] :=
    Text.replace_append (List.not_mem_nil) h ['.', '-'] [' '] []
  have hstart : ¬ "-.".toList <:+: s ++ [' '] := fun hmet => hspaced (hmet.subset (by decide))
  have hstop : ¬ ".-".toList <:+: s ++ [' '] := fun hmet => hspaced (hmet.subset (by decide))
  unfold undotted
  simp only [LineStyle.stroke, hsplit]
  rw [Text.replace_eq_self hstart, Text.replace_eq_self hstop]

theorem undotted_solid (h : '-' ∉ s) :
    undotted (s ++ LineStyle.solid.stroke) = Text.replace ".-" " " (s ++ LineStyle.solid.stroke) := by
  have hdash : ¬ "-.".toList <:+: s ++ LineStyle.solid.stroke := not_dash_dot_infix_append h
  have hwhole : ¬ "-.-".toList <:+: s ++ LineStyle.solid.stroke :=
    fun hmet => hdash ((List.prefix_append ['-', '.'] ['-']).isInfix.trans hmet)
  unfold undotted
  rw [Text.replace_eq_self hwhole, Text.replace_eq_self hdash]

theorem stripDashes_undotted_dot (h : '-' ∉ s) :
    stripDashes (undotted (s ++ ['.'] ++ LineStyle.solid.stroke)) = stripDashes s := by
  have hundashed : '-' ∉ s ++ ['.'] := by simp [h]
  have hread : Text.replace ".-" " " (s ++ ".-".toList) = s ++ [' '] :=
    Text.replace_append (show '-' ∉ ['.'] by decide) h [] [' '] []
  rw [undotted_solid hundashed, List.append_assoc]
  change stripDashes (Text.replace ".-" " " (s ++ ".-".toList)) = _
  rw [hread]
  apply stripDashes_append
  simp

theorem stripDashes_undotted_stroke (h : '-' ∉ s) (style : LineStyle) (hend : style = .solid → s.getLast? ≠ some '.') :
    stripDashes (undotted (s ++ style.stroke)) = stripDashes s := by
  cases style with
  | dashed =>
    rw [undotted_dashed h]
    apply stripDashes_append
    simp
  | solid =>
    have hplain : ¬ ".-".toList <:+: s ++ LineStyle.solid.stroke := mt (dot_dash_infix_iff h).mp (hend rfl)
    rw [undotted_solid h, Text.replace_eq_self hplain]
    exact stripDashes_dash s

end Strokes

namespace LabelledLine

variable {l : LabelledLine}

theorem isDashed_body (h : '-' ∉ l.label) :
    (Text.occursIn ".-" (l.label ++ l.style.stroke) || Text.occursIn "-." (l.label ++ l.style.stroke)) = true ↔
      l.style = .dashed ∨ l.LosesDot := by
  rw [Bool.or_eq_true, Text.occursIn_iff, Text.occursIn_iff]
  unfold LosesDot
  cases l.style with
  | solid =>
    apply (or_iff_left (not_dash_dot_infix_append h)).trans
    apply (dot_dash_infix_iff h).trans
    simp
  | dashed =>
    have hdash : "-.".toList <:+: l.label ++ LineStyle.dashed.stroke := ⟨l.label, ['-'], by simp [LineStyle.stroke]⟩
    exact iff_of_true (Or.inr hdash) (Or.inl rfl)

theorem label_body (h : l.Readable) :
    unbracket (Text.trim (stripDashes (undotted (l.label ++ l.style.stroke)))) =
      if l.LosesDot then unbracket l.label.dropLast else l.label := by
  by_cases hlost : l.LosesDot
  · obtain ⟨name, hname⟩ := List.getLast?_eq_some_iff.mp hlost.2
    have hundashed : '-' ∉ name := fun hmem => h.undashed (by simp [hname, hmem])
    rw [if_pos hlost, hlost.1, hname, stripDashes_undotted_dot hundashed, trim_stripDashes hundashed, unbracket_trim,
      List.dropLast_concat]
  · have hend (hsolid : l.style = .solid) : l.label.getLast? ≠ some '.' := fun hdot => hlost ⟨hsolid, hdot⟩
    rw [if_neg hlost, stripDashes_undotted_stroke h.undashed l.style hend, trim_stripDashes h.undashed, unbracket_trim,
      unbracket_eq_self h.trimmed h.unbracketed]

theorem trim_print (h : l.Readable) : Text.trim l.print = l.print := by
  have hhead : Text.trim (tip '>' l.headTip) = tip '>' l.headTip := trim_tip (by decide) _
  have htail : Text.trim (tip '<' l.tailTip) = tip '<' l.tailTip := trim_tip (by decide) _
  have hbody := Text.trimBy_append_eq_self h.trimmed (trim_stroke l.style)
  exact Text.trimBy_append_eq_self htail (Text.trimBy_append_eq_self hbody hhead)

theorem takeTips_print (h : l.Readable) :
    takePrefix "<" l.print = (l.tailTip, l.label ++ l.style.stroke ++ tip '>' l.headTip) ∧
      takeSuffix ">" (l.label ++ l.style.stroke ++ tip '>' l.headTip) = (l.headTip, l.label ++ l.style.stroke) := by
  have hfirst : (l.label ++ l.style.stroke ++ tip '>' l.headTip).head? ≠ some '<' := by
    rw [List.append_assoc, List.head?_append, head?_stroke]
    have huntipped := h.untipped
    cases hhead : l.label.head? with
    | none => decide
    | some c => simpa [hhead] using huntipped
  have hlast : (l.label ++ l.style.stroke).getLast? ≠ some '>' := by
    rw [List.getLast?_append, getLast?_stroke]
    simp
  exact ⟨takePrefix_tip hfirst l.tailTip, takeSuffix_tip hlast l.headTip⟩

end LabelledLine

theorem line_print (l : LabelledLine) (h : l.Readable) :
    Connector.line (some l.print) =
      { style := if l.LosesDot then .dashed else l.style
        headArrow := if l.headTip then .vee else .none
        tailArrow := if l.tailTip then .vee else .none
        label := Text.nonEmpty? (if l.LosesDot then unbracket l.label.dropLast else l.label) } := by
  obtain ⟨htail, hhead⟩ := LabelledLine.takeTips_print h
  have hstyle : (if (Text.occursIn ".-" (l.label ++ l.style.stroke) || Text.occursIn "-." (l.label ++ l.style.stroke))
      then LineStyle.dashed else .solid) = if l.LosesDot then .dashed else l.style := by
    rw [if_congr (LabelledLine.isDashed_body h.undashed) rfl rfl]
    by_cases hlost : l.LosesDot
    · simp [hlost]
    · cases hstyle : l.style <;> simp [hlost]
  have hlabel := LabelledLine.label_body h
  rw [Connector.line_eq, Option.getD_some, Connector.ofLine, LabelledLine.trim_print h, htail]
  simp only [hhead, hstyle, hlabel]

theorem line_print_dotted :
    let l : LabelledLine := ⟨true, "[a] v1.2.", .dashed, true⟩
    l.Readable ∧ l.print = "<[a] v1.2.-.->".toList ∧
      Connector.line (some l.print) = ⟨.dashed, .vee, .vee, some "[a] v1.2.".toList, none, none⟩ := by
  intro l
  have h : l.Readable := by
    constructor
    case trimmed | undashed | untipped => decide +kernel
    case unbracketed => exact ne_bracketed (by decide +kernel)
  exact ⟨h, by decide +kernel, line_print l h⟩

theorem line_loses_dot :
    let l : LabelledLine := ⟨false, "Uses v1.", .solid, true⟩
    l.Readable ∧ l.print = "Uses v1.->".toList ∧
      Connector.line (some l.print) = ⟨.dashed, .vee, .none, some "Uses v1".toList, none, none⟩ ∧
      Connector.line (some l.print) ≠ ⟨.solid, .vee, .none, some "Uses v1.".toList, none, none⟩ := by
  intro l
  have h : l.Readable := by
    constructor
    case trimmed | undashed | untipped => decide +kernel
    case unbracketed => exact ne_bracketed (by decide +kernel)
  have hread : Connector.line (some l.print) = ⟨.dashed, .vee, .none, some "Uses v1".toList, none, none⟩ := by
    decide +kernel
  have hother : Connector.line (some l.print) ≠ ⟨.solid, .vee, .none, some "Uses v1.".toList, none, none⟩ := by
    decide +kernel
  exact ⟨h, by decide +kernel, hread, hother⟩

theorem transition_print {label : Text} (htrim : Text.trim label = label) (hne : label ≠ [])
    (hfront : label.head? ≠ some '-') (hback : label.getLast? ≠ some '-') :
    (∀ inside, label = bracketed inside →
      Connector.transition (some (label ++ "->")) = { headArrow := .vee, label := Text.nonEmpty? (Text.trim inside) }) ∧
    ((∀ inside, label ≠ bracketed inside) →
      Connector.transition (some (label ++ "->")) = { headArrow := .vee, label := some label }) := by
  have hread : Connector.transition (some (label ++ "->")) =
      { headArrow := .vee, label := Text.nonEmpty? (unbracket label) } := by
    have harrow : Text.trim (label ++ "->") = label ++ "->" := Text.trimBy_append_eq_self htrim (by decide +kernel)
    have hhead : takeSuffix ">" (label ++ "->") = (true, label ++ ['-']) := by
      have hlast : (label ++ ['-']).getLast? ≠ some '>' := by simp
      rw [← takeSuffix_tip hlast true]
      simp [tip]
    rw [Connector.transition_eq, Option.getD_some, Connector.ofTransition, harrow, hhead]
    simp only [stripDashes_dash, stripDashes_eq_self htrim hfront hback, unbracket_trim]
  constructor
  · rintro inside rfl
    rw [hread, unbracket_bracketed]
  · intro hnot
    have hgiven : Text.nonEmpty? label = some label := if_neg (by simpa using hne)
    rw [hread, unbracket_eq_self htrim hnot, hgiven]

theorem transition_print_guard :
    let label : Text := "[ n [0] ]"
    Text.trim label = label ∧ label ≠ [] ∧ label.head? ≠ some '-' ∧ label.getLast? ≠ some '-' ∧
      label = bracketed " n [0] " ∧
      Connector.transition (some (label ++ "->")) = { headArrow := .vee, label := some "n [0]".toList } := by
  intro label
  have htrim : Text.trim label = label := by decide +kernel
  have hne : label ≠ [] := by decide +kernel
  have hfront : label.head? ≠ some '-' := by decide +kernel
  have hback : label.getLast? ≠ some '-' := by decide +kernel
  have hgroup : label = bracketed " n [0] " := by decide +kernel
  exact ⟨htrim, hne, hfront, hback, hgroup, (transition_print htrim hne hfront hback).1 _ hgroup⟩

theorem transition_unpairs_brackets :
    let label : Text := "[x] or [y]"
    Text.trim label = label ∧ label ≠ [] ∧ label.head? ≠ some '-' ∧ label.getLast? ≠ some '-' ∧
      (∀ inside, label = bracketed inside → '[' ∈ inside) ∧
      Connector.transition (some (label ++ "->")) = { headArrow := .vee, label := some "x] or [y".toList } ∧
      Connector.transition (some (label ++ "->")) ≠ { headArrow := .vee, label := some label } := by
  intro label
  have hgroups (inside : Text) (h : label = bracketed inside) : '[' ∈ inside := by
    have hinside := congrArg (fun s => s.tail.dropLast) h
    rw [bracketed, List.cons_append, List.tail_cons, List.dropLast_concat] at hinside
    rw [← hinside]
    decide +kernel
  have hread : Connector.transition (some (label ++ "->")) = { headArrow := .vee, label := some "x] or [y".toList } := by
    decide +kernel
  have hother : Connector.transition (some (label ++ "->")) ≠ { headArrow := .vee, label := some label } := by
    decide +kernel
  exact ⟨by decide +kernel, by decide +kernel, by decide +kernel, by decide +kernel, hgroups, hread, hother⟩

end Yuml.Notation
