import Yuml.Proofs.Text.Basic
import Yuml.Proofs.Xml.Content

namespace Yuml

namespace Text

theorem unifyLineEnds_cons {c : Char} (h : c ≠ '\r') (s : Text) :
    unifyLineEnds (c :: s) = c :: unifyLineEnds s := by
  rw [unifyLineEnds, if_neg h]
  exact fun _ heq _ => h heq

theorem unifyLineEnds_return {s : Text} (h : s.head? ≠ some '\n') :
    unifyLineEnds ('\r' :: s) = '\n' :: unifyLineEnds s := by
  rw [unifyLineEnds, if_pos rfl]
  rintro t - rfl
  exact h rfl

theorem unifyLineEnds_append {s : Text} (h : '\r' ∉ s) (t : Text) :
    unifyLineEnds (s ++ t) = s ++ unifyLineEnds t := by
  induction s with
  | nil => rfl
  | cons c cs ih =>
    obtain ⟨hc, hcs⟩ := not_or.mp (mt List.mem_cons.mpr h)
    rw [List.cons_append, unifyLineEnds_cons (Ne.symm hc), ih hcs, List.cons_append]

theorem unifyLineEnds_eq_self {s : Text} (h : NoReturn s) : unifyLineEnds s = s := by
  have hsame := unifyLineEnds_append h []
  rwa [List.append_nil, unifyLineEnds, List.append_nil] at hsame

end Text

namespace Xml

open Text

theorem return_not_mem_escapeChar {c : Char} (h : c ≠ '\r') : '\r' ∉ escapeChar c := by
  unfold escapeChar
  split_ifs
  · decide
  · decide
  · decide
  · simpa using Ne.symm h

theorem head?_escapeChar {c : Char} (h : c ≠ '\n') (t : Text) : (escapeChar c ++ t).head? ≠ some '\n' := by
  have hkept (d : Char) (hd : d ≠ '\n') (s : Text) : (d :: s).head? ≠ some '\n' := fun heq =>
    hd (Option.some.inj heq)
  unfold escapeChar
  split_ifs
  all_goals exact hkept _ (by first | decide | exact h) _

theorem head?_escape_append {s : Text} (h : s.head? ≠ some '\n') (t : Text) :
    (escape s ++ '<' :: t).head? ≠ some '\n' := by
  cases s with
  | nil => exact fun heq => absurd (Option.some.inj heq) (by decide)
  | cons c cs =>
    rw [escape, List.flatMap_cons, List.append_assoc]
    exact head?_escapeChar (fun heq => h (congrArg some heq)) _

theorem unifyLineEnds_escape (s t : Text) :
    unifyLineEnds (escape s ++ '<' :: t) = escape (unifyLineEnds s) ++ '<' :: unifyLineEnds t := by
  induction s using unifyLineEnds.induct with
  | case1 => exact unifyLineEnds_cons (by decide) t
  | case2 cs ih =>
    have hescape (cs : Text) : escape ('\n' :: cs) = '\n' :: escape cs := rfl
    have hpair : escape ('\r' :: '\n' :: cs) = '\r' :: '\n' :: escape cs := rfl
    rw [hpair, unifyLineEnds, hescape, List.cons_append, List.cons_append, unifyLineEnds, ih]
    rfl
  | case3 c cs hpair ih =>
    by_cases hreturn : c = '\r'
    · subst hreturn
      have hhead : cs.head? ≠ some '\n' := by
        intro heq
        obtain ⟨ds, rfl⟩ := List.head?_eq_some_iff.mp heq
        exact hpair ds rfl rfl
      have hescape : escape ('\r' :: cs) = '\r' :: escape cs := rfl
      rw [hescape, List.cons_append, unifyLineEnds_return (head?_escape_append hhead t), ih,
        unifyLineEnds_return hhead]
      rfl
    · have hescape (cs : Text) : escape (c :: cs) = escapeChar c ++ escape cs := List.flatMap_cons
      rw [hescape, List.append_assoc, unifyLineEnds_append (return_not_mem_escapeChar hreturn), ih,
        unifyLineEnds_cons hreturn, hescape, List.append_assoc]

def Verbatim (s : Text) : Prop :=
  ∀ c ∈ s, isLegal c = true ∧ c ≠ '\r'

theorem verbatim_of_all {s : Text} (h : (s.all fun c => isLegal c && c != '\r') = true) : Verbatim s := by
  intro c hc
  simpa using List.all_eq_true.mp h c hc

theorem Verbatim.append {s t : Text} (hs : Verbatim s) (ht : Verbatim t) : Verbatim (s ++ t) :=
  List.forall_mem_append.mpr ⟨hs, ht⟩

theorem isLegal_of_inRanges {ranges : List (Nat × Nat)}
    (hranges : ∀ r ∈ ranges, 32 ≤ r.1 ∧ r.2 < 0xFFFE) {c : Char} (h : inRanges ranges c = true) :
    32 ≤ c.toNat ∧ c.toNat < 0xFFFE := by
  obtain ⟨r, hr, hc⟩ := List.any_eq_true.mp h
  rw [Bool.and_eq_true, decide_eq_true_eq, decide_eq_true_eq] at hc
  have hbounds := hranges r hr
  omega

theorem verbatim_of_isNameChar {c : Char} (h : isNameChar c = true) : isLegal c = true ∧ c ≠ '\r' := by
  have hbounds : 32 ≤ c.toNat ∧ c.toNat < 0xFFFE := by
    unfold isNameChar at h
    split at h
    · next hc =>
      refine ⟨?_, by omega⟩
      by_contra hlow
      have hcontrol : ∀ n < 32, isNameChar (Char.ofNat n) = false := by decide
      have hnone := hcontrol c.toNat (by omega)
      rw [Char.ofNat_toNat, isNameChar, if_pos hc, h] at hnone
      cases hnone
    · rw [Bool.or_eq_true] at h
      rcases h with h | h
      · exact isLegal_of_inRanges (by decide +kernel) h
      · exact isLegal_of_inRanges (by decide +kernel) h
  refine ⟨isLegal_of_bounds hbounds.1 hbounds.2, ?_⟩
  rintro rfl
  exact absurd hbounds.1 (by decide)

theorem verbatim_name {name : Text} (h : isPlainName name = true) : Verbatim name := by
  cases name with
  | nil => cases h
  | cons c cs =>
    rw [isPlainName, Bool.and_eq_true, List.all_eq_true] at h
    refine List.forall_mem_cons.mpr ⟨verbatim_of_isNameChar (isNameChar_of_isNameStart h.1), ?_⟩
    exact fun d hd => verbatim_of_isNameChar (h.2 d hd)

theorem verbatim_escapeAttribute {s : Text} (h : Legal s) : Verbatim (escapeAttribute s) := by
  have hchar (c : Char) (hc : isLegal c = true) : Verbatim (escapeAttributeChar c) := by
    unfold escapeAttributeChar escapeChar
    by_cases hreturn : c = '\r'
    · subst hreturn
      exact verbatim_of_all (by decide)
    · split_ifs
      all_goals first | exact verbatim_of_all (by decide) | exact List.forall_mem_singleton.mpr ⟨hc, hreturn⟩
  intro d hd
  obtain ⟨c, hc, hd⟩ := List.mem_flatMap.mp hd
  exact hchar c (h c hc) d hd

theorem verbatim_writeAttributes {a : Attributes} (h : Attributes.WellFormed a) :
    Verbatim (writeAttributes a) := by
  intro c hc
  obtain ⟨p, hp, hc⟩ := List.mem_flatMap.mp hc
  have hname := verbatim_name (h.plain p hp)
  have hvalue := verbatim_escapeAttribute (h.legal p hp)
  have hspace : Verbatim [' '] := verbatim_of_all (by decide)
  have hquote : Verbatim ['"'] := verbatim_of_all (by decide)
  have hequals : Verbatim "=\"".toList := verbatim_of_all (by decide)
  exact ((((hspace.append hname).append hequals).append hvalue).append hquote) c hc

theorem noReturn_name {name : Text} (h : IsNameRead name) : NoReturn name := by
  have hrun {w : Text} (hw : IsRun w) : NoReturn w := fun hmem => (verbatim_of_isNameChar (hw.2 _ hmem)).2 rfl
  cases h with
  | run h => exact hrun h
  | prefixed hp h =>
    refine (hrun (isRun_of_isPlainName hp)).append fun hmem => ?_
    exact hrun h ((List.mem_cons.mp hmem).resolve_left (by decide))

theorem noReturn_escapeAttribute (s : Text) : NoReturn (escapeAttribute s) := by
  intro hmem
  obtain ⟨c, -, hc⟩ := List.mem_flatMap.mp hmem
  unfold escapeAttributeChar escapeChar at hc
  split_ifs at hc with hquote hreturn <;> revert hc
  on_goal 8 => exact fun hc => hreturn (List.mem_singleton.mp hc).symm
  all_goals decide

theorem noReturn_writeAttributes {a : Attributes} (h : ∀ p ∈ a, IsNameRead p.1) : NoReturn (writeAttributes a) := by
  intro hmem
  obtain ⟨p, hp, hc⟩ := List.mem_flatMap.mp hmem
  have hname := noReturn_name (h p hp)
  have hvalue := noReturn_escapeAttribute p.2
  simp only [List.mem_append, List.mem_cons, List.not_mem_nil, or_false] at hc
  rcases hc with (((hc | hc) | hc) | hc) | hc
  · exact absurd hc (by decide)
  · exact hname hc
  · exact absurd hc (by decide)
  · exact hvalue hc
  · exact absurd hc (by decide)

namespace Item

mutual

def unified : Markup → Markup
  | text s => text (unifyLineEnds s)
  | element name attributes children => element name attributes (unifiedAll children)

def unifiedAll : List Markup → List Markup
  | [] => []
  | i :: is => unified i :: unifiedAll is

end

theorem unifiedAll_eq_self {is : List Markup} (h : ∀ i ∈ is, unified i = i) : unifiedAll is = is := by
  induction is with
  | nil => rw [unifiedAll]
  | cons i is ih =>
    obtain ⟨hi, his⟩ := List.forall_mem_cons.mp h
    rw [unifiedAll, hi, ih his]

theorem isElement_unified (i : Markup) : (unified i).isElement = i.isElement := by
  cases i <;> rfl

theorem unifyLineEnds_ne_nil {s : Text} (h : s ≠ []) : unifyLineEnds s ≠ [] := by
  unfold unifyLineEnds
  split
  · exact absurd rfl h
  · exact List.cons_ne_nil _ _
  · exact List.cons_ne_nil _ _

theorem legal_unifyLineEnds {s : Text} (h : Legal s) : Legal (unifyLineEnds s) := by
  induction s using unifyLineEnds.induct with
  | case1 => exact h
  | case2 cs ih =>
    rw [unifyLineEnds]
    exact List.forall_mem_cons.mpr ⟨rfl, ih fun c hc => h c (by simp [hc])⟩
  | case3 c cs hpair ih =>
    have hunify : unifyLineEnds (c :: cs) = (if c = '\r' then '\n' else c) :: unifyLineEnds cs := by
      rw [unifyLineEnds]
      exact hpair
    rw [hunify]
    refine List.forall_mem_cons.mpr ⟨?_, ih fun d hd => h d (List.mem_cons_of_mem _ hd)⟩
    split
    · rfl
    · exact h c List.mem_cons_self

mutual

theorem wellFormed_unified : ∀ i : Markup, WellFormed i → WellFormed (unified i)
  | .text s, ⟨hne, hlegal⟩ => by
    rw [unified]
    exact ⟨unifyLineEnds_ne_nil hne, legal_unifyLineEnds hlegal⟩
  | .element name attributes children, ⟨hname, hattributes, hchildren⟩ => by
    rw [unified]
    exact ⟨hname, hattributes, allWellFormed_unifiedAll children hchildren⟩

theorem allWellFormed_unifiedAll : ∀ is : List Markup, AllWellFormed is → AllWellFormed (unifiedAll is)
  | [], _ => by
    rw [unifiedAll]
    trivial
  | i :: is, ⟨hi, hbeside, his⟩ => by
    rw [unifiedAll]
    refine ⟨wellFormed_unified i hi, ?_, allWellFormed_unifiedAll is his⟩
    rw [isElement_unified]
    refine hbeside.imp_right fun hhead => ?_
    cases is with
    | nil => exact fun _ hj => nomatch hj
    | cons j js =>
      rw [unifiedAll]
      rintro k ⟨⟩
      rw [isElement_unified]
      exact hhead j rfl

end

mutual

theorem unifyLineEnds_write : ∀ (i : Markup) (rest : Text), TagsNamed IsNameRead i.startTags → i.outline.Spaced →
    (i.isElement = true ∨ ∃ s, rest = '<' :: s) →
    unifyLineEnds (write i ++ rest) = write (unified i) ++ unifyLineEnds rest
  | .text s, rest, _, _, hrest => by
    obtain ⟨t, rfl⟩ : ∃ t, rest = '<' :: t := hrest.resolve_left fun h => nomatch h
    rw [write, unifyLineEnds_escape, unified, write, unifyLineEnds_cons (by decide)]
  | .element name attributes children, rest, hnamed, hspaced, _ => by
    rw [startTags] at hnamed
    rw [outline] at hspaced
    obtain ⟨⟨hname, hattributes⟩, hchildren⟩ := List.forall_mem_cons.mp hnamed
    have hstart := noReturn_name hname
    have hhead := noReturn_writeAttributes hattributes
    rw [unified]
    cases children with
    | nil =>
      rw [unifiedAll, write_empty, write_empty, unifyLineEnds_cons (by decide), unifyLineEnds_append hstart,
        unifyLineEnds_append hhead, unifyLineEnds_cons (by decide), unifyLineEnds_cons (by decide),
        unifyLineEnds_cons (by decide)]
    | cons i is =>
      have hinside := unifyLineEnds_writeAll (i :: is) ('/' :: (name ++ '>' :: rest)) hchildren hspaced
      rw [unifiedAll] at hinside ⊢
      rw [write_open, write_open, unifyLineEnds_cons (by decide), unifyLineEnds_append hstart,
        unifyLineEnds_append hhead, unifyLineEnds_cons (by decide), hinside, unifyLineEnds_cons (by decide),
        unifyLineEnds_append hstart, unifyLineEnds_cons (by decide)]

theorem unifyLineEnds_writeAll : ∀ (is : List Markup) (s : Text), TagsNamed IsNameRead (startTagsAll is) →
    Outline.AllSpaced (outlineAll is) →
    unifyLineEnds (writeAll is ++ '<' :: s) = writeAll (unifiedAll is) ++ '<' :: unifyLineEnds s
  | [], s, _, _ => by
    rw [unifiedAll, writeAll, List.nil_append, unifyLineEnds_cons (by decide)]
    rfl
  | i :: is, s, hnamed, hspaced => by
    rw [startTagsAll] at hnamed
    obtain ⟨hi, his⟩ := List.forall_mem_append.mp hnamed
    obtain ⟨hfirst, hbeside, hrest⟩ := allSpaced_outlineAll_cons.mp hspaced
    rw [writeAll, List.append_assoc, unifyLineEnds_write i (writeAll is ++ '<' :: s) hi hfirst
      (hbeside.imp_right fun hhead => exists_writeAll_eq hhead s), unifyLineEnds_writeAll is s his hrest, unifiedAll,
      writeAll, List.append_assoc]

end

theorem legal_escape {s : Text} (h : Legal s) : Legal (escape s) := by
  have hchar (c : Char) (hc : isLegal c = true) : Legal (escapeChar c) := by
    unfold escapeChar
    split_ifs
    all_goals first | exact legal_of_all (by decide) | exact List.forall_mem_singleton.mpr hc
  intro d hd
  obtain ⟨c, hc, hd⟩ := List.mem_flatMap.mp hd
  exact hchar c (h c hc) d hd

mutual

theorem legal_write : ∀ i : Markup, WellFormed i → Legal (write i)
  | .text s, ⟨_, hlegal⟩ => by
    rw [write]
    exact legal_escape hlegal
  | .element name attributes children, ⟨hname, hattributes, hchildren⟩ => by
    have hstart : Legal name := fun c hc => (verbatim_name hname c hc).1
    have hhead : Legal (writeAttributes attributes) := fun c hc => (verbatim_writeAttributes hattributes c hc).1
    have hinside := legal_writeAll children hchildren
    have hmark {c : Char} {s : Text} (hc : isLegal c = true) (hs : Legal s) : Legal (c :: s) :=
      List.forall_mem_cons.mpr ⟨hc, hs⟩
    rw [← List.append_nil (write _)]
    cases children with
    | nil =>
      rw [write_empty]
      exact hmark rfl (legal_append hstart (legal_append hhead (legal_of_all (by decide))))
    | cons i is =>
      rw [write_open]
      exact hmark rfl (legal_append hstart (legal_append hhead (hmark rfl (legal_append hinside
        (hmark rfl (hmark rfl (legal_append hstart (legal_of_all (by decide)))))))))

theorem legal_writeAll : ∀ is : List Markup, AllWellFormed is → Legal (writeAll is)
  | [], _ => by
    rw [writeAll]
    exact fun _ hc => nomatch hc
  | i :: is, ⟨hi, _, his⟩ => by
    rw [writeAll]
    exact legal_append (legal_write i hi) (legal_writeAll is his)

end

end Item

end Xml

end Yuml
