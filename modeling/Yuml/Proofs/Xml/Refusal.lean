import Yuml.Proofs.Xml.Namespace

namespace Yuml.Xml

open Text

theorem legal_of_legal_unifyLineEnds {s : Text} (h : Legal (unifyLineEnds s)) : Legal s := by
  induction s using unifyLineEnds.induct with
  | case1 => exact h
  | case2 cs ih =>
    rw [unifyLineEnds] at h
    exact legal_cons_iff.mpr ⟨rfl, legal_cons_iff.mpr ⟨rfl, ih (legal_cons_iff.mp h).2⟩⟩
  | case3 c cs hpair ih =>
    have hunify : unifyLineEnds (c :: cs) = (if c = '\r' then '\n' else c) :: unifyLineEnds cs := by
      rw [unifyLineEnds]
      exact hpair
    rw [hunify] at h
    obtain ⟨hc, hcs⟩ := legal_cons_iff.mp h
    refine legal_cons_iff.mpr ⟨?_, ih hcs⟩
    by_cases hreturn : c = '\r'
    · rw [hreturn]
      rfl
    · rwa [if_neg hreturn] at hc

theorem readTree?_of_illegal {s : Text} (h : ¬ Legal s) : readTree? s = none := by
  have hall : (unifyLineEnds s).all isLegal = false :=
    Bool.eq_false_iff.mpr fun hlegal => h (legal_of_legal_unifyLineEnds (legal_of_all hlegal))
  have hread : read? s = none := by
    rw [read?]
    simp only [hall]
    rfl
  rw [readTree?, hread]
  rfl

theorem escapeAttributeChar_of_illegal {c : Char} (h : ¬ isLegal c = true) : escapeAttributeChar c = [c] := by
  have hother {d : Char} (hd : isLegal d = true) : c ≠ d := fun heq => h (heq ▸ hd)
  rw [escapeAttributeChar, escapeChar, if_neg (hother rfl), if_neg (hother rfl), if_neg (hother rfl), if_neg (hother rfl),
    if_neg (hother rfl), if_neg (hother rfl), if_neg (hother rfl)]

theorem legal_of_legal_escapeAttribute {s : Text} (h : Legal (escapeAttribute s)) : Legal s := by
  intro c hc
  by_contra hillegal
  have hself := escapeAttributeChar_of_illegal hillegal
  exact hillegal (h c (List.mem_flatMap.mpr ⟨c, hc, hself ▸ List.mem_singleton_self c⟩))

def marks : Text :=
  "<>/ =\"&amp;&lt;&gt;&quot;&#13;&#10;&#09;"

theorem legal_marks : Legal marks :=
  legal_of_all (by decide)

theorem mem_escapeAttribute {s : Text} {c : Char} (h : c ∈ escapeAttribute s) : c ∈ marks ∨ c ∈ s := by
  obtain ⟨d, hd, hc⟩ := List.mem_flatMap.mp h
  have hsub : ∀ e ∈ ["&quot;".toList, "&#13;".toList, "&#10;".toList, "&#09;".toList, "&amp;".toList, "&lt;".toList,
      "&gt;".toList], e ⊆ marks := by decide
  unfold escapeAttributeChar escapeChar at hc
  split_ifs at hc
  case neg => exact .inr (List.mem_singleton.mp hc ▸ hd)
  all_goals exact .inl (hsub _ (by simp) hc)

theorem mem_writeAttributes {a : Attributes} {c : Char} (h : c ∈ writeAttributes a) :
    c ∈ marks ∨ ∃ p ∈ a, c ∈ p.1 ∨ c ∈ p.2 := by
  obtain ⟨p, hp, hc⟩ := List.mem_flatMap.mp h
  have hequals : "=\"".toList ⊆ marks := by decide
  simp only [List.mem_append, List.mem_cons, List.not_mem_nil, or_false] at hc
  rcases hc with (((rfl | hname) | hc) | hvalue) | rfl
  · exact .inl (by decide)
  · exact .inr ⟨p, hp, .inl hname⟩
  · exact .inl (hequals hc)
  · exact (mem_escapeAttribute hvalue).imp_right fun hvalue => ⟨p, hp, .inr hvalue⟩
  · exact .inl (by decide)

namespace Item

theorem writeAttributes_subset (name : Text) (attributes : Attributes) (children : List Markup) :
    writeAttributes attributes ⊆ write (element name attributes children) := by
  intro c hc
  cases children with
  | nil =>
    rw [write_nil]
    simp [hc]
  | cons i is =>
    rw [write_cons]
    simp [hc]

theorem mem_writeAll {is : List Markup} {c : Char} (h : c ∈ writeAll is) : ∃ i ∈ is, c ∈ write i := by
  induction is with
  | nil =>
    rw [writeAll] at h
    cases h
  | cons i is ih =>
    rw [writeAll] at h
    rcases List.mem_append.mp h with hc | hc
    · exact ⟨i, List.mem_cons_self, hc⟩
    · obtain ⟨j, hj, hc⟩ := ih hc
      exact ⟨j, List.mem_cons_of_mem _ hj, hc⟩

theorem mem_write_element {name : Text} {a : Attributes} {children : List Markup} {c : Char}
    (h : c ∈ write (element name a children)) :
    c ∈ marks ∨ c ∈ name ∨ (∃ p ∈ a, c ∈ p.1 ∨ c ∈ p.2) ∨ ∃ i ∈ children, c ∈ write i := by
  have hattributes (hc : c ∈ writeAttributes a) : c ∈ marks ∨ c ∈ name ∨ (∃ p ∈ a, c ∈ p.1 ∨ c ∈ p.2) ∨
      ∃ i ∈ children, c ∈ write i :=
    (mem_writeAttributes hc).imp_right fun hc => .inr (.inl hc)
  cases children with
  | nil =>
    rw [write_nil] at h
    simp only [List.mem_cons, List.mem_append, List.not_mem_nil, or_false] at h
    rcases h with rfl | hname | hc | rfl | rfl | rfl
    · exact .inl (by decide)
    · exact .inr (.inl hname)
    · exact hattributes hc
    all_goals exact .inl (by decide)
  | cons i is =>
    rw [write_cons] at h
    simp only [List.mem_cons, List.mem_append, List.not_mem_nil, or_false] at h
    rcases h with rfl | hname | hc | rfl | hchildren | rfl | rfl | hname | rfl
    · exact .inl (by decide)
    · exact .inr (.inl hname)
    · exact hattributes hc
    · exact .inl (by decide)
    · exact .inr (.inr (.inr (mem_writeAll hchildren)))
    · exact .inl (by decide)
    · exact .inl (by decide)
    · exact .inr (.inl hname)
    · exact .inl (by decide)

theorem not_mem_write_element {d : Char} (hmarks : d ∉ marks) {name : Text} (hname : d ∉ name) {a : Attributes}
    (hattributes : ∀ p ∈ a, d ∉ p.1 ∧ d ∉ p.2) {children : List Markup} (hchildren : ∀ i ∈ children, d ∉ write i) :
    d ∉ write (element name a children) := by
  intro hd
  rcases mem_write_element hd with hd | hd | ⟨p, hp, hd | hd⟩ | ⟨i, hi, hd⟩
  · exact hmarks hd
  · exact hname hd
  · exact (hattributes p hp).1 hd
  · exact (hattributes p hp).2 hd
  · exact hchildren i hi hd

mutual

theorem legal_values_of_write : ∀ i : Markup, Legal (write i) → ∀ t ∈ startTags i, ∀ p ∈ t.2, Legal p.2
  | .text s, _ => by
    rw [startTags]
    exact fun _ ht => nomatch ht
  | .element name attributes children, h => by
    rw [startTags]
    refine List.forall_mem_cons.mpr ⟨fun p hp => ?_, legal_values_of_writeAll children fun c hc => ?_⟩
    · refine legal_of_legal_escapeAttribute fun c hc => h c (writeAttributes_subset name attributes children ?_)
      exact List.mem_flatMap.mpr ⟨p, hp, by simp [hc]⟩
    · exact h c ((writeAll_infix_write name attributes children).subset hc)

theorem legal_values_of_writeAll : ∀ is : List Markup, Legal (writeAll is) →
    ∀ t ∈ startTagsAll is, ∀ p ∈ t.2, Legal p.2
  | [], _ => by
    rw [startTagsAll]
    exact fun _ ht => nomatch ht
  | i :: is, h => by
    rw [writeAll] at h
    obtain ⟨hi, his⟩ := legal_append_iff.mp h
    rw [startTagsAll]
    exact List.forall_mem_append.mpr ⟨legal_values_of_write i hi, legal_values_of_writeAll is his⟩

end

end Item

end Yuml.Xml
