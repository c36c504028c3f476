import Yuml.Proofs.Xml.Event
import Yuml.Proofs.Xml.Names
import Yuml.Proofs.Xml.Outline

namespace Yuml.Xml.Item

mutual

/-- A piece of a document that reads back as it is written: plain names, characters of XML, and no
text that is empty or beside another one. -/
def WellFormed : Markup → Prop
  | text s => s ≠ [] ∧ Legal s
  | element name attributes children =>
    isPlainName name = true ∧ Attributes.WellFormed attributes ∧ AllWellFormed children

def AllWellFormed : List Markup → Prop
  | [] => True
  | i :: is => WellFormed i ∧ (i.isElement = true ∨ ∀ j ∈ is.head?, j.isElement = true) ∧ AllWellFormed is

end

mutual

theorem sound_of_wellFormed : ∀ i : Markup, WellFormed i → TagsNamed IsNameRead i.startTags ∧ i.outline.Spaced
  | .text s, ⟨hne, _⟩ => by
    rw [startTags, outline]
    exact ⟨List.forall_mem_nil _, hne⟩
  | .element name attributes children, ⟨hname, hattributes, hchildren⟩ => by
    obtain ⟨hnamed, hspaced⟩ := sound_of_allWellFormed children hchildren
    rw [startTags, outline]
    refine ⟨List.forall_mem_cons.mpr ⟨⟨.run (isRun_of_isPlainName hname), fun p hp => ?_⟩, hnamed⟩, hspaced⟩
    exact .run (isRun_of_isPlainName (hattributes.plain p hp))

theorem sound_of_allWellFormed : ∀ is : List Markup, AllWellFormed is →
    TagsNamed IsNameRead (startTagsAll is) ∧ Outline.AllSpaced (outlineAll is)
  | [], _ => by
    rw [startTagsAll, outlineAll]
    exact ⟨List.forall_mem_nil _, trivial⟩
  | i :: is, ⟨hi, hbeside, his⟩ => by
    obtain ⟨hnamed, hspaced⟩ := sound_of_wellFormed i hi
    obtain ⟨hnamed', hspaced'⟩ := sound_of_allWellFormed is his
    rw [startTagsAll, allSpaced_outlineAll_cons]
    exact ⟨List.forall_mem_append.mpr ⟨hnamed, hnamed'⟩, hspaced, hbeside, hspaced'⟩

end

mutual

def events : Markup → RawEvents
  | text s => [.text (s.map textPiece)]
  | element name attributes children =>
    .opening name (writtenAttributes attributes) :: eventsAll children ++ [.closing name]

def eventsAll : List Markup → RawEvents
  | [] => []
  | i :: is => events i ++ eventsAll is

end

theorem content?_text {c : Char} (hc : c ≠ '<') (fuel depth : Nat) (cs : Text) :
    content? (fuel + 1) depth (c :: cs) = (do
      guard (!Text.occursIn "]]>" ((c :: cs).takeWhile (· != '<')))
      let t ← pieces? ((c :: cs).takeWhile (· != '<'))
      let (events, rest) ← content? fuel depth ((c :: cs).dropWhile (· != '<'))
      return (.text t :: events, rest)) := by
  have hmark {s : Text} : c :: cs ≠ '<' :: s := fun heq => hc (List.cons.inj heq).1
  rw [content?]
  case x_9 => exact fun s heq => hmark heq
  case x_3 => exact fun _ heq => nomatch heq
  case x_4 => exact fun _ _ heq => nomatch heq
  case x_5 => exact fun s _ heq => hmark heq
  case x_6 => exact fun _ s _ heq => hmark heq
  case x_7 => exact fun s heq => hmark heq
  case x_8 => exact fun s heq => hmark heq

theorem content?_start {c : Char} (hc : isNameChar c = true) (fuel depth : Nat) (cs : Text) :
    content? (fuel + 1) depth ('<' :: c :: cs) = (do
      let (tag, isOpen, r) ← takeStartTag? fuel (c :: cs)
      let (events, rest) ← content? fuel (if isOpen then depth + 1 else depth) r
      return (tag ++ events, rest)) := by
  have hmark {d : Char} (hd : isNameChar d = false) {s : Text} : c :: cs ≠ d :: s := by
    rintro heq
    rw [(List.cons.inj heq).1, hd] at hc
    cases hc
  rw [content?]
  case x_3 => exact fun s _ heq => hmark (by decide) heq
  case x_4 => exact fun _ s _ heq => hmark (by decide) heq
  case x_5 => exact fun s heq => hmark (by decide) heq
  case x_6 => exact fun s heq => hmark (by decide) heq

theorem content?_end {name : Text} (h : isPlainName name = true) (fuel depth : Nat) (s : Text) :
    content? (fuel + 1) (depth + 1) ('<' :: '/' :: (name ++ '>' :: s)) =
      (content? fuel depth s).map fun r => (.closing name :: r.1, r.2) := by
  rw [content?, takeEndTag?_append h]
  simp only [Option.bind_eq_bind, Option.bind_some]
  cases content? fuel depth s <;> rfl

theorem mem_of_occursIn {p s : Text} (h : Text.occursIn p s = true) {c : Char} (hc : c ∈ p) : c ∈ s := by
  induction s with
  | nil =>
    rw [Text.occursIn, List.isEmpty_iff] at h
    rwa [h] at hc
  | cons d ds ih =>
    rw [Text.occursIn, Bool.or_eq_true, List.isPrefixOf_iff_prefix] at h
    rcases h with h | h
    · exact h.subset hc
    · exact List.mem_cons_of_mem _ (ih h)

theorem marks_not_mem_escape (s : Text) : '<' ∉ escape s ∧ '>' ∉ escape s := by
  have hmark (c : Char) : '<' ∉ escapeChar c ∧ '>' ∉ escapeChar c := by
    unfold escapeChar
    split_ifs with hamp hlt hgt
    · decide
    · decide
    · decide
    · simp only [List.mem_singleton]
      exact ⟨fun h => hlt h.symm, fun h => hgt h.symm⟩
  constructor
  · intro h
    obtain ⟨c, -, hc⟩ := List.mem_flatMap.mp h
    exact (hmark c).1 hc
  · intro h
    obtain ⟨c, -, hc⟩ := List.mem_flatMap.mp h
    exact (hmark c).2 hc

theorem escape_ne_nil {s : Text} (h : s ≠ []) : escape s ≠ [] := by
  obtain ⟨c, cs, rfl⟩ := List.exists_cons_of_ne_nil h
  have hne : escapeChar c ≠ [] := by
    unfold escapeChar
    split_ifs <;> exact List.cons_ne_nil _ _
  rw [escape, List.flatMap_cons]
  exact List.append_ne_nil_of_left_ne_nil hne _

theorem content?_escape {s : Text} (h : s ≠ []) (fuel depth : Nat) (t : Text) :
    content? (fuel + 1) depth (escape s ++ '<' :: t) =
      (content? fuel depth ('<' :: t)).map fun r => (.text (s.map textPiece) :: r.1, r.2) := by
  obtain ⟨hlt, hgt⟩ := marks_not_mem_escape s
  have hinside : ∀ c ∈ escape s, (c != '<') = true := by
    intro c hc
    simp only [bne_iff_ne, ne_eq]
    rintro rfl
    exact hlt hc
  have htake : (escape s ++ '<' :: t).takeWhile (· != '<') = escape s := by
    rw [List.takeWhile_append_of_pos hinside]
    simp
  have hdrop : (escape s ++ '<' :: t).dropWhile (· != '<') = '<' :: t := by
    rw [List.dropWhile_append_of_pos hinside]
    simp
  have hclosed : Text.occursIn "]]>".toList (escape s) = false := by
    by_contra hoccurs
    exact hgt (mem_of_occursIn (by simpa using hoccurs) (by decide))
  obtain ⟨d, ds, hescape⟩ := List.exists_cons_of_ne_nil (escape_ne_nil h)
  have hd : d ≠ '<' := by
    rintro rfl
    exact hlt (hescape ▸ List.mem_cons_self)
  rw [hescape, List.cons_append] at htake hdrop
  rw [hescape, List.cons_append, content?_text hd, htake, hdrop, ← hescape, hclosed, pieces?_escape]
  simp only [guard, Bool.not_false, if_true, Option.pure_def, Option.bind_eq_bind, Option.bind_some]
  cases content? fuel depth ('<' :: t) <;> rfl

theorem length_le_writeAttributes (a : Attributes) : a.length ≤ (writeAttributes a).length := by
  induction a with
  | nil => exact Nat.zero_le _
  | cons p a ih =>
    simp only [writeAttributes, List.flatMap_cons, List.length_cons, List.length_append] at ih ⊢
    omega

theorem write_empty (name : Text) (attributes : Attributes) (rest : Text) :
    write (element name attributes []) ++ rest =
      '<' :: (name ++ (writeAttributes attributes ++ ' ' :: '/' :: '>' :: rest)) := by
  simp [write]

theorem write_open (name : Text) (attributes : Attributes) (i : Markup) (is : List Markup) (rest : Text) :
    write (element name attributes (i :: is)) ++ rest =
      '<' :: (name ++ (writeAttributes attributes ++
        '>' :: (writeAll (i :: is) ++ '<' :: '/' :: (name ++ '>' :: rest)))) := by
  simp [write]

theorem write_nil (name : Text) (attributes : Attributes) : write (element name attributes []) =
    '<' :: (name ++ (writeAttributes attributes ++ [' ', '/', '>'])) := by
  simp [write]

theorem write_cons (name : Text) (attributes : Attributes) (i : Markup) (is : List Markup) :
    write (element name attributes (i :: is)) =
      '<' :: (name ++ (writeAttributes attributes ++
        '>' :: (writeAll (i :: is) ++ '<' :: '/' :: (name ++ ['>'])))) := by
  simp [write]

theorem writeAll_infix_write (name : Text) (attributes : Attributes) (children : List Markup) :
    writeAll children <:+: write (element name attributes children) := by
  cases children with
  | nil =>
    rw [writeAll]
    exact List.nil_infix
  | cons i is =>
    refine ⟨'<' :: name ++ writeAttributes attributes ++ ['>'], '<' :: '/' :: (name ++ ['>']), ?_⟩
    rw [write_cons]
    simp

theorem exists_write_eq {i : Markup} (h : i.isElement = true) : ∃ s, write i = '<' :: s := by
  cases i with
  | text s => cases h
  | element name attributes children =>
    rw [write]
    split <;> exact ⟨_, rfl⟩

theorem exists_writeAll_eq {is : List Markup} (h : ∀ j ∈ is.head?, j.isElement = true) (s : Text) :
    ∃ t, writeAll is ++ '<' :: s = '<' :: t := by
  cases is with
  | nil => exact ⟨s, rfl⟩
  | cons j js =>
    obtain ⟨t, ht⟩ := exists_write_eq (h j rfl)
    exact ⟨t ++ (writeAll js ++ '<' :: s), by rw [writeAll, ht, List.append_assoc, List.cons_append]⟩

-- Fuel only has to exceed what is left to read, so that each piece leaves enough of it for the next one.
mutual

theorem content?_write (depth : Nat) : ∀ (i : Markup) (rest : Text) (fuel : Nat), WellFormed i →
    (i.isElement = true ∨ ∃ s, rest = '<' :: s) → (write i ++ rest).length < fuel →
    ∃ fuel', rest.length < fuel' ∧ content? fuel depth (write i ++ rest) =
      (content? fuel' depth rest).map fun r => (events i ++ r.1, r.2)
  | .text s, rest, fuel, ⟨hne, _⟩, hrest, hfuel => by
    obtain ⟨t, rfl⟩ : ∃ t, rest = '<' :: t := hrest.resolve_left fun h => nomatch h
    obtain ⟨n, rfl⟩ := Nat.exists_eq_succ_of_ne_zero (Nat.ne_of_gt (Nat.zero_lt_of_lt hfuel))
    have hpos := List.length_pos_iff.mpr (escape_ne_nil hne)
    rw [write, List.length_append] at hfuel
    refine ⟨n, by omega, ?_⟩
    rw [write, content?_escape hne]
    rfl
  | .element name attributes children, rest, fuel, ⟨hname, hattributes, hchildren⟩, _, hfuel => by
    obtain ⟨n, rfl⟩ := Nat.exists_eq_succ_of_ne_zero (Nat.ne_of_gt (Nat.zero_lt_of_lt hfuel))
    have hlength := length_le_writeAttributes attributes
    have hstart (t : Text) : content? (n + 1) depth ('<' :: (name ++ t)) = (do
        let (tag, isOpen, r) ← takeStartTag? n (name ++ t)
        let (events, rest) ← content? n (if isOpen then depth + 1 else depth) r
        return (tag ++ events, rest)) := by
      cases name with
      | nil => cases hname
      | cons c cs =>
        rw [isPlainName, Bool.and_eq_true] at hname
        exact content?_start (isNameChar_of_isNameStart hname.1) n depth (cs ++ t)
    cases children with
    | nil =>
      rw [write_empty] at hfuel ⊢
      simp only [List.length_cons, List.length_append] at hfuel
      refine ⟨n, by omega, ?_⟩
      rw [hstart, takeStartTag?_empty hname hattributes (by omega)]
      simp only [Option.bind_eq_bind, Option.bind_some]
      cases hcontent : content? n depth rest <;> simp [hcontent, events, eventsAll]
    | cons i is =>
      rw [write_open] at hfuel ⊢
      simp only [List.length_cons, List.length_append] at hfuel
      obtain ⟨m, hm, hinside⟩ := content?_writeAll (depth + 1) (i :: is) ('/' :: (name ++ '>' :: rest)) n
        hchildren (by simp only [List.length_cons, List.length_append]; omega)
      simp only [List.length_cons, List.length_append] at hm
      obtain ⟨k, rfl⟩ := Nat.exists_eq_succ_of_ne_zero (Nat.ne_of_gt (Nat.zero_lt_of_lt hm))
      refine ⟨k, by omega, ?_⟩
      rw [hstart, takeStartTag?_open hname hattributes (by omega)]
      simp only [Option.bind_eq_bind, Option.bind_some, if_true]
      rw [hinside, content?_end hname]
      cases content? k depth rest with
      | none => rfl
      | some r => simp [events]

theorem content?_writeAll (depth : Nat) : ∀ (is : List Markup) (s : Text) (fuel : Nat), AllWellFormed is →
    (writeAll is ++ '<' :: s).length < fuel →
    ∃ fuel', s.length + 1 < fuel' ∧ content? fuel depth (writeAll is ++ '<' :: s) =
      (content? fuel' depth ('<' :: s)).map fun r => (eventsAll is ++ r.1, r.2)
  | [], s, fuel, _, hfuel => by
    refine ⟨fuel, hfuel, ?_⟩
    rw [writeAll, List.nil_append]
    cases content? fuel depth ('<' :: s) <;> rfl
  | i :: is, s, fuel, ⟨hi, hbeside, his⟩, hfuel => by
    rw [writeAll, List.append_assoc] at hfuel ⊢
    obtain ⟨n, hn, hfirst⟩ := content?_write depth i (writeAll is ++ '<' :: s) fuel hi
      (hbeside.imp_right fun hhead => exists_writeAll_eq hhead s) hfuel
    obtain ⟨n', hn', hrest⟩ := content?_writeAll depth is s n his hn
    refine ⟨n', hn', ?_⟩
    rw [hfirst, hrest, eventsAll]
    cases content? n' depth ('<' :: s) with
    | none => rfl
    | some r => simp

end

theorem takeElement?_write {i : Markup} (h : WellFormed i) (helement : i.isElement = true) :
    takeElement? (write i) = some (events i, []) := by
  cases i with
  | text s => cases helement
  | element name attributes children =>
    obtain ⟨hname, hattributes, hchildren⟩ := h
    have hlength := length_le_writeAttributes attributes
    have hless (t : Text) : Text.dropPrefix? "<".toList ('<' :: t) = some t := rfl
    have hclose (t : Text) : Text.dropPrefix? "</".toList ('<' :: '/' :: t) = some t := rfl
    rw [← List.append_nil (write _)]
    cases children with
    | nil =>
      rw [write_empty, takeElement?, hless]
      simp only [Option.bind_eq_bind, Option.bind_some]
      rw [takeStartTag?_empty hname hattributes (by simp only [List.length_cons, List.length_append]; omega)]
      rfl
    | cons i is =>
      rw [write_open, takeElement?, hless]
      simp only [Option.bind_eq_bind, Option.bind_some]
      rw [takeStartTag?_open hname hattributes (by simp only [List.length_cons, List.length_append]; omega)]
      simp only [Option.bind_some, if_true]
      obtain ⟨m, hm, hinside⟩ := content?_writeAll 0 (i :: is) ('/' :: (name ++ ['>']))
        (('<' :: (name ++ (writeAttributes attributes ++
          '>' :: (writeAll (i :: is) ++ '<' :: '/' :: (name ++ ['>']))))).length + 1) hchildren
        (by simp only [List.length_cons, List.length_append]; omega)
      obtain ⟨k, rfl⟩ := Nat.exists_eq_succ_of_ne_zero (Nat.ne_of_gt (Nat.zero_lt_of_lt hm))
      have hstop (t : Text) : content? (k + 1) 0 ('<' :: '/' :: t) = some ([], '<' :: '/' :: t) := by
        rw [content?]
      rw [hinside, hstop]
      simp only [Option.map_some, Option.bind_some, hclose, takeEndTag?_append hname, List.append_nil]
      rfl

end Yuml.Xml.Item
