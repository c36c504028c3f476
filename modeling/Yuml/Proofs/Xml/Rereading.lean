import Yuml.Proofs.Xml.Namespace
import Yuml.Proofs.Xml.Soundness

namespace Yuml.Xml

theorem takePlainName?_run {w : Text} (h : IsRun w) {c : Char} (hc : isNameChar c = false) {s name r : Text}
    (hread : takePlainName? (w ++ c :: s) = some (name, r)) : isPlainName w = true ∧ name = w ∧ r = c :: s := by
  obtain ⟨d, ds, rfl⟩ := List.exists_cons_of_ne_nil h.1
  obtain ⟨-, hds⟩ := List.forall_mem_cons.mp h.2
  rw [List.cons_append, takePlainName?] at hread
  split at hread
  · next hd =>
    rw [List.takeWhile_append_of_pos hds, List.dropWhile_append_of_pos hds, List.takeWhile_cons_of_neg (by simp [hc]),
      List.dropWhile_cons_of_neg (by simp [hc]), List.append_nil] at hread
    cases hread
    refine ⟨?_, rfl, rfl⟩
    rw [isPlainName, hd, Bool.true_and]
    exact List.all_eq_true.mpr hds
  · cases hread

theorem takeName?_written {name : Text} (h : IsNameRead name) {c : Char} (hc : isNameChar c = false) (hcolon : c ≠ ':')
    {s n r : Text} (hread : takeName? (name ++ c :: s) = some (n, r)) : n = name ∧ r = c :: s := by
  cases h with
  | run h =>
    rw [takeName?] at hread
    split at hread
    · cases hread
    · next first rest hfirst => exact absurd (List.cons.inj (takePlainName?_run h hc hfirst).2.2).1.symm hcolon
    · next first rest _ hfirst =>
      cases hread
      exact (takePlainName?_run h hc hfirst).2
  | prefixed hp h =>
    rw [takeName?, List.append_assoc, List.cons_append, takePlainName?_append hp (by decide)] at hread
    obtain ⟨⟨more, r'⟩, hmore, hread⟩ := Option.map_eq_some_iff.mp hread
    obtain ⟨-, rfl, rfl⟩ := takePlainName?_run h hc hmore
    cases hread
    exact ⟨rfl, rfl⟩

theorem skipSpace_nameRead {name : Text} (h : IsNameRead name) (s : Text) : skipSpace (name ++ s) = name ++ s := by
  obtain ⟨c, cs, rfl, hc⟩ := exists_name_start h
  exact List.dropWhile_cons_of_neg (by simp [not_isSpace_of_isNameChar hc])

theorem nameRead_ne_mark {name : Text} (h : IsNameRead name) {m : Char} (hm : isNameChar m = false) {s t : Text} :
    name ++ s ≠ m :: t := by
  obtain ⟨c, cs, rfl, hc⟩ := exists_name_start h
  intro heq
  rw [(List.cons.inj heq).1, hm] at hc
  cases hc

theorem takeAttributes?_written {s rest : Text} {isEmpty : Bool}
    (hend : ∀ fuel read, takeAttributes? (fuel + 1) read s = some (read, isEmpty, rest))
    {a : Attributes} (hnames : ∀ p ∈ a, IsNameRead p.1) {fuel : Nat} {read : List (Text × List Piece)}
    {r : List (Text × List Piece) × Bool × Text} (h : takeAttributes? fuel read (writeAttributes a ++ s) = some r) :
    r = (read ++ writtenAttributes a, isEmpty, rest) := by
  induction a generalizing fuel read with
  | nil =>
    cases fuel with
    | zero => cases h
    | succ n =>
      rw [writeAttributes, List.flatMap_nil, List.nil_append, hend] at h
      rw [← Option.some.inj h, writtenAttributes, List.map_nil, List.append_nil]
  | cons p a ih =>
    obtain ⟨hname, hrest⟩ := List.forall_mem_cons.mp hnames
    have hwritten : writeAttributes (p :: a) ++ s = ' ' :: (p.1 ++ '=' :: ('"' :: escapeAttribute p.2 ++
        '"' :: (writeAttributes a ++ s))) := by
      simp [writeAttributes]
    cases fuel with
    | zero => cases h
    | succ n =>
      rw [hwritten, takeAttributes?, skipSpace_space, skipSpace_nameRead hname] at h
      split at h
      · next heq => exact absurd heq (nameRead_ne_mark hname (by decide))
      · next heq => exact absurd heq (nameRead_ne_mark hname (by decide))
      · obtain ⟨-, h⟩ := guard_bind_eq_some.mp h
        obtain ⟨⟨name, r₁⟩, hread, h⟩ := Option.bind_eq_some_iff.mp h
        obtain ⟨rfl, rfl⟩ := takeName?_written hname (by decide) (by decide) hread
        obtain ⟨-, h⟩ := guard_bind_eq_some.mp h
        have hequals (t : Text) : Text.dropPrefix? "=".toList (skipSpace ('=' :: t)) = some t := rfl
        have hquote (t u : Text) : skipSpace ('"' :: t ++ u) = '"' :: t ++ u := rfl
        simp only [hequals, hquote, takeValue?_escapeAttribute, Option.bind_eq_bind, Option.bind_some] at h
        rw [ih hrest h, List.append_assoc]
        rfl

theorem takeStartTag?_written {s t rest : Text} {m : Char} {isEmpty : Bool} (hs : s = m :: t) (hm : m = ' ' ∨ m = '>')
    (hend : ∀ fuel read, takeAttributes? (fuel + 1) read s = some (read, isEmpty, rest)) {name : Text}
    (hname : IsNameRead name) {a : Attributes} (ha : ∀ p ∈ a, IsNameRead p.1) {fuel : Nat} {r : RawEvents × Bool × Text}
    (h : takeStartTag? fuel (name ++ (writeAttributes a ++ s)) = some r) :
    r = (.opening name (writtenAttributes a) :: (if isEmpty then [.closing name] else []), !isEmpty, rest) := by
  -- a space stands after the name, or the end of the tag
  have hnext : ∃ d u, writeAttributes a ++ s = d :: u ∧ isNameChar d = false ∧ d ≠ ':' := by
    cases a with
    | nil =>
      refine ⟨m, t, hs, ?_⟩
      rcases hm with rfl | rfl <;> decide
    | cons p a => exact ⟨' ', p.1 ++ "=\"".toList ++ escapeAttribute p.2 ++ ['"'] ++ writeAttributes a ++ s,
        by simp [writeAttributes], by decide⟩
  obtain ⟨d, u, hu, hd, hcolon⟩ := hnext
  obtain ⟨⟨n, r₁⟩, hread, h⟩ := Option.bind_eq_some_iff.mp h
  rw [hu] at hread
  obtain ⟨rfl, rfl⟩ := takeName?_written hname hd hcolon hread
  obtain ⟨r₂, hattributes, h⟩ := Option.bind_eq_some_iff.mp h
  obtain rfl := takeAttributes?_written hend ha (hu ▸ hattributes)
  cases h
  rfl

theorem takeEndTag?_written {name : Text} (h : IsNameRead name) {s : Text} {r : Text × Text}
    (hread : takeEndTag? (name ++ '>' :: s) = some r) : r = (name, s) := by
  obtain ⟨⟨n, r₁⟩, hname, hread⟩ := Option.bind_eq_some_iff.mp hread
  obtain ⟨rfl, rfl⟩ := takeName?_written h (by decide) (by decide) hname
  cases hread
  rfl

namespace Item

theorem takeStartTag?_write_empty {name : Text} (hname : IsNameRead name) {a : Attributes}
    (ha : ∀ p ∈ a, IsNameRead p.1) {fuel : Nat} {rest : Text} {r : RawEvents × Bool × Text}
    (h : takeStartTag? fuel (name ++ (writeAttributes a ++ ' ' :: '/' :: '>' :: rest)) = some r) :
    r = ([.opening name (writtenAttributes a), .closing name], false, rest) := by
  have hend (n : Nat) (read : List (Text × List Piece)) :
      takeAttributes? (n + 1) read (' ' :: '/' :: '>' :: rest) = some (read, true, rest) := rfl
  exact takeStartTag?_written rfl (.inl rfl) hend hname ha h

theorem takeStartTag?_write_open {name : Text} (hname : IsNameRead name) {a : Attributes}
    (ha : ∀ p ∈ a, IsNameRead p.1) {fuel : Nat} {rest : Text} {r : RawEvents × Bool × Text}
    (h : takeStartTag? fuel (name ++ (writeAttributes a ++ '>' :: rest)) = some r) :
    r = ([.opening name (writtenAttributes a)], true, rest) := by
  have hend (n : Nat) (read : List (Text × List Piece)) :
      takeAttributes? (n + 1) read ('>' :: rest) = some (read, false, rest) := rfl
  exact takeStartTag?_written rfl (.inr rfl) hend hname ha h

-- What is read need not be a document: names may be such that nothing is read. If something is, it is what was written.
mutual

theorem content?_written (depth : Nat) : ∀ (i : Markup) (rest : Text) (fuel : Nat) (r : RawEvents × Text),
    TagsNamed IsNameRead i.startTags → i.outline.Spaced → (i.isElement = true ∨ ∃ s, rest = '<' :: s) →
    content? fuel depth (write i ++ rest) = some r →
    ∃ fuel' r', content? fuel' depth rest = some r' ∧ r = (events i ++ r'.1, r'.2)
  | .text s, rest, fuel, r, _, hspaced, hrest, h => by
    obtain ⟨t, rfl⟩ : ∃ t, rest = '<' :: t := hrest.resolve_left fun h => nomatch h
    rw [outline] at hspaced
    cases fuel with
    | zero => cases h
    | succ n =>
      rw [write, content?_escape hspaced] at h
      obtain ⟨r', hr', rfl⟩ := Option.map_eq_some_iff.mp h
      exact ⟨n, r', hr', rfl⟩
  | .element name attributes children, rest, fuel, r, hnamed, hspaced, _, h => by
    rw [startTags] at hnamed
    rw [outline] at hspaced
    obtain ⟨⟨hname, hattributes⟩, hchildren⟩ := List.forall_mem_cons.mp hnamed
    cases fuel with
    | zero => cases h
    | succ n =>
      have hstart (t : Text) : content? (n + 1) depth ('<' :: (name ++ t)) = (do
          let (tag, isOpen, r) ← takeStartTag? n (name ++ t)
          let (events, rest) ← content? n (if isOpen then depth + 1 else depth) r
          return (tag ++ events, rest)) := by
        obtain ⟨c, cs, rfl, hc⟩ := exists_name_start hname
        exact content?_start hc n depth (cs ++ t)
      cases children with
      | nil =>
        rw [write_empty, hstart] at h
        obtain ⟨tag, htag, h⟩ := Option.bind_eq_some_iff.mp h
        obtain rfl := takeStartTag?_write_empty hname hattributes htag
        obtain ⟨r', hr', h⟩ := Option.bind_eq_some_iff.mp h
        cases h
        refine ⟨n, r', hr', ?_⟩
        rw [events, eventsAll]
        rfl
      | cons i is =>
        rw [write_open, hstart] at h
        obtain ⟨tag, htag, h⟩ := Option.bind_eq_some_iff.mp h
        obtain rfl := takeStartTag?_write_open hname hattributes htag
        obtain ⟨r₁, hinside, h⟩ := Option.bind_eq_some_iff.mp h
        cases h
        obtain ⟨k, r₂, hend, rfl⟩ := content?_writtenAll (depth + 1) (i :: is) _ n r₁ hchildren hspaced hinside
        cases k with
        | zero => cases hend
        | succ k =>
          rw [content?] at hend
          obtain ⟨close, hclose, hend⟩ := Option.bind_eq_some_iff.mp hend
          obtain rfl := takeEndTag?_written hname hclose
          obtain ⟨r', hr', hend⟩ := Option.bind_eq_some_iff.mp hend
          cases hend
          refine ⟨k, r', hr', ?_⟩
          rw [events]
          simp

theorem content?_writtenAll (depth : Nat) : ∀ (is : List Markup) (s : Text) (fuel : Nat) (r : RawEvents × Text),
    TagsNamed IsNameRead (startTagsAll is) → Outline.AllSpaced (outlineAll is) →
    content? fuel depth (writeAll is ++ '<' :: s) = some r →
    ∃ fuel' r', content? fuel' depth ('<' :: s) = some r' ∧ r = (eventsAll is ++ r'.1, r'.2)
  | [], s, fuel, r, _, _, h => by
    rw [writeAll, List.nil_append] at h
    exact ⟨fuel, r, h, by rw [eventsAll, List.nil_append]⟩
  | i :: is, s, fuel, r, hnamed, hspaced, h => by
    rw [startTagsAll] at hnamed
    obtain ⟨hi, his⟩ := List.forall_mem_append.mp hnamed
    obtain ⟨hfirst, hbeside, hrest⟩ := allSpaced_outlineAll_cons.mp hspaced
    rw [writeAll, List.append_assoc] at h
    obtain ⟨n, r₁, hr₁, rfl⟩ := content?_written depth i (writeAll is ++ '<' :: s) fuel r hi hfirst
      (hbeside.imp_right fun hhead => exists_writeAll_eq hhead s) h
    obtain ⟨n', r', hr', rfl⟩ := content?_writtenAll depth is s n r₁ his hrest hr₁
    refine ⟨n', r', hr', ?_⟩
    rw [eventsAll, List.append_assoc]

end

theorem takeElement?_written {i : Markup} (hnamed : TagsNamed IsNameRead i.startTags) (hspaced : i.outline.Spaced)
    (helement : i.isElement = true) {r : RawEvents × Text} (h : takeElement? (write i) = some r) : r = (events i, []) := by
  cases i with
  | text s => cases helement
  | element name attributes children =>
    rw [startTags] at hnamed
    rw [outline] at hspaced
    obtain ⟨⟨hname, hattributes⟩, hchildren⟩ := List.forall_mem_cons.mp hnamed
    rw [← List.append_nil (write _)] at h
    obtain ⟨r₁, hless, h⟩ := Option.bind_eq_some_iff.mp h
    obtain ⟨tag, htag, h⟩ := Option.bind_eq_some_iff.mp h
    cases children with
    | nil =>
      rw [write_empty] at hless htag
      cases hless
      obtain rfl := takeStartTag?_write_empty hname hattributes htag
      cases h
      rw [events, eventsAll]
      rfl
    | cons i is =>
      rw [write_open] at hless htag
      cases hless
      obtain rfl := takeStartTag?_write_open hname hattributes htag
      obtain ⟨r₂, hinside, h⟩ := Option.bind_eq_some_iff.mp h
      obtain ⟨k, r₃, hend, rfl⟩ := content?_writtenAll 0 (i :: is) _ _ r₂ hchildren hspaced hinside
      cases k with
      | zero => cases hend
      | succ k =>
        rw [content?] at hend
        cases hend
        obtain ⟨r₄, hclose, h⟩ := Option.bind_eq_some_iff.mp h
        cases hclose
        obtain ⟨r₅, hclose, h⟩ := Option.bind_eq_some_iff.mp h
        obtain rfl := takeEndTag?_written hname hclose
        cases h
        rw [events]
        simp

end Item

theorem document_written {i : Markup} (hnamed : TagsNamed IsNameRead i.startTags) (hspaced : i.outline.Spaced)
    (helement : i.isElement = true) : Expansion.Gives (fun m => m = i) (document i.write) := by
  obtain ⟨c, s, hwrite, hc⟩ := exists_write_start hnamed helement
  rw [document_of_start hwrite hc]
  refine .bind (.lift fun r hr => Item.takeElement?_written hnamed hspaced helement hr) fun r hr => ?_
  subst hr
  refine .step fun _ => .step fun _ => ?_
  rw [content_events hspaced helement, pure_bind, Item.build?_root helement]
  exact .pure rfl

mutual

theorem Item.outline_unified : ∀ i : Markup, i.unified.outline = i.outline.unified
  | .text s => by
    rw [unified, outline, outline, Outline.unified]
  | .element name attributes children => by
    rw [unified, outline, outline, Outline.unified, outlineAll_unifiedAll children]

theorem Item.outlineAll_unifiedAll : ∀ is : List Markup, outlineAll (unifiedAll is) = Outline.unifiedAll (outlineAll is)
  | [] => by
    rw [unifiedAll, outlineAll, Outline.unifiedAll]
  | i :: is => by
    rw [unifiedAll, outlineAll, outlineAll, Outline.unifiedAll, outline_unified i, outlineAll_unifiedAll is]

end

namespace Outline

theorem isElement_unified (o : Outline) : o.unified.isElement = o.isElement := by
  cases o <;> rfl

theorem unifiedAll_eq_map (os : List Outline) : unifiedAll os = os.map unified := by
  induction os with
  | nil => rw [unifiedAll, List.map_nil]
  | cons o os ih => rw [unifiedAll, ih, List.map_cons]

mutual

theorem spaced_unified : ∀ o : Outline, o.Spaced → o.unified.Spaced
  | .text s, h => by
    rw [unified]
    exact Item.unifyLineEnds_ne_nil h
  | .element isHole children, h => by
    rw [unified]
    exact allSpaced_unifiedAll children h

theorem allSpaced_unifiedAll : ∀ os : List Outline, AllSpaced os → AllSpaced (unifiedAll os)
  | [], _ => by
    rw [unifiedAll]
    trivial
  | o :: os, ⟨ho, hbeside, hos⟩ => by
    rw [unifiedAll]
    refine ⟨spaced_unified o ho, ?_, allSpaced_unifiedAll os hos⟩
    rw [isElement_unified]
    refine hbeside.imp_right fun hhead => ?_
    simpa [unifiedAll_eq_map, isElement_unified] using hhead

end

end Outline

theorem read?_written {i m : Markup} (hnamed : TagsNamed IsNameRead i.startTags) (hspaced : i.outline.Spaced)
    (helement : i.isElement = true) (h : read? i.write = some m) : m = i.unified := by
  have helement' : i.unified.isElement = true := by rw [Item.isElement_unified, helement]
  have hnamed' : TagsNamed IsNameRead i.unified.startTags := by rwa [Item.startTags_unified]
  have hspaced' : i.unified.outline.Spaced := by
    rw [Item.outline_unified]
    exact Outline.spaced_unified _ hspaced
  have hends : Text.unifyLineEnds i.write = i.unified.write := by
    have hnil := Item.unifyLineEnds_write i [] hnamed hspaced (.inl helement)
    simpa [Text.unifyLineEnds] using hnil
  have hmark : Text.dropPrefix? [Char.ofNat 0xFEFF] i.unified.write = none := by
    obtain ⟨c, s, hwrite, -⟩ := exists_write_start hnamed' helement'
    rw [hwrite]
    rfl
  rw [read?, hends] at h
  obtain ⟨-, h⟩ := guard_bind_eq_some.mp h
  rw [hmark] at h
  obtain ⟨⟨m', left⟩, hrun, h⟩ := Option.map_eq_some_iff.mp h
  cases h
  exact document_written hnamed' hspaced' helement' _ _ left hrun

end Yuml.Xml
