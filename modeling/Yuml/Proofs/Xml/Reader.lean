import Yuml.Proofs.Xml.Writer
import Yuml.Xml.Reader

namespace Yuml.Xml

theorem mapM_map_eq_pure {α β γ : Type} {f : β → Expansion γ} {h : α → β} {g : α → γ} {xs : List α}
    (hf : ∀ x ∈ xs, f (h x) = pure (g x)) : (xs.map h).mapM f = pure (xs.map g) := by
  induction xs with
  | nil => rfl
  | cons x xs ih =>
    rw [List.map_cons, List.mapM_cons, hf x List.mem_cons_self,
      ih fun y hy => hf y (List.mem_cons_of_mem _ hy)]
    rfl

namespace Doctype

theorem value_pieces (d : Doctype) (depth : Nat) (opened : List Text) (s : Text) :
    d.value (depth + 1) opened (s.map valuePiece) = pure s := by
  rw [value, mapM_map_eq_pure (g := fun c => [c]), pure_bind]
  · rw [← List.flatMap_def, List.flatMap_singleton']
  · intro c _
    unfold valuePiece textPiece
    split_ifs with hquot hspace hamp hlt hgt
    · rw [hquot]
      rfl
    · rfl
    · rw [hamp]
      rfl
    · rw [hlt]
      rfl
    · rw [hgt]
      rfl
    · have hkept : spaced c = c := by
        simp only [spaced, isSpace, Bool.or_eq_true, beq_iff_eq]
        split
        · next h => tauto
        · rfl
      simp only [hlt, if_false, hkept]

def Bare (d : Doctype) : Prop :=
  d.entities = [] ∧ d.rules = []

theorem attributes_written {d : Doctype} (hd : d.Bare) (depth : Nat) (opened : List Text) (element : Text)
    (a : Attributes) : d.attributes (depth + 1) opened element (writtenAttributes a) = pure a := by
  have hrules : d.rulesOf element = [] := by simp [rulesOf, hd.2]
  rw [attributes, writtenAttributes, mapM_map_eq_pure (g := id), pure_bind]
  · simp [defaults, hrules]
  · rintro ⟨name, value⟩ -
    simp [valueOf, value_pieces, isTokenized, hrules]

end Doctype

namespace Item

mutual

def spelled : Markup → List (Event Text)
  | text s => s.map fun c => .text [c]
  | element name attributes children => .opening name attributes :: spelledAll children ++ [.closing name]

def spelledAll : List Markup → List (Event Text)
  | [] => []
  | i :: is => spelled i ++ spelledAll is

end

mutual

def reading : Markup → List (Event Text)
  | text s => [.text s]
  | element name attributes children => .opening name attributes :: readingAll children ++ [.closing name]

def readingAll : List Markup → List (Event Text)
  | [] => []
  | i :: is => reading i ++ readingAll is

end

mutual

theorem sense_events {d : Doctype} (hd : d.Bare)
    (inside : List Text → RawEvents → Expansion (List (Event Text))) (depth : Nat) (opened : List Text) : ∀ i : Markup,
    ∃ chunks, (events i).mapM (d.sense inside (depth + 1) opened) = pure chunks ∧ chunks.flatten = spelled i
  | .text s => by
    have hpieces : d.sense inside (depth + 1) opened (.text (s.map textPiece)) = pure (spelled (.text s)) := by
      rw [Doctype.sense, mapM_map_eq_pure (g := fun c => [.text [c]]), pure_bind, spelled]
      · rw [← List.flatMap_def, List.map_eq_flatMap]
      · intro c _
        unfold textPiece
        split_ifs with hamp hlt hgt
        · rw [hamp]
          rfl
        · rw [hlt]
          rfl
        · rw [hgt]
          rfl
        · rfl
    refine ⟨[spelled (.text s)], ?_, List.append_nil _⟩
    rw [events, List.mapM_cons, List.mapM_nil, hpieces]
    rfl
  | .element name attributes children => by
    obtain ⟨chunks, hchunks, hflat⟩ := sense_eventsAll hd inside depth opened children
    have hopening : d.sense inside (depth + 1) opened (.opening name (writtenAttributes attributes)) =
        pure [.opening name attributes] := by
      rw [Doctype.sense, Doctype.attributes_written hd]
      rfl
    refine ⟨[.opening name attributes] :: chunks ++ [[.closing name]], ?_, ?_⟩
    · rw [events, List.cons_append, List.mapM_cons, List.mapM_append, hopening, hchunks]
      rfl
    · simp [hflat, spelled]

theorem sense_eventsAll {d : Doctype} (hd : d.Bare)
    (inside : List Text → RawEvents → Expansion (List (Event Text))) (depth : Nat) (opened : List Text) : ∀ is : List Markup,
    ∃ chunks, (eventsAll is).mapM (d.sense inside (depth + 1) opened) = pure chunks ∧ chunks.flatten = spelledAll is
  | [] => ⟨[], by rw [eventsAll]; rfl, by rw [spelledAll]; rfl⟩
  | i :: is => by
    obtain ⟨first, hfirst, hflat⟩ := sense_events hd inside depth opened i
    obtain ⟨rest, hrest, hflat'⟩ := sense_eventsAll hd inside depth opened is
    refine ⟨first ++ rest, ?_, ?_⟩
    · rw [eventsAll, List.mapM_append, hfirst, hrest]
      rfl
    · rw [List.flatten_append, hflat, hflat', spelledAll]

end

def StartsNoText (es : List (Event Text)) : Prop :=
  ∀ s fs, es ≠ .text s :: fs

theorem cons_text {s : Text} (h : s ≠ []) {es : List (Event Text)} (hes : StartsNoText es) :
    Event.cons (.text s) es = .text s :: es := by
  unfold Event.cons
  split
  · next t es _ => exact absurd rfl (hes t _)
  · next heq _ =>
    cases heq
    exact absurd rfl h
  · rfl

theorem foldr_cons_text {s : Text} (h : s ≠ []) {es : List (Event Text)} (hes : StartsNoText es) :
    (s.map fun c => Event.text [c]).foldr Event.cons es = .text s :: es := by
  induction s with
  | nil => exact absurd rfl h
  | cons c cs ih =>
    rw [List.map_cons, List.foldr_cons]
    cases cs with
    | nil => exact cons_text (List.cons_ne_nil c []) hes
    | cons d ds =>
      rw [ih (List.cons_ne_nil d ds)]
      rfl

-- Only text that nothing else continues is joined to one event, which spaced pieces make sure of.
mutual

theorem foldr_cons_spelled : ∀ (i : Markup) (es : List (Event Text)), i.outline.Spaced →
    (i.isElement = true ∨ StartsNoText es) → (spelled i).foldr Event.cons es = reading i ++ es
  | .text s, es, hne, hes => by
    rw [outline] at hne
    rw [spelled, reading, foldr_cons_text hne (hes.resolve_left fun h => nomatch h)]
    rfl
  | .element name attributes children, es, hspaced, _ => by
    have hend : StartsNoText (.closing name :: es) := fun _ _ heq => nomatch heq
    rw [outline] at hspaced
    rw [spelled, reading, List.cons_append, List.foldr_cons, List.foldr_append]
    change Event.cons (.opening name attributes) ((spelledAll children).foldr Event.cons (.closing name :: es)) = _
    rw [foldr_cons_spelledAll children _ hspaced hend]
    simp [Event.cons]

theorem foldr_cons_spelledAll : ∀ (is : List Markup) (es : List (Event Text)), Outline.AllSpaced (outlineAll is) →
    StartsNoText es → (spelledAll is).foldr Event.cons es = readingAll is ++ es
  | [], es, _, _ => by
    rw [spelledAll, readingAll]
    rfl
  | i :: is, es, hspaced, hes => by
    obtain ⟨hi, hbeside, his⟩ := allSpaced_outlineAll_cons.mp hspaced
    have hnext : i.isElement = true ∨ StartsNoText (readingAll is ++ es) := by
      refine hbeside.imp_right fun hhead => ?_
      cases is with
      | nil =>
        rw [readingAll]
        exact hes
      | cons j js =>
        have hj := hhead j rfl
        cases j with
        | text s => cases hj
        | element name attributes children =>
          rw [readingAll, reading]
          exact fun _ _ heq => nomatch heq
    rw [spelledAll, List.foldr_append, foldr_cons_spelledAll is es his hes, foldr_cons_spelled i _ hi hnext,
      readingAll, List.append_assoc]

end

mutual

theorem build?_reading : ∀ (i : Markup) (o : Open) (os : List Open) (es : List (Event Text)),
    build? (o :: os) (reading i ++ es) = build? ({ o with content := i :: o.content } :: os) es
  | .text s, o, os, es => by
    rw [reading, List.singleton_append, build?]
  | .element name attributes children, o, os, es => by
    rw [reading, List.cons_append, List.cons_append, build?, List.append_assoc,
      build?_readingAll children, List.singleton_append, build?]
    simp

theorem build?_readingAll : ∀ (is : List Markup) (o : Open) (os : List Open) (es : List (Event Text)),
    build? (o :: os) (readingAll is ++ es) = build? ({ o with content := is.reverse ++ o.content } :: os) es
  | [], o, os, es => by
    rw [readingAll]
    rfl
  | i :: is, o, os, es => by
    rw [readingAll, List.append_assoc, build?_reading i, build?_readingAll is]
    simp

end

theorem build?_root {i : Markup} (h : i.isElement = true) : build? [] (reading i) = some i := by
  cases i with
  | text s => cases h
  | element name attributes children =>
    rw [reading, List.cons_append, build?, build?_readingAll, build?]
    simp

end Item

theorem exists_name_start {name : Text} (h : IsNameRead name) : ∃ c s, name = c :: s ∧ isNameChar c = true := by
  have hrun {w : Text} (hw : IsRun w) : ∃ c s, w = c :: s ∧ isNameChar c = true := by
    obtain ⟨c, s, rfl⟩ := List.exists_cons_of_ne_nil hw.1
    exact ⟨c, s, rfl, hw.2 c List.mem_cons_self⟩
  cases h with
  | run h => exact hrun h
  | prefixed hp h =>
    obtain ⟨c, s, rfl, hc⟩ := hrun (isRun_of_isPlainName hp)
    exact ⟨c, _, rfl, hc⟩

theorem exists_write_start {i : Markup} (h : TagsNamed IsNameRead i.startTags) (helement : i.isElement = true) :
    ∃ c s, i.write = '<' :: c :: s ∧ isNameChar c = true := by
  cases i with
  | text s => cases helement
  | element name attributes children =>
    rw [Item.startTags] at h
    obtain ⟨c, s, rfl, hc⟩ := exists_name_start (List.forall_mem_cons.mp h).1.1
    rw [Item.write]
    split <;> exact ⟨c, _, rfl, hc⟩

theorem lift_some {α : Type} (a : α) : (liftM (some a) : Expansion α) = pure a :=
  rfl

theorem document_of_start {s t : Text} {c : Char} (hs : s = '<' :: c :: t) (hc : isNameChar c = true) :
    document s = (do
      let (events, rest) ← liftM (takeElement? s)
      guard (← liftM (skipMisc? (s.length + 1) rest)).isEmpty
      liftM (build? [] (← Doctype.content {} 1 [] events)) : Expansion Markup) := by
  have hdrop {m : Char} (hm : isNameChar m = false) (p : Text) : Text.dropPrefix? ('<' :: m :: p) s = none := by
    have hne : m ≠ c := by
      rintro rfl
      rw [hc] at hm
      cases hm
    rw [hs, Text.dropPrefix?, if_pos rfl, Text.dropPrefix?, if_neg hne]
  have hxml : Text.dropPrefix? "<?xml".toList s = none := hdrop (m := '?') rfl "xml".toList
  have hcomment : Text.dropPrefix? "<!--".toList s = none := hdrop (m := '!') rfl "--".toList
  have hinstruction : Text.dropPrefix? "<?".toList s = none := hdrop (m := '?') rfl []
  have htype : Text.dropPrefix? "<!DOCTYPE".toList s = none := hdrop (m := '!') rfl "DOCTYPE".toList
  have hdeclaration : takeXmlDeclaration? s = some (false, s) := by
    rw [takeXmlDeclaration?, hxml]
  have hmisc : skipMisc? (s.length + 1) s = some s := by
    have hspace : skipSpace s = s := by
      rw [hs]
      rfl
    rw [skipMisc?, hspace, hcomment, hinstruction]
  have hdoctype (d : Doctype) : Doctype.take d s = pure (d, s) := by
    rw [Doctype.take, htype]
  rw [document]
  simp only [hdeclaration, hmisc, lift_some, pure_bind, hdoctype]
  rfl

theorem content_events {i : Markup} (h : i.outline.Spaced) (helement : i.isElement = true) :
    Doctype.content {} 1 [] i.events = pure i.reading := by
  obtain ⟨chunks, hchunks, hflat⟩ := Item.sense_events (d := {}) ⟨rfl, rfl⟩ (Doctype.content {} 0) 0 [] i
  rw [Doctype.content, hchunks, pure_bind, hflat, Item.foldr_cons_spelled i [] h (.inl helement), List.append_nil]

theorem document_write {i : Markup} (h : i.WellFormed) (helement : i.isElement = true) :
    document i.write = pure i := by
  obtain ⟨hnamed, hspaced⟩ := i.sound_of_wellFormed h
  obtain ⟨c, s, hwrite, hc⟩ := exists_write_start hnamed helement
  have hnothing : skipMisc? (i.write.length + 1) [] = some [] := rfl
  rw [document_of_start hwrite hc]
  simp only [Item.takeElement?_write h helement, lift_some, pure_bind, hnothing]
  rw [List.isEmpty_nil, guard, if_pos rfl, pure_bind, content_events hspaced helement, pure_bind,
    Item.build?_root helement]
  rfl

theorem read?_write {i : Markup} (h : i.WellFormed) (helement : i.isElement = true) :
    read? i.write = some i.unified := by
  have hunified := i.wellFormed_unified h
  have helement' : i.unified.isElement = true := by rw [Item.isElement_unified, helement]
  have hends : Text.unifyLineEnds i.write = i.unified.write := by
    obtain ⟨hnamed, hspaced⟩ := i.sound_of_wellFormed h
    have hnil := Item.unifyLineEnds_write i [] hnamed hspaced (.inl helement)
    simpa [Text.unifyLineEnds] using hnil
  have hlegal : i.unified.write.all isLegal = true := List.all_eq_true.mpr (Item.legal_write i.unified hunified)
  have hmark : Text.dropPrefix? [Char.ofNat 0xFEFF] i.unified.write = none := by
    obtain ⟨c, s, hwrite, -⟩ := exists_write_start (i.unified.sound_of_wellFormed hunified).1 helement'
    rw [hwrite]
    rfl
  rw [read?, hends]
  simp only [guard, hlegal, if_true, hmark, Option.getD_none, document_write hunified helement']
  rfl

end Yuml.Xml
