import Yuml.Proofs.Text.Occurrences
import Yuml.Proofs.Xml.Rereading

namespace Yuml.Xml

def Name.IsRead (n : Name) : Prop :=
  IsRun n.base

theorem colon_not_mem_run {w : Text} (h : IsRun w) : ':' ∉ w :=
  fun hmem => absurd (h.2 ':' hmem) (by decide)

namespace Scope

theorem isRead_resolve? {scope : Scope} {isAttribute : Bool} {name : Text} {n : Name} (h : IsNameRead name)
    (hn : scope.resolve? isAttribute name = some n) : n.IsRead := by
  cases h with
  | run h =>
    have hbreak : Text.breakOn ":".toList name = (name, none) := breakOn_of_not_mem (colon_not_mem_run h)
    rw [resolve?, hbreak] at hn
    dsimp only at hn
    split at hn
    · cases hn
      exact h
    · obtain ⟨space, -, rfl⟩ := Option.map_eq_some_iff.mp hn
      exact h
  | @prefixed p w hp h =>
    have hbreak : Text.breakOn ":".toList (p ++ ':' :: w) = (p, some w) := Text.breakOn_append (colon_not_mem_name hp) [] w
    rw [resolve?, hbreak] at hn
    obtain ⟨space, -, rfl⟩ := Option.map_eq_some_iff.mp hn
    exact h

theorem isRead_attributes? {scope : Scope} {a : Attributes} {named : List (Name × Text)}
    (h : ∀ p ∈ a, IsNameRead p.1) (hnamed : scope.attributes? a = some named) : ∀ p ∈ named, p.1.IsRead := by
  obtain ⟨found, hfound, hnamed⟩ := Option.bind_eq_some_iff.mp hnamed
  obtain ⟨-, hnamed⟩ := guard_bind_eq_some.mp hnamed
  cases hnamed
  refine Option.forall_mem_of_mapM hfound fun p hp q hq => ?_
  obtain ⟨n, hn, hq⟩ := Option.bind_eq_some_iff.mp hq
  cases hq
  exact isRead_resolve? (h p (List.mem_of_mem_filter hp)) hn

end Scope

mutual

theorem resolve?_sound : ∀ (m : Markup) (scope : Scope) (t : Tree), resolve? scope m = some t →
    TagsNamed IsNameRead m.startTags → t.outline = m.outline ∧ TagsNamed Name.IsRead t.startTags
  | .text s, scope, t, h, _ => by
    rw [resolve?] at h
    cases h
    rw [Item.outline, Item.outline, Item.startTags]
    exact ⟨rfl, List.forall_mem_nil _⟩
  | .element name attributes children, scope, t, h, hnamed => by
    rw [Item.startTags] at hnamed
    obtain ⟨⟨hname, hattributes⟩, hchildren⟩ := List.forall_mem_cons.mp hnamed
    rw [resolve?] at h
    obtain ⟨inner, -, h⟩ := Option.bind_eq_some_iff.mp h
    obtain ⟨n, hn, h⟩ := Option.bind_eq_some_iff.mp h
    obtain ⟨a, ha, h⟩ := Option.bind_eq_some_iff.mp h
    obtain ⟨ts, hts, h⟩ := Option.bind_eq_some_iff.mp h
    cases h
    obtain ⟨houtline, hinside⟩ := resolveAll?_sound children inner ts hts hchildren
    rw [Item.outline, Item.outline, houtline, Item.startTags]
    exact ⟨rfl, List.forall_mem_cons.mpr
      ⟨⟨Scope.isRead_resolve? hname hn, Scope.isRead_attributes? hattributes ha⟩, hinside⟩⟩

theorem resolveAll?_sound : ∀ (ms : List Markup) (scope : Scope) (ts : List Tree), resolveAll? scope ms = some ts →
    TagsNamed IsNameRead (Item.startTagsAll ms) →
    Item.outlineAll ts = Item.outlineAll ms ∧ TagsNamed Name.IsRead (Item.startTagsAll ts)
  | [], scope, ts, h, _ => by
    rw [resolveAll?] at h
    cases h
    rw [Item.outlineAll, Item.outlineAll, Item.startTagsAll]
    exact ⟨rfl, List.forall_mem_nil _⟩
  | m :: ms, scope, ts, h, hnamed => by
    rw [Item.startTagsAll] at hnamed
    obtain ⟨hm, hms⟩ := List.forall_mem_append.mp hnamed
    rw [resolveAll?] at h
    obtain ⟨t, ht, h⟩ := Option.bind_eq_some_iff.mp h
    obtain ⟨ts, hts, h⟩ := Option.bind_eq_some_iff.mp h
    cases h
    obtain ⟨hfirst, htags⟩ := resolve?_sound m scope t ht hm
    obtain ⟨hrest, htags'⟩ := resolveAll?_sound ms scope ts hts hms
    rw [Item.outlineAll, Item.outlineAll, hfirst, hrest, Item.startTagsAll]
    exact ⟨rfl, List.forall_mem_append.mpr ⟨htags, htags'⟩⟩

end

theorem readTree?_sound {source : Text} {t : Tree} (h : readTree? source = some t) :
    t.isElement = true ∧ TagsNamed Name.IsRead t.startTags ∧ t.outline.Spaced := by
  obtain ⟨m, hm, ht⟩ := Option.bind_eq_some_iff.mp h
  obtain ⟨helement, hnamed, hspaced⟩ := read?_sound hm
  obtain ⟨houtline, htags⟩ := resolve?_sound m _ t ht hnamed
  refine ⟨?_, htags, houtline ▸ hspaced⟩
  rw [← Item.isElement_outline, houtline, Item.isElement_outline, helement]

namespace Scope

def IsPlain (scope : Scope) : Prop :=
  ∀ p ∈ scope, p.1 = [] ∨ isPlainName p.1 = true

theorem prefixOf?_plain {scope : Scope} (h : scope.IsPlain) {space pre : Text} (hpre : scope.prefixOf? space = some pre) :
    pre = [] ∨ isPlainName pre = true := by
  obtain ⟨p, hp, rfl⟩ := Option.map_eq_some_iff.mp hpre
  exact h p (List.mem_of_find?_eq_some hp)

theorem isPlain_wellKnown : IsPlain wellKnown := by
  unfold IsPlain
  decide

theorem isNameChar_of_isDigit {c : Char} (h : c.isDigit = true) : isNameChar c = true := by
  have hascii : c.toNat < 128 := by
    simp only [Char.isDigit, Bool.and_eq_true, decide_eq_true_eq, UInt32.le_iff_toNat_le] at h
    have hmax : c.toNat ≤ 57 := h.2
    omega
  rw [isNameChar, if_pos hascii, Char.isAlphanum, h]
  simp

theorem isPlainName_numbered (n : Nat) : isPlainName ("ns".toList ++ Text.ofNat n) = true := by
  have hdigits : ∀ c ∈ Text.ofNat n, isNameChar c = true := fun c hc =>
    isNameChar_of_isDigit (Text.isDigit_of_mem_ofNat hc)
  have hstart : isPlainName ('n' :: 's' :: Text.ofNat n) = true := by
    rw [isPlainName, List.all_cons, List.all_eq_true.mpr hdigits]
    decide
  exact hstart

theorem cover_plain {scope : Scope} (h : scope.IsPlain) (name : Name) : (scope.cover name).IsPlain := by
  unfold cover
  split
  · exact h
  · split
    · exact h
    · refine List.forall_mem_append.mpr ⟨h, List.forall_mem_singleton.mpr ?_⟩
      dsimp only
      cases hpre : wellKnown.prefixOf? _ with
      | none => exact .inr (isPlainName_numbered _)
      | some pre => exact prefixOf?_plain isPlain_wellKnown hpre

theorem coverAll_plain {scope : Scope} (h : scope.IsPlain) (a : List (Name × Text)) :
    IsPlain (a.foldl (fun s p => s.cover p.1) scope) :=
  List.foldlRecOn (motive := IsPlain) a _ h fun _ h _ _ => cover_plain h _

mutual

theorem coverItem_plain : ∀ (t : Tree) (scope : Scope), scope.IsPlain → (scope.coverItem t).IsPlain
  | .text s, scope, h => by
    rw [coverItem]
    exact h
  | .element name attributes children, scope, h => by
    rw [coverItem]
    exact coverItems_plain children _ (coverAll_plain (cover_plain h name) attributes)

theorem coverItems_plain : ∀ (ts : List Tree) (scope : Scope), scope.IsPlain → (scope.coverItems ts).IsPlain
  | [], scope, h => by
    rw [coverItems]
    exact h
  | t :: ts, scope, h => by
    rw [coverItems]
    exact coverItems_plain ts _ (coverItem_plain t scope h)

end

theorem qualify_read {scope : Scope} (h : scope.IsPlain) {name : Name} (hname : name.IsRead) :
    IsNameRead (scope.qualify name) := by
  have hpre {pre : Text} (hpre : pre = [] ∨ isPlainName pre = true) :
      IsNameRead (if pre.isEmpty then name.base else pre ++ ':' :: name.base) := by
    split
    · exact .run hname
    · next hne => exact .prefixed (hpre.resolve_left fun heq => hne (heq ▸ rfl)) hname
  unfold qualify
  split
  · exact .run hname
  · next space _ =>
    refine hpre ?_
    split
    · exact .inr (by decide)
    · cases hfound : scope.prefixOf? space with
      | none => exact .inl rfl
      | some pre => exact prefixOf?_plain h hfound

mutual

theorem markup_sound {scope : Scope} (h : scope.IsPlain) : ∀ t : Tree, TagsNamed Name.IsRead t.startTags →
    (scope.markup t).outline = t.outline ∧ TagsNamed IsNameRead (scope.markup t).startTags
  | .text s, _ => by
    rw [markup, Item.outline, Item.outline, Item.startTags]
    exact ⟨rfl, List.forall_mem_nil _⟩
  | .element name attributes children, hnamed => by
    rw [Item.startTags] at hnamed
    obtain ⟨⟨hname, hattributes⟩, hchildren⟩ := List.forall_mem_cons.mp hnamed
    obtain ⟨houtline, hinside⟩ := markups_sound h children hchildren
    rw [markup, Item.outline, Item.outline, houtline, Item.startTags]
    refine ⟨rfl, List.forall_mem_cons.mpr ⟨⟨qualify_read h hname, fun p hp => ?_⟩, hinside⟩⟩
    obtain ⟨q, hq, rfl⟩ := List.mem_map.mp hp
    exact qualify_read h (hattributes q hq)

theorem markups_sound {scope : Scope} (h : scope.IsPlain) : ∀ ts : List Tree,
    TagsNamed Name.IsRead (Item.startTagsAll ts) → Item.outlineAll (scope.markups ts) = Item.outlineAll ts ∧
      TagsNamed IsNameRead (Item.startTagsAll (scope.markups ts))
  | [], _ => by
    rw [markups, Item.outlineAll, Item.outlineAll, Item.startTagsAll]
    exact ⟨rfl, List.forall_mem_nil _⟩
  | t :: ts, hnamed => by
    rw [Item.startTagsAll] at hnamed
    obtain ⟨ht, hts⟩ := List.forall_mem_append.mp hnamed
    obtain ⟨hfirst, htags⟩ := markup_sound h t ht
    obtain ⟨hrest, htags'⟩ := markups_sound h ts hts
    rw [markups, Item.outlineAll, Item.outlineAll, hfirst, hrest, Item.startTagsAll]
    exact ⟨rfl, List.forall_mem_append.mpr ⟨htags, htags'⟩⟩

end

theorem declarations_read {scope : Scope} (h : scope.IsPlain) : ∀ p ∈ scope.declarations, IsNameRead p.1 := by
  intro p hp
  obtain ⟨q, hq, rfl⟩ := List.mem_map.mp hp
  have hplain : isPlainName "xmlns".toList = true := by decide
  dsimp only
  split
  · exact .run (isRun_of_isPlainName hplain)
  · next hne =>
    have hq := (h q (List.mem_mergeSort.mp hq)).resolve_left fun heq => hne (heq ▸ rfl)
    exact .prefixed hplain (isRun_of_isPlainName hq)

end Scope

theorem toMarkup_sound {t : Tree} (h : TagsNamed Name.IsRead t.startTags) :
    t.toMarkup.outline = t.outline ∧ TagsNamed IsNameRead t.toMarkup.startTags := by
  have hscope : Scope.IsPlain (Scope.coverItem [] t) := Scope.coverItem_plain t [] (List.forall_mem_nil _)
  obtain ⟨houtline, hnamed⟩ := Scope.markup_sound hscope t h
  unfold Tree.toMarkup
  dsimp only
  cases hmarkup : Scope.markup (Scope.coverItem [] t) t with
  | text s =>
    rw [hmarkup] at houtline hnamed
    exact ⟨houtline, hnamed⟩
  | element name attributes children =>
    rw [hmarkup, Item.outline] at houtline
    rw [hmarkup, Item.startTags] at hnamed
    obtain ⟨⟨hname, hattributes⟩, hinside⟩ := List.forall_mem_cons.mp hnamed
    rw [Item.outline, Item.startTags]
    refine ⟨houtline, List.forall_mem_cons.mpr ⟨⟨hname, ?_⟩, hinside⟩⟩
    exact List.forall_mem_append.mpr ⟨Scope.declarations_read hscope, hattributes⟩

theorem outline_of_readTree?_written {t t' : Tree} (hnamed : TagsNamed Name.IsRead t.startTags)
    (hspaced : t.outline.Spaced) (helement : t.isElement = true) (h : readTree? t.toMarkup.write = some t') :
    t'.outline = t.outline.unified := by
  obtain ⟨houtline, hmarkup⟩ := toMarkup_sound hnamed
  have helement' : t.toMarkup.isElement = true := by
    rw [← Item.isElement_outline, houtline, Item.isElement_outline, helement]
  obtain ⟨m, hm, ht'⟩ := Option.bind_eq_some_iff.mp h
  obtain rfl := read?_written hmarkup (houtline.symm ▸ hspaced) helement' hm
  have hunified : TagsNamed IsNameRead t.toMarkup.unified.startTags := by rwa [Item.startTags_unified]
  rw [(resolve?_sound _ _ t' ht' hunified).1, Item.outline_unified, houtline]

end Yuml.Xml
