import Yuml.Proofs.Xml.Expansion
import Yuml.Proofs.Xml.Outline

namespace Yuml.Xml

namespace Event

def AllSpaced : List (Event Text) → Prop
  | [] => True
  | e :: es => e ≠ .text [] ∧ ((∀ s, e ≠ .text s) ∨ Item.StartsNoText es) ∧ AllSpaced es

theorem allSpaced_cons {es : List (Event Text)} (h : AllSpaced es) (e : Event Text) : AllSpaced (Event.cons e es) := by
  fun_cases Event.cons e es with
  | case1 s t es =>
    obtain ⟨hne, hbeside, hes⟩ := h
    refine ⟨fun heq => hne ?_, .inr (hbeside.resolve_left fun hno => hno t rfl), hes⟩
    rw [(List.append_eq_nil_iff.mp (Event.text.inj heq)).2]
  | case2 => exact h
  | case3 _ _ hboth hempty =>
    refine ⟨hempty, ?_, h⟩
    cases e with
    | text s => exact .inr fun t fs heq => hboth s t fs rfl heq
    | opening name attributes => exact .inl (by simp)
    | closing name => exact .inl (by simp)

theorem allSpaced_content (d : Doctype) (depth : Nat) (opened : List Text) (events : RawEvents) :
    Expansion.Gives AllSpaced (d.content depth opened events) := by
  cases depth with
  | zero => exact .failure
  | succ depth =>
    rw [Doctype.content]
    refine .step fun ess => .pure ?_
    exact List.foldrRecOn (motive := AllSpaced) ess.flatten Event.cons trivial fun es hes e _ => allSpaced_cons hes e

end Event

structure Open.Sound (o : Open) : Prop where
  name : IsNameRead o.name
  attributes : ∀ p ∈ o.attributes, IsNameRead p.1
  content : ∀ i ∈ o.content, TagsNamed IsNameRead i.startTags
  spaced : Outline.AllSpaced (Item.outlineAll o.content.reverse)

namespace Open.Sound

theorem start {name : Text} {attributes : Attributes}
    (h : (Event.opening name attributes : Event Text).Named) : Open.Sound ⟨name, attributes, []⟩ :=
  ⟨h.1, h.2, List.forall_mem_nil _, trivial⟩

theorem add {o : Open} (h : o.Sound) {i : Markup} (hi : TagsNamed IsNameRead i.startTags) (hspaced : i.outline.Spaced)
    (hbeside : i.isElement = true ∨ ∀ j ∈ o.content.head?, j.isElement = true) :
    Open.Sound { o with content := i :: o.content } := by
  refine ⟨h.name, h.attributes, List.forall_mem_cons.mpr ⟨hi, h.content⟩, ?_⟩
  have hlast : ∀ p ∈ (Item.outlineAll o.content.reverse).getLast?, i.isElement = true ∨ p.isElement = true := by
    rw [Item.outlineAll_eq_map, List.map_reverse, List.getLast?_reverse, List.head?_map]
    intro p hp
    obtain ⟨j, hj, rfl⟩ := Option.map_eq_some_iff.mp hp
    rw [Item.isElement_outline]
    exact hbeside.imp_right fun h => h j hj
  rw [List.reverse_cons, Item.outlineAll_eq_map, List.map_append, ← Item.outlineAll_eq_map, List.map_singleton]
  refine Outline.allSpaced_append_singleton h.spaced hspaced ?_
  rw [Item.isElement_outline]
  by_cases helement : i.isElement = true
  · exact .inl helement
  · exact .inr fun p hp => (hlast p hp).resolve_left helement

theorem named {o : Open} (h : o.Sound) :
    TagsNamed IsNameRead (Item.element o.name o.attributes o.content.reverse).startTags := by
  rw [Item.startTags, Item.startTagsAll_eq_flatMap]
  refine List.forall_mem_cons.mpr ⟨⟨h.name, h.attributes⟩, fun t ht => ?_⟩
  obtain ⟨i, hi, ht⟩ := List.mem_flatMap.mp ht
  exact h.content i (List.mem_reverse.mp hi) t ht

theorem outline_spaced {o : Open} (h : o.Sound) :
    (Item.element o.name o.attributes o.content.reverse).outline.Spaced := by
  rw [Item.outline]
  exact h.spaced

end Open.Sound

theorem build?_sound {os : List Open} {events : List (Event Text)} {m : Markup} (h : build? os events = some m)
    (hnamed : ∀ e ∈ events, e.Named) (hspaced : Event.AllSpaced events) (hos : ∀ o ∈ os, o.Sound)
    (hhead : ∀ o ∈ os.head?, ∀ i ∈ o.content.head?, i.isElement = true ∨ Item.StartsNoText events) :
    m.isElement = true ∧ TagsNamed IsNameRead m.startTags ∧ m.outline.Spaced := by
  fun_induction build? os events with
  | case1 name attributes events ih | case2 o os name attributes events ih =>
    obtain ⟨hopening, hnamed⟩ := List.forall_mem_cons.mp hnamed
    exact ih h hnamed hspaced.2.2 (List.forall_mem_cons.mpr ⟨.start hopening, hos⟩) (by simp)
  | case3 o os s events ih =>
    obtain ⟨ho, hos⟩ := List.forall_mem_cons.mp hos
    have hnext : Item.StartsNoText events := hspaced.2.1.resolve_left fun hno => hno s rfl
    have hbeside : ∀ j ∈ o.content.head?, j.isElement = true := fun j hj =>
      (hhead o rfl j hj).resolve_right fun hno => hno s events rfl
    have hadded := ho.add (i := .text s) (List.forall_mem_nil _) (fun hs => hspaced.1 (hs ▸ rfl)) (.inr hbeside)
    exact ih h (List.forall_mem_cons.mp hnamed).2 hspaced.2.2 (List.forall_mem_cons.mpr ⟨hadded, hos⟩)
      (by simpa using .inr hnext)
  | case4 o =>
    obtain ⟨ho, -⟩ := List.forall_mem_cons.mp hos
    obtain rfl := Option.some.inj h
    exact ⟨rfl, ho.named, ho.outline_spaced⟩
  | case5 o events done outer os ih =>
    obtain ⟨ho, houter, hos⟩ : o.Sound ∧ outer.Sound ∧ ∀ p ∈ os, p.Sound := by simpa using hos
    have hadded := houter.add ho.named ho.outline_spaced (.inl rfl)
    exact ih h (List.forall_mem_cons.mp hnamed).2 hspaced.2.2 (List.forall_mem_cons.mpr ⟨hadded, hos⟩)
      (by simp [done, Item.isElement])
  | case6 | case7 | case8 => cases h

theorem document_sound (s : Text) :
    Expansion.Gives (fun m => m.isElement = true ∧ TagsNamed IsNameRead m.startTags ∧ m.outline.Spaced) (document s) := by
  unfold document
  have hbare (standsAlone : Bool) : Doctype.Named { standsAlone } := List.forall_mem_nil _
  refine .step fun _ => .step fun _ => .bind (Doctype.take_named (hbare _) _) fun d hd => ?_
  refine .step fun _ => .bind (.lift fun r hr => takeElement?_named (r := r.2) hr) fun events hevents => ?_
  refine .step fun _ => .step fun _ => ?_
  have hnamed := Doctype.content_named hd d.1.depth [] hevents
  have hspaced := Event.allSpaced_content d.1 d.1.depth [] events.1
  refine .bind (fun left es left' hrun => And.intro (hnamed left es left' hrun) (hspaced left es left' hrun)) fun es hes => ?_
  exact .lift fun m hm => build?_sound hm hes.1 hes.2 (List.forall_mem_nil _) (by simp)

theorem read?_sound {source : Text} {m : Markup} (h : read? source = some m) :
    m.isElement = true ∧ TagsNamed IsNameRead m.startTags ∧ m.outline.Spaced := by
  obtain ⟨-, h⟩ := guard_bind_eq_some.mp h
  obtain ⟨⟨m, left⟩, hrun, h⟩ := Option.map_eq_some_iff.mp h
  cases h
  exact document_sound _ _ m left hrun

end Yuml.Xml
