import Mathlib.Data.List.Forall2
import Yuml.Drawing.Theme
import Yuml.Proofs.Icon.Swapping
import Yuml.Proofs.Text.Occurrences

namespace Yuml

def InkApart (v v' : Text) : Prop :=
  v = v' ∨ v = Theme.light.ink ∧ v' = Theme.dark.ink

namespace Text

inductive Apart : Text → Text → Prop
  | nil : Apart [] []
  | cons (c : Char) {s t : Text} (h : Apart s t) : Apart (c :: s) (c :: t)
  | ink {s t : Text} (h : Apart s t) : Apart (Theme.light.ink ++ s) (Theme.dark.ink ++ t)

namespace Apart

variable {s t : Text}

theorem refl (s : Text) : Apart s s := by
  induction s with
  | nil => exact .nil
  | cons c s ih => exact .cons c ih

theorem append {u v : Text} (h : Apart s t) (h' : Apart u v) : Apart (s ++ u) (t ++ v) := by
  induction h with
  | nil => exact h'
  | cons c _ ih => exact .cons c ih
  | ink _ ih =>
    rw [List.append_assoc, List.append_assoc]
    exact .ink ih

theorem prefix_iff {p : Text} (hp : '#' ∉ p) (h : Apart s t) : p <+: s ↔ p <+: t := by
  induction h generalizing p with
  | nil => exact Iff.rfl
  | cons c _ ih =>
    cases p with
    | nil => exact iff_of_true List.nil_prefix List.nil_prefix
    | cons d p =>
      rw [List.cons_prefix_cons, List.cons_prefix_cons, ih fun hmem => hp (List.mem_cons_of_mem d hmem)]
  | @ink s t _ _ =>
    cases p with
    | nil => exact iff_of_true List.nil_prefix List.nil_prefix
    | cons d p =>
      have hd : d ≠ '#' := fun heq => hp (heq ▸ List.mem_cons_self)
      have hfails (r : Text) : ¬ (d :: p) <+: '#' :: r := fun hprefix => hd (List.cons_prefix_cons.mp hprefix).1
      exact iff_of_false (hfails ("000000" ++ s)) (hfails ("e6e6e6" ++ t))

theorem occursIn_eq {d : Char} {p : Text} (hp : '#' ∉ d :: p) (hlight : d ∉ Theme.light.ink) (hdark : d ∉ Theme.dark.ink)
    (h : Apart s t) : occursIn (d :: p) s = occursIn (d :: p) t := by
  rw [Bool.eq_iff_iff, occursIn_iff, occursIn_iff]
  induction h with
  | nil => exact Iff.rfl
  | cons c h ih => rw [List.infix_cons_iff, List.infix_cons_iff, ih, (Apart.cons c h).prefix_iff hp]
  | ink _ ih => rw [infix_append_iff hlight, infix_append_iff hdark, ih]

theorem legal_iff (h : Apart s t) : Xml.Legal s ↔ Xml.Legal t := by
  have hlight : Xml.Legal Theme.light.ink := Xml.legal_of_all (by decide)
  have hdark : Xml.Legal Theme.dark.ink := Xml.legal_of_all (by decide)
  induction h with
  | nil => exact Iff.rfl
  | cons c _ ih => exact Xml.legal_cons_iff.trans ((and_congr_right fun _ => ih).trans Xml.legal_cons_iff.symm)
  | ink _ ih =>
    exact Xml.legal_append_iff.trans ((and_congr (iff_of_true hlight hdark) ih).trans Xml.legal_append_iff.symm)

end Apart

end Text

namespace Xml

section Items

variable {ν : Type}

def AttributeApart (paints : ν → Prop) (p q : ν × Text) : Prop :=
  p.1 = q.1 ∧ (p.2 = q.2 ∨ paints p.1 ∧ p.2 = Theme.light.ink ∧ q.2 = Theme.dark.ink)

inductive Item.Apart (paints : ν → Prop) : Item ν → Item ν → Prop
  | text (s : Text) : Item.Apart paints (.text s) (.text s)
  | element {name : ν} {a a' : List (ν × Text)} {children children' : List (Item ν)}
      (ha : List.Forall₂ (AttributeApart paints) a a') (hc : List.Forall₂ (Item.Apart paints) children children') :
      Item.Apart paints (.element name a children) (.element name a' children')

end Items

def paints (name : Text) : Prop :=
  name = "fill" ∨ name = "stroke"

def Name.paints (name : Name) : Prop :=
  name.space = none ∧ Xml.paints name.base

theorem writeAttributes_apart {a a' : Attributes} (h : List.Forall₂ (AttributeApart paints) a a') :
    Text.Apart (writeAttributes a) (writeAttributes a') := by
  have hinks : escapeAttribute Theme.light.ink = Theme.light.ink ∧ escapeAttribute Theme.dark.ink = Theme.dark.ink := by
    decide
  induction h with
  | nil => exact .nil
  | @cons p q a a' hpq _ ih =>
    have hvalue : Text.Apart (escapeAttribute p.2) (escapeAttribute q.2) := by
      rcases hpq.2 with heq | ⟨-, hlight, hdark⟩
      · rw [heq]
        exact .refl _
      · rw [hlight, hdark, hinks.1, hinks.2, ← List.append_nil Theme.light.ink, ← List.append_nil Theme.dark.ink]
        exact .ink .nil
    have hhead := ((Text.Apart.refl (' ' :: p.1 ++ "=\"".toList)).append hvalue).append (.refl ['"'])
    rw [writeAttributes, writeAttributes, List.flatMap_cons, List.flatMap_cons, ← hpq.1]
    exact hhead.append ih

namespace Item

mutual

theorem write_apart : ∀ i j : Markup, Apart paints i j → Text.Apart (write i) (write j)
  | .text s, _, .text _ => .refl _
  | .element name a [], _, .element ha .nil => by
    rw [write_nil, write_nil]
    exact .cons '<' ((Text.Apart.refl name).append ((writeAttributes_apart ha).append (.refl _)))
  | .element name a (i :: is), _, .element ha (.cons h hs) => by
    have hinside := writeAll_apart (i :: is) _ (.cons h hs)
    rw [write_cons, write_cons]
    exact .cons '<' ((Text.Apart.refl name).append ((writeAttributes_apart ha).append (.cons '>' (hinside.append (.refl _)))))

theorem writeAll_apart : ∀ is js : List Markup, List.Forall₂ (Apart paints) is js →
    Text.Apart (writeAll is) (writeAll js)
  | [], _, .nil => by
    exact .refl _
  | i :: is, _, .cons h hs => by
    rw [writeAll, writeAll]
    exact (write_apart i _ h).append (writeAll_apart is _ hs)

end

mutual

theorem unified_apart : ∀ i j : Markup, Apart paints i j → Apart paints (unified i) (unified j)
  | .text s, _, .text _ => .text _
  | .element name a children, _, .element ha hc => by
    rw [unified, unified]
    exact .element ha (unifiedAll_apart children _ hc)

theorem unifiedAll_apart : ∀ is js : List Markup, List.Forall₂ (Apart paints) is js →
    List.Forall₂ (Apart paints) (unifiedAll is) (unifiedAll js)
  | [], _, .nil => by
    rw [unifiedAll]
    exact .nil
  | i :: is, _, .cons h hs => by
    rw [unifiedAll, unifiedAll]
    exact .cons (unified_apart i _ h) (unifiedAll_apart is _ hs)

end

mutual

theorem inSpace_apart (space : Text) : ∀ i j : Markup, Apart paints i j →
    Apart Name.paints (inSpace space i) (inSpace space j)
  | .text s, _, .text _ => by
    rw [inSpace]
    exact .text _
  | .element name a children, _, .element ha hc => by
    rw [inSpace, inSpace]
    refine .element ?_ (inSpaceAll_apart space children _ hc)
    refine List.forall₂_map_left_iff.mpr (List.forall₂_map_right_iff.mpr (ha.imp fun p q hpq => ?_))
    exact ⟨congrArg (Name.mk none) hpq.1, hpq.2.imp_right fun h => ⟨⟨rfl, h.1⟩, h.2⟩⟩

theorem inSpaceAll_apart (space : Text) : ∀ is js : List Markup, List.Forall₂ (Apart paints) is js →
    List.Forall₂ (Apart Name.paints) (inSpaceAll space is) (inSpaceAll space js)
  | [], _, .nil => by
    rw [inSpaceAll]
    exact .nil
  | i :: is, _, .cons h hs => by
    rw [inSpaceAll, inSpaceAll]
    exact .cons (inSpace_apart space i _ h) (inSpaceAll_apart space is _ hs)

end

mutual

theorem swapImages_apart {f f' : Attributes → Markup}
    (hf : ∀ a a', List.Forall₂ (AttributeApart paints) a a' → Apart paints (f a) (f' a')) :
    ∀ i j : Markup, Apart paints i j → Apart paints (swapImages f i) (swapImages f' j)
  | .text s, _, .text _ => by
    rw [swapImages, swapImages]
    exact .text s
  | .element name a children, _, .element ha hc => by
    rw [swapImages, swapImages]
    split
    · exact hf _ _ ha
    · exact .element ha (swapAllImages_apart hf children _ hc)

theorem swapAllImages_apart {f f' : Attributes → Markup}
    (hf : ∀ a a', List.Forall₂ (AttributeApart paints) a a' → Apart paints (f a) (f' a')) :
    ∀ is js : List Markup, List.Forall₂ (Apart paints) is js →
      List.Forall₂ (Apart paints) (swapAllImages f is) (swapAllImages f' js)
  | [], _, .nil => by
    rw [swapAllImages, swapAllImages]
    exact .nil
  | i :: is, _, .cons h hs => by
    rw [swapAllImages, swapAllImages]
    exact .cons (swapImages_apart hf i _ h) (swapAllImages_apart hf is _ hs)

end

end Item

theorem Item.apart_same {ν : Type} (paints : ν → Prop) : ∀ i : Item ν, Item.Apart paints i i
  | .text s => .text s
  | .element name a children => .element (List.forall₂_same.mpr fun _ _ => ⟨rfl, .inl rfl⟩)
      (List.forall₂_same.mpr fun i _ => apart_same paints i)

/-- Texts that are one, or are written of pieces that differ in nothing but ink, and are read as such trees, or
neither of them is read. -/
structure SvgApart (svg svg' : Text) : Prop where
  written : svg = svg' ∨ ∃ m m' : Markup, Item.Apart paints m m' ∧ svg = m.write ∧ svg' = m'.write
  read : Option.Rel (Item.Apart Name.paints) (readTree? svg) (readTree? svg')

theorem SvgApart.refl (svg : Text) : SvgApart svg svg := by
  refine ⟨.inl rfl, ?_⟩
  cases readTree? svg with
  | none => exact .none
  | some t => exact .some (Item.apart_same _ t)

end Xml

end Yuml
