import Yuml.Proofs.Icon.Swapping

namespace Yuml.IconLibrary

open Xml
open Item (inSpace inSpaceAll swapImages swapAllImages Tidy TidyAll hasName named)

mutual

/-- Two trees one of which has an icon where the other asks for that of an actor: in the same place, moved to the
box of the element that asks and scaled to it. Nothing else in them differs. -/
inductive Inlined (icon : Icon) (ink : Text) : Tree → Tree → Prop
  | text (s : Text) : Inlined icon ink (.text s) (.text s)
  | element {name : Name} {attributes : List (Name × Text)} {children children' : List Tree}
      (hwanted : wanted? name attributes = none) (hchildren : InlinedAll icon ink children children') :
      Inlined icon ink (.element name attributes children) (.element name attributes children')
  | placeholder {name : Name} {attributes : List (Name × Text)} {children : List Tree} {f : Icon.Frame}
      (hwanted : wanted? name attributes = some "actor".toList) (hframe : f.Reads attributes) :
      Inlined icon ink (.element name attributes children) (icon.placed f ink)

inductive InlinedAll (icon : Icon) (ink : Text) : List Tree → List Tree → Prop
  | nil : InlinedAll icon ink [] []
  | cons {t t' : Tree} {ts ts' : List Tree} (h : Inlined icon ink t t') (hs : InlinedAll icon ink ts ts') :
      InlinedAll icon ink (t :: ts) (t' :: ts')

end

def asked? : Tree → Option Text
  | .element name attributes _ => wanted? name attributes
  | .text _ => none

def placeholders (t : Tree) : List Tree :=
  (Item.elements t).filter fun e => (asked? e).isSome

def holds (icon : Icon) : Tree → Bool
  | .element name _ children => name = ⟨some svgSpace, "g"⟩ ∧ children = icon.children
  | .text _ => false

def iconGroups (icon : Icon) (t : Tree) : List Tree :=
  (Item.elements t).filter (holds icon)

theorem wanted?_other {name : Text} (h : name ≠ "image".toList) (a : List (Name × Text)) :
    wanted? ⟨some svgSpace, name⟩ a = none :=
  if_neg fun heq => h (congrArg Name.base heq)

theorem asked?_other {e : Markup} (h : hasName "image" e = false) : asked? (inSpace svgSpace e) = none := by
  cases e with
  | text s =>
    rw [inSpace]
    rfl
  | element name attributes children =>
    rw [inSpace]
    exact wanted?_other (of_decide_eq_false h) _

theorem asked?_image {e : Markup} (h : Tidy e) (himage : hasName "image" e = true) :
    asked? (inSpace svgSpace e) = some "actor".toList := by
  cases e with
  | text s => cases himage
  | element name attributes children =>
    have hname : name = "image".toList := of_decide_eq_true himage
    obtain ⟨-, x, y, w, k, rfl⟩ := h.1 hname
    subst hname
    rfl

mutual

theorem tidy_of_mem_elements : ∀ i : Markup, Tidy i → ∀ e ∈ Item.elements i, Tidy e
  | .text s, _ => by
    rw [Item.elements]
    exact fun _ he => nomatch he
  | .element name attributes children, h => by
    rw [Item.elements]
    exact List.forall_mem_cons.mpr ⟨h, tidy_of_mem_elementsAll children h.2⟩

theorem tidy_of_mem_elementsAll : ∀ is : List Markup, TidyAll is → ∀ e ∈ Item.elementsAll is, Tidy e
  | [], _ => by
    rw [Item.elementsAll]
    exact fun _ he => nomatch he
  | i :: is, ⟨hi, _, his⟩ => by
    rw [Item.elementsAll]
    exact List.forall_mem_append.mpr ⟨tidy_of_mem_elements i hi, tidy_of_mem_elementsAll is his⟩

end

theorem placeholders_inSpace {i : Markup} (h : Tidy i) :
    placeholders (inSpace svgSpace i) = (named "image" i).map (inSpace svgSpace) := by
  rw [placeholders, Item.elements_inSpace, List.filter_map, named]
  refine congrArg (List.map _) (List.filter_congr fun e he => ?_)
  cases himage : hasName "image".toList e with
  | false => exact congrArg Option.isSome (asked?_other himage)
  | true => exact congrArg Option.isSome (asked?_image (tidy_of_mem_elements i h e he) himage)

theorem placeholders_of_no_image {i : Markup} (h : named "image" i = []) : placeholders (inSpace svgSpace i) = [] := by
  rw [placeholders, Item.elements_inSpace, List.filter_map]
  refine List.map_eq_nil_iff.mpr (List.filter_eq_nil_iff.mpr fun e he => ?_)
  have hother : hasName "image".toList e = false := Bool.eq_false_iff.mpr (List.filter_eq_nil_iff.mp h e he)
  rw [Function.comp_apply, asked?_other hother]
  exact Bool.false_ne_true

section

variable {icon : Icon} {figure : List Markup} (hfigure : icon.children = inSpaceAll svgSpace figure) (ink : Text)

include hfigure

theorem inSpace_iconGroup (a : Attributes) :
    inSpace svgSpace (iconGroup icon figure ink a) = icon.placed (.of a) ink := by
  rw [iconGroup, Item.tag, inSpace, ← hfigure]
  rfl

end

mutual

theorem inlined_swapImages {icon : Icon} {figure : List Markup} (hfigure : icon.children = inSpaceAll svgSpace figure)
    (ink : Text) : ∀ i : Markup, Tidy i →
    Inlined icon ink (inSpace svgSpace i) (inSpace svgSpace (swapImages (iconGroup icon figure ink) i))
  | .text s, _ => by
    rw [swapImages, inSpace]
    exact .text s
  | .element name attributes children, ⟨himage, hchildren⟩ => by
    rw [swapImages, inSpace]
    split
    · next hname =>
      obtain ⟨-, x, y, w, k, rfl⟩ := himage hname
      rw [hname, inSpace_iconGroup hfigure]
      exact .placeholder rfl (Icon.Frame.reads_placeholder x y w k)
    · next hname =>
      rw [inSpace]
      exact .element (wanted?_other hname _) (inlined_swapAllImages hfigure ink children hchildren)

theorem inlined_swapAllImages {icon : Icon} {figure : List Markup}
    (hfigure : icon.children = inSpaceAll svgSpace figure) (ink : Text) : ∀ is : List Markup, TidyAll is →
    InlinedAll icon ink (inSpaceAll svgSpace is) (inSpaceAll svgSpace (swapAllImages (iconGroup icon figure ink) is))
  | [], _ => by
    rw [swapAllImages, inSpaceAll]
    exact .nil
  | i :: is, ⟨hi, _, his⟩ => by
    rw [swapAllImages, inSpaceAll, inSpaceAll]
    exact .cons (inlined_swapImages hfigure ink i hi) (inlined_swapAllImages hfigure ink is his)

end

theorem legal_transform (icon : Icon) (f : Icon.Frame) : Legal (icon.transform f) := by
  have hpair (x y : Float) {s t : Text} (hs : Legal s) (ht : Legal t) :
      Legal (s ++ Number.fmt x ++ ',' :: Number.fmt y ++ t) :=
    legal_append (legal_append (legal_append hs (legal_fmt x)) (List.forall_mem_cons.mpr ⟨rfl, legal_fmt y⟩)) ht
  exact hpair _ _ (hpair _ _ (legal_of_all (by decide)) (legal_of_all (by decide))) (legal_of_all (by decide))

theorem wellFormed_groupAttributes (icon : Icon) (f : Icon.Frame) {ink : Text} (hink : Legal ink) :
    Attributes.WellFormed (groupAttributes (icon.transform f) ink) :=
  Pen.wellFormed_attributes rfl (Pen.values_cons (legal_transform icon f)
    (Pen.values_cons (legal_of_all (by decide)) (Pen.values_cons hink Pen.values_nil)))

theorem allWellFormed_actorFigure : Item.AllWellFormed actorFigure := by
  have hhead : Pen.Drawn Legal (.tag "circle" [("cx", "15"), ("cy", "6"), ("r", "5")]) :=
    .mark (Pen.isMark_tag (by decide) (by decide) rfl (Pen.values_cons (legal_of_all (by decide))
      (Pen.values_cons (legal_of_all (by decide)) (Pen.values_cons (legal_of_all (by decide)) Pen.values_nil))))
  have hbody : Pen.Drawn Legal (.tag "path" [("d", "M15 11 L15 26 M4 16 L26 16 M15 26 L6 38 M15 26 L24 38")]) :=
    .mark (Pen.isMark_tag (by decide) (by decide) rfl
      (Pen.values_cons (legal_of_all (by decide)) Pen.values_nil))
  have hbreak : Item.WellFormed (.text "\n") := ⟨List.cons_ne_nil _ _, legal_of_all (by decide)⟩
  have hindent : Item.WellFormed (.text "\n  ") := ⟨List.cons_ne_nil _ _, legal_of_all (by decide)⟩
  exact ⟨(Pen.wellFormed_of_drawn hhead).1, .inl rfl, hindent, .inr fun _ hj => Option.some.inj hj ▸ rfl,
    (Pen.wellFormed_of_drawn hbody).1, .inl rfl, hbreak, .inr fun _ hj => (nomatch hj), trivial⟩

section Actor

variable (icon : Icon) {ink : Text} (hink : Legal ink) (a : Attributes)

include hink in
theorem wellFormed_actorGroup : (iconGroup icon actorFigure ink a).WellFormed :=
  ⟨by decide, wellFormed_groupAttributes icon _ hink, allWellFormed_actorFigure⟩

theorem unified_actorGroup : Item.unified (iconGroup icon actorFigure ink a) = iconGroup icon actorFigure ink a :=
  rfl

theorem images_actorGroup : named "image" (iconGroup icon actorFigure ink a) = [] :=
  rfl

theorem declaresNoSpace_actorGroup : Item.DeclaresNoSpace (Item.startTags (iconGroup icon actorFigure ink a)) := by
  have hown : ∀ n ∈ ["transform".toList, "fill".toList, "stroke".toList], n ≠ "xmlns".toList := by decide
  have hfigure : ∀ t ∈ Item.startTagsAll actorFigure, ∀ p ∈ t.2, p.1 ≠ "xmlns".toList := by decide
  refine List.forall_mem_cons.mpr ⟨fun p hp => ?_, hfigure⟩
  exact hown p.1 (List.mem_map_of_mem (f := (·.1)) hp)

variable {content : List Markup}

include hink in
theorem allWellFormed_swapped (h : Item.AllWellFormed content) :
    Item.AllWellFormed (swapAllImages (iconGroup icon actorFigure ink) content) :=
  Item.allWellFormed_swapAllImages (fun a => ⟨wellFormed_actorGroup icon hink a, rfl⟩) content h

theorem declaresNoSpace_swapped (h : Item.DeclaresNoSpace (Item.startTagsAll content)) :
    Item.DeclaresNoSpace (Item.startTagsAll (swapAllImages (iconGroup icon actorFigure ink) content)) :=
  Item.declaresNoSpace_swapAllImages (declaresNoSpace_actorGroup icon) content h

end Actor

theorem holds_other (icon : Icon) {name : Text} (h : name ≠ "g".toList) (a : Attributes) (children : List Markup) :
    holds icon (inSpace svgSpace (.element name a children)) = false := by
  rw [inSpace, holds, decide_eq_false_iff_not]
  exact fun heq => h (congrArg Name.base heq.1)

section Groups

variable {icon : Icon} (hfigure : icon.children = inSpaceAll svgSpace actorFigure) (ink : Text)

include hfigure

theorem iconGroups_placed (f : Icon.Frame) : iconGroups icon (icon.placed f ink) = [icon.placed f ink] := by
  have hother : ∀ e ∈ Item.elementsAll actorFigure, hasName "g" e = false := by decide
  have hself : holds icon (icon.placed f ink) = true := decide_eq_true ⟨rfl, rfl⟩
  have hinside : (Item.elementsAll icon.children).filter (holds icon) = [] := by
    rw [hfigure, Item.elementsAll_inSpaceAll, List.filter_map]
    refine List.map_eq_nil_iff.mpr (List.filter_eq_nil_iff.mpr fun e he => ?_)
    have hname := hother e he
    cases e with
    | text s => exact Bool.false_ne_true
    | element name a children => exact Bool.eq_false_iff.mp (holds_other icon (of_decide_eq_false hname) a children)
  rw [iconGroups]
  change (icon.placed f ink :: Item.elementsAll icon.children).filter (holds icon) = _
  rw [List.filter_cons_of_pos hself, hinside]

theorem holds_elements {is : List Markup} (h : ∀ i ∈ is, i.isElement = true) (name : Name)
    (a : List (Name × Text)) : holds icon (.element name a (inSpaceAll svgSpace is)) = false := by
  refine decide_eq_false fun heq => ?_
  have htext : (.text "\n  " : Tree) ∈ inSpaceAll svgSpace actorFigure := by
    rw [Item.inSpaceAll_eq_map]
    exact List.mem_map_of_mem (List.mem_cons_of_mem _ List.mem_cons_self)
  rw [← hfigure, ← heq.2, Item.inSpaceAll_eq_map] at htext
  obtain ⟨i, hi, htext⟩ := List.mem_map.mp htext
  cases i with
  | text s => cases h _ hi
  | element n b children =>
    rw [inSpace] at htext
    cases htext

omit hfigure in
theorem length_iconGroups_all {is : List Markup} (h : ∀ i ∈ is, (iconGroups icon (inSpace svgSpace (swapImages
    (iconGroup icon actorFigure ink) i))).length = (named "image" i).length) :
    ((Item.elementsAll (inSpaceAll svgSpace (swapAllImages (iconGroup icon actorFigure ink) is))).filter
      (holds icon)).length = (is.flatMap (named "image")).length := by
  induction is with
  | nil =>
    rw [swapAllImages, inSpaceAll, Item.elementsAll]
    rfl
  | cons i is ih =>
    obtain ⟨hi, his⟩ := List.forall_mem_cons.mp h
    rw [iconGroups] at hi
    rw [swapAllImages, inSpaceAll, Item.elementsAll, List.filter_append, List.length_append, hi, ih his,
      List.flatMap_cons, List.length_append]

theorem length_iconGroups {P : Text → Prop} {i : Markup} (h : Pen.Drawn P i) :
    (iconGroups icon (inSpace svgSpace (swapImages (iconGroup icon actorFigure ink) i))).length =
      (named "image" i).length := by
  induction h with
  | mark h =>
    have hself := Pen.elements_mark h
    obtain ⟨name, a, s, rfl, hname, -⟩ := h
    have hgroup : name ≠ "g".toList := by
      have hother : ∀ n ∈ Pen.markNames, n ≠ "g".toList := by decide
      exact hother name hname
    rw [named, hself]
    by_cases himage : name = "image".toList
    · have hmark : hasName "image".toList (Pen.textElement name a s) = true := decide_eq_true himage
      rw [List.filter_cons_of_pos hmark, Pen.textElement, Item.tag, swapImages, if_pos himage,
        inSpace_iconGroup hfigure, iconGroups_placed hfigure]
      rfl
    · have hmark : hasName "image".toList (Pen.textElement name a s) = false := decide_eq_false himage
      have hnone : named "image" (Pen.textElement name a s) = [] := by
        rw [named, hself, Item.filter_cons_other hmark, List.filter_nil]
      have hplain : holds icon (inSpace svgSpace (Pen.textElement name a s)) = false := holds_other icon hgroup a _
      rw [Item.swapImages_of_none _ hnone, Item.filter_cons_other hmark, iconGroups, Item.elements_inSpace, hself,
        List.map_singleton, List.filter_cons_of_neg (Bool.eq_false_iff.mp hplain)]
      rfl
  | @group a children _ _ hdrawn ih =>
    have hname : "g".toList ≠ "image".toList := by decide
    have helements : ∀ i ∈ swapAllImages (iconGroup icon actorFigure ink) children, i.isElement = true := by
      rw [Item.swapAllImages_eq_map]
      intro i hi
      obtain ⟨j, hj, rfl⟩ := List.mem_map.mp hi
      rw [Item.isElement_swapImages fun _ => rfl]
      exact Pen.isElement_drawn (hdrawn j hj)
    have hself := holds_elements hfigure helements ⟨some svgSpace, "g"⟩ (a.map fun p => (⟨none, p.1⟩, p.2))
    rw [Pen.images_tag hname, Item.tag, swapImages, if_neg hname, inSpace, iconGroups, Item.elements,
      List.filter_cons_of_neg (Bool.eq_false_iff.mp hself), length_iconGroups_all ink ih]

end Groups

theorem mark_infix_placeholder (x y width height : Float) :
    placeholderMark <:+: (Pen.placeholder x y width height).write :=
  ⟨"<image ".toList, _, rfl⟩

theorem images_eq_nil {content : List Markup} (h : TidyAll content) {width height : Float}
    (hmark : ¬ Text.occursIn placeholderMark (Pen.canvas width height content).write = true) :
    content.flatMap (named "image") = [] := by
  rw [Text.occursIn_iff] at hmark
  refine List.flatMap_eq_nil_iff.mpr fun i hi => List.filter_eq_nil_iff.mpr fun e he himage => hmark ?_
  have hmem : e ∈ Item.elementsAll content := by
    rw [Item.elementsAll_eq_flatMap]
    exact List.mem_flatMap.mpr ⟨i, hi, he⟩
  have hinfix : e.write <:+: (Pen.canvas width height content).write :=
    (Item.write_infix_writeAll content e hmem).trans (Item.writeAll_infix_write _ _ content)
  have htidy := tidy_of_mem_elementsAll content h e hmem
  cases e with
  | text s => cases himage
  | element name a children =>
    obtain ⟨rfl, x, y, w, k, rfl⟩ := htidy.1 (of_decide_eq_true himage)
    obtain rfl : name = "image".toList := of_decide_eq_true himage
    exact (mark_infix_placeholder x y w k).trans hinfix

theorem process_drawing {icon : Icon} (hwidth : (icon.width == 0.0) = false) (hheight : (icon.height == 0.0) = false)
    (hfigure : icon.children = inSpaceAll svgSpace actorFigure) {content : List Markup}
    (h : ∀ i ∈ content, Pen.Drawn Legal i) (htidy : TidyAll content) (hsame : Item.unifiedAll content = content)
    (width height : Float) (isDark : Bool) :
    let painted := (Pen.canvas width height content).write
    let images := content.flatMap (named "image")
    ∃ (result : Text) (t t' : Tree), process [("actor".toList, icon)] isDark painted = pure result ∧
      readTree? painted = some t ∧ readTree? result = some t' ∧ Inlined icon (Theme.choose isDark).ink t t' ∧
      (placeholders t).length = images.length ∧ placeholders t' = [] ∧
      (iconGroups icon t').length = images.length ∧ (images = [] → result = painted) := by
  intro painted images
  have hink := (Theme.legal_choose isDark).1
  let group := iconGroup icon actorFigure (Theme.choose isDark).ink
  have hunswapped : images = [] → swapAllImages group content = content := by
    intro hnone
    refine Item.swapAllImages_of_none content ?_
    rw [Item.elementsAll_eq_flatMap, List.filter_flatMap]
    exact hnone
  have hresult : process [("actor".toList, icon)] isDark painted =
      pure (Pen.canvas width height (swapAllImages group content)).write := by
    rw [process_canvas_eq hwidth hheight hfigure h htidy width height isDark, hsame]
    split
    · rfl
    · next hmark => rw [hunswapped (images_eq_nil htidy hmark)]
  have hread : readTree? painted = some (inSpace svgSpace (Pen.sheet width height content)) := by
    rw [Pen.readTree?_canvas h, hsame]
  have hswapped : readTree? (Pen.canvas width height (swapAllImages group content)).write =
      some (inSpace svgSpace (Pen.sheet width height (swapAllImages group content))) := by
    rw [Pen.readTree?_canvas_of_wellFormed (allWellFormed_swapped icon hink (Pen.allWellFormed_drawn h))
      (declaresNoSpace_swapped icon (Pen.declaresNoSpace_drawn h)), Item.unifiedAll_swapAllImages (unified_actorGroup icon),
      hsame]
  have hname : "svg".toList ≠ "image".toList := by decide
  have hroot : Tidy (Pen.sheet width height content) := ⟨fun heq => absurd heq hname, htidy⟩
  have hswap : swapImages group (Pen.sheet width height content) = Pen.sheet width height (swapAllImages group content) := by
    rw [Pen.sheet, Item.tag, swapImages, if_neg hname]
    rfl
  refine ⟨_, _, _, hresult, hread, hswapped, ?_, ?_, ?_, ?_, fun hnone => by rw [hunswapped hnone]⟩
  · rw [← hswap]
    exact inlined_swapImages hfigure _ _ hroot
  · rw [placeholders_inSpace hroot, List.length_map, Pen.sheet, Pen.images_tag hname]
  · refine placeholders_of_no_image ?_
    rw [← hswap]
    exact Item.images_swapImages (images_actorGroup icon) _
  · have hsvg : "svg".toList ≠ "g".toList := by decide
    have hother := holds_other icon hsvg (Pen.canvasSize width height) (swapAllImages group content)
    have hinside := length_iconGroups_all (Theme.choose isDark).ink fun i hi =>
      length_iconGroups hfigure (Theme.choose isDark).ink (h i hi)
    rw [inSpace] at hother
    rw [iconGroups, Pen.sheet, Item.tag, inSpace, Item.elements, List.filter_cons_of_neg (Bool.eq_false_iff.mp hother)]
    exact hinside

end Yuml.IconLibrary
