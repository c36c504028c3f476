import Yuml.Proofs.Icon.Inlined
import Yuml.Proofs.Xml.Holes
import Yuml.Proofs.Xml.Scoping

namespace Yuml

open Xml

namespace Icon

theorem sound_of_read {source : Text} {icon : Icon} (h : Icon.read source = .ok icon) :
    TagsNamed Name.IsRead (Item.startTagsAll icon.children) ∧ Outline.AllSpaced (Item.outlineAll icon.children) := by
  unfold Icon.read at h
  split at h
  · next name attributes children hread =>
    obtain ⟨⟨width, height⟩, -, h⟩ := Except.bind_eq_ok.mp h
    cases h
    obtain ⟨-, hnamed, hspaced⟩ := readTree?_sound hread
    rw [Item.startTags] at hnamed
    rw [Item.outline] at hspaced
    have hsuffix : children.dropWhile (!·.isElement) <:+ children := List.dropWhile_suffix _
    constructor
    · intro t ht
      rw [Item.startTagsAll_eq_flatMap] at ht
      obtain ⟨i, hi, hti⟩ := List.mem_flatMap.mp ht
      refine hnamed t (List.mem_cons_of_mem _ ?_)
      rw [Item.startTagsAll_eq_flatMap]
      exact List.mem_flatMap.mpr ⟨i, hsuffix.subset hi, hti⟩
    · rw [Item.outlineAll_eq_map]
      rw [Outline.Spaced, Item.outlineAll_eq_map] at hspaced
      exact Outline.allSpaced_of_suffix hspaced (hsuffix.map _)
  · cases h

end Icon

namespace IconLibrary

open Outline (filled filledAll withoutTails withoutTailsAll)

structure IsUsable (icons : IconLibrary) : Prop where
  named : ∀ p ∈ icons, TagsNamed Name.IsRead (Item.startTagsAll p.2.children)
  spaced : ∀ p ∈ icons, Outline.AllSpaced (Item.outlineAll p.2.children)
  wide : ∀ p ∈ icons, (p.2.width == 0.0) = false
  high : ∀ p ∈ icons, (p.2.height == 0.0) = false

theorem isUsable_of_ofFiles {files : List (Text × Text)} {icons : IconLibrary} (h : ofFiles files = .ok icons)
    (hsize : ∀ p ∈ icons, (p.2.width == 0.0) = false ∧ (p.2.height == 0.0) = false) : icons.IsUsable := by
  have hsound : ∀ p ∈ icons, TagsNamed Name.IsRead (Item.startTagsAll p.2.children) ∧
      Outline.AllSpaced (Item.outlineAll p.2.children) := by
    intro p hp
    obtain ⟨file, -, hfile⟩ := (Except.forall₂_of_mapM h).exists_of_mem hp
    obtain ⟨icon, hicon, hp⟩ := Except.bind_eq_ok.mp hfile
    cases hp
    exact Icon.sound_of_read hicon
  exact ⟨fun p hp => (hsound p hp).1, fun p hp => (hsound p hp).2, fun p hp => (hsize p hp).1, fun p hp => (hsize p hp).2⟩

theorem mem_of_answer {icons : IconLibrary} {name : Name} {attributes : List (Name × Text)} {icon : Icon}
    (h : (answer icons name attributes).1 = some icon) : ∃ key, (key, icon) ∈ icons := by
  unfold answer at h
  split at h
  · cases h
  · split at h
    · next key found hfound =>
      cases h
      exact ⟨key, List.mem_of_find?_eq_some hfound⟩
    · cases h

mutual

def cut (icons : IconLibrary) : Tree → Outline
  | .text s => .text s
  | .element name attributes children =>
    match (answer icons name attributes).1 with
    | some icon => .element true (Item.outlineAll icon.children)
    | none => .element false (cutAll icons children)

def cutAll (icons : IconLibrary) : List Tree → List Outline
  | [] => []
  | t :: ts => cut icons t :: cutAll icons ts

end

theorem isElement_cut (icons : IconLibrary) (t : Tree) : (cut icons t).isElement = t.isElement := by
  cases t with
  | text s =>
    rw [cut]
    rfl
  | element name attributes children =>
    rw [cut]
    split <;> rfl

theorem cutAll_eq_map (icons : IconLibrary) (ts : List Tree) : cutAll icons ts = ts.map (cut icons) := by
  induction ts with
  | nil => rw [cutAll, List.map_nil]
  | cons t ts ih => rw [cutAll, ih, List.map_cons]

mutual

theorem spaced_cut {icons : IconLibrary} (hicons : icons.IsUsable) : ∀ t : Tree, t.outline.Spaced → (cut icons t).Spaced
  | .text s, h => by
    rw [cut]
    rwa [Item.outline] at h
  | .element name attributes children, h => by
    rw [Item.outline] at h
    rw [cut]
    split
    · next icon hicon =>
      obtain ⟨key, hmem⟩ := mem_of_answer hicon
      exact hicons.spaced _ hmem
    · exact allSpaced_cutAll hicons children h

theorem allSpaced_cutAll {icons : IconLibrary} (hicons : icons.IsUsable) : ∀ ts : List Tree,
    Outline.AllSpaced (Item.outlineAll ts) → Outline.AllSpaced (cutAll icons ts)
  | [], _ => by
    rw [cutAll]
    trivial
  | t :: ts, h => by
    obtain ⟨ht, hbeside, hts⟩ := Item.allSpaced_outlineAll_cons.mp h
    rw [cutAll]
    refine ⟨spaced_cut hicons t ht, ?_, allSpaced_cutAll hicons ts hts⟩
    rw [isElement_cut]
    refine hbeside.imp_right fun hhead => ?_
    simpa [cutAll_eq_map, isElement_cut] using hhead

end

def Makes {α : Type} (P : α → Prop) (x : Reporting α) : Prop :=
  ∃ a reports, P a ∧ ∀ earlier, x.run.run earlier = (.ok a, earlier ++ reports)

namespace Makes

variable {α β : Type}

theorem result {P : α → Prop} {a : α} (h : P a) : Makes P (ExceptT.mk (pure (.ok a)) : Reporting α) :=
  ⟨a, [], h, fun earlier => by rw [List.append_nil]; rfl⟩

theorem reported (warnings : List Text) : Makes (fun _ => True) (report warnings) :=
  ⟨(), warnings, trivial, fun _ => rfl⟩

theorem bind {P : α → Prop} {Q : β → Prop} {x : Reporting α} {f : α → Reporting β} (hx : Makes P x)
    (hf : ∀ a, P a → Makes Q (f a)) : Makes Q (x >>= f) := by
  obtain ⟨a, reports, ha, hrun⟩ := hx
  obtain ⟨b, more, hb, hrun'⟩ := hf a ha
  refine ⟨b, reports ++ more, hb, fun earlier => ?_⟩
  rw [ExceptT.run_bind, StateT.run_bind, hrun, ← List.append_assoc]
  exact hrun' _

end Makes

def AreBoxed (icons : IconLibrary) (tags : List (Name × List (Name × Text))) : Prop :=
  ∀ t ∈ tags, (answer icons t.1 t.2).1.isSome = true → IsNumericBox t.2

/-- Whether content is what has become of other content: the holes are filled, and the texts right after
them are gone. -/
def IsReplaced (icons : IconLibrary) (drop : Bool) (ts made : List Tree) : Prop :=
  Item.outlineAll made = filledAll (withoutTailsAll drop (cutAll icons ts)) ∧
    TagsNamed Name.IsRead (Item.startTagsAll made)

namespace IsReplaced

variable {icons : IconLibrary} {drop : Bool} {ts made : List Tree}

theorem nil : IsReplaced icons drop [] [] := by
  constructor
  · rw [cutAll, withoutTailsAll, filledAll, Item.outlineAll]
  · rw [Item.startTagsAll]
    exact List.forall_mem_nil _

theorem text (s : Text) (h : IsReplaced icons false ts made) :
    IsReplaced icons drop (.text s :: ts) (if drop then made else .text s :: made) := by
  rw [IsReplaced, cutAll, cut, withoutTailsAll]
  cases drop with
  | true => exact h
  | false =>
    obtain ⟨houtline, hnamed⟩ := h
    constructor
    · change Item.outlineAll (.text s :: made) = filledAll (withoutTails (.text s) :: withoutTailsAll false (cutAll icons ts))
      rw [Item.outlineAll, Item.outline, withoutTails, filledAll, filled, houtline]
    · change TagsNamed Name.IsRead (Item.startTagsAll (.text s :: made))
      rwa [Item.startTagsAll, Item.startTags, List.nil_append]

section

variable {name : Name} {attributes : List (Name × Text)} {children inside : List Tree}

theorem kept (hnone : (answer icons name attributes).1 = none)
    (hname : name.IsRead ∧ ∀ p ∈ attributes, p.1.IsRead) (hinside : IsReplaced icons false children inside)
    (h : IsReplaced icons false ts made) :
    IsReplaced icons drop (.element name attributes children :: ts) (.element name attributes inside :: made) := by
  obtain ⟨houtline, hnamed⟩ := h
  obtain ⟨hchildren, htags⟩ := hinside
  constructor
  · rw [cutAll, cut, hnone, withoutTailsAll]
    dsimp only
    rw [if_neg (by simp [Outline.isElement]), withoutTails, if_neg Bool.false_ne_true, filledAll, filled,
      Item.outlineAll, Item.outline, hchildren, houtline]
    rfl
  · rw [Item.startTagsAll, Item.startTags]
    exact List.forall_mem_append.mpr ⟨List.forall_mem_cons.mpr ⟨hname, htags⟩, hnamed⟩

theorem replaced {icon : Icon} (hicon : (answer icons name attributes).1 = some icon) {name' : Name}
    {attributes' : List (Name × Text)} (hname : name'.IsRead ∧ ∀ p ∈ attributes', p.1.IsRead)
    (hinside : TagsNamed Name.IsRead (Item.startTagsAll icon.children)) (h : IsReplaced icons true ts made) :
    IsReplaced icons drop (.element name attributes children :: ts) (.element name' attributes' icon.children :: made) := by
  obtain ⟨houtline, hnamed⟩ := h
  constructor
  · rw [cutAll, cut, hicon, withoutTailsAll]
    dsimp only
    rw [if_neg (by simp [Outline.isElement]), withoutTails, if_pos rfl, filledAll, filled, Item.filledAll_outlineAll,
      Item.outlineAll, Item.outline, houtline]
    rfl
  · rw [Item.startTagsAll, Item.startTags]
    exact List.forall_mem_append.mpr ⟨List.forall_mem_cons.mpr ⟨hname, hinside⟩, hnamed⟩

end

end IsReplaced

theorem isRead_group (transform ink : Text) : Name.IsRead ⟨some svgSpace, "g"⟩ ∧
    ∀ p ∈ ([(⟨none, "transform"⟩, transform), (⟨none, "fill"⟩, "none"), (⟨none, "stroke"⟩, ink)] : List (Name × Text)),
      p.1.IsRead := by
  have hnames : ∀ n ∈ ["transform".toList, "fill".toList, "stroke".toList], isPlainName n = true := by decide
  refine ⟨isRun_of_isPlainName (by decide), fun p hp => isRun_of_isPlainName (hnames p.1.base ?_)⟩
  exact List.mem_map_of_mem (f := fun p : Name × Text => p.1.base) hp

section

variable {icons : IconLibrary} (hicons : icons.IsUsable) (ink : Text)

include hicons

theorem replaceAll_makes : ∀ (ts : List Tree) (drop : Bool), TagsNamed Name.IsRead (Item.startTagsAll ts) →
    AreBoxed icons (Item.startTagsAll ts) → Makes (IsReplaced icons drop ts) (replaceAll icons ink drop ts)
  | [], drop, _, _ => by
    rw [replaceAll]
    exact .result .nil
  | .text s :: ts, drop, hnamed, hboxed => by
    rw [Item.startTagsAll, Item.startTags] at hnamed hboxed
    rw [replaceAll]
    exact (replaceAll_makes ts false hnamed hboxed).bind fun _ h => .result (h.text s)
  | .element name attributes children :: ts, drop, hnamed, hboxed => by
    rw [Item.startTagsAll, Item.startTags] at hnamed hboxed
    obtain ⟨hhead, hrest⟩ := List.forall_mem_append.mp hnamed
    obtain ⟨hname, hchildren⟩ := List.forall_mem_cons.mp hhead
    obtain ⟨hhead, hboxes⟩ := List.forall_mem_append.mp hboxed
    obtain ⟨hbox, hinside⟩ := List.forall_mem_cons.mp hhead
    rw [replaceAll]
    cases hanswer : answer icons name attributes with
    | mk found reports =>
    rw [hanswer] at hbox
    refine (Makes.reported _).bind fun _ _ => ?_
    cases found with
    | none =>
      refine (replaceAll_makes children false hchildren hinside).bind fun _ h => ?_
      refine (replaceAll_makes ts false hrest hboxes).bind fun _ h' => .result (.kept ?_ hname h h')
      rw [hanswer]
    | some icon =>
      have hicon : (answer icons name attributes).1 = some icon := by rw [hanswer]
      obtain ⟨key, hmem⟩ := mem_of_answer hicon
      obtain ⟨transform, hgroup⟩ := inline_ok (hicons.wide _ hmem) (hicons.high _ hmem) (hbox rfl) ink
      dsimp only
      rw [hgroup]
      refine (Makes.result (P := Eq _) rfl).bind fun group heq => ?_
      subst heq
      -- what becomes of the inside of a placeholder is of no account, as long as nothing fails there
      refine (replaceAll_makes children false hchildren hinside).bind fun _ _ => ?_
      refine (replaceAll_makes ts true hrest hboxes).bind fun _ h =>
        .result (.replaced hicon (isRead_group transform ink) (hicons.named _ hmem) h)

theorem replaceTree_makes {t : Tree} (helement : t.isElement = true) (hnamed : TagsNamed Name.IsRead t.startTags)
    (hroot : (cut icons t).isHole = false) (hboxed : AreBoxed icons t.startTags) :
    Makes (fun made => made.isElement = true ∧ made.outline = (cut icons t).withoutTails.filled ∧
      TagsNamed Name.IsRead made.startTags) (replaceTree icons ink t) := by
  cases t with
  | text s => cases helement
  | element name attributes children =>
    rw [Item.startTags] at hnamed hboxed
    obtain ⟨hname, hchildren⟩ := List.forall_mem_cons.mp hnamed
    obtain ⟨-, hinside⟩ := List.forall_mem_cons.mp hboxed
    have hnone : (answer icons name attributes).1 = none := by
      rw [cut] at hroot
      split at hroot
      · cases hroot
      · assumption
    unfold replaceTree
    refine (Makes.reported _).bind fun _ _ => ?_
    change Makes _ (if (answer icons name attributes).1.isSome then _ else _)
    rw [hnone, if_neg (by simp), replaceInside]
    refine (replaceAll_makes hicons ink children false hchildren hinside).bind fun inside h => .result ⟨rfl, ?_, ?_⟩
    · rw [cut, hnone]
      dsimp only
      rw [withoutTails, if_neg Bool.false_ne_true, filled, Item.outline, h.1]
    · rw [Item.startTags]
      exact List.forall_mem_cons.mpr ⟨hname, h.2⟩

end

theorem isNumericBox_of_reads {f : Icon.Frame} {a : List (Name × Text)} (h : f.Reads a) : IsNumericBox a := by
  have hread {name : Text} {x : Float} (h : ∃ v, Icon.attribute? a name = some v ∧ Value.readFloat v = .ok x) (v : Text)
      (hv : Icon.attribute? a name = some v) : ∃ x, Value.readFloat v = .ok x := by
    obtain ⟨w, hw, hx⟩ := h
    cases hw.symm.trans hv
    exact ⟨x, hx⟩
  intro name hname
  simp only [List.mem_cons, List.not_mem_nil, or_false] at hname
  rcases hname with rfl | rfl | rfl | rfl
  · exact hread h.x
  · exact hread h.y
  · exact hread h.width
  · exact hread h.height

def actorAttributes : Attributes :=
  [("href", "yuml:actor"), ("x", "10"), ("y", "20"), ("width", "30"), ("height", "40")]

def tailed : Markup :=
  .tag "svg" [] [.tag "image" actorAttributes, .text "tail"]

def tailedSource : Text :=
  "<svg xmlns=\"http://www.w3.org/2000/svg\"><image href=\"yuml:actor\" x=\"10\" y=\"20\" width=\"30\" height=\"40\" />tail</svg>"

theorem readTree?_tailed : readTree? tailedSource = some (Item.inSpace svgSpace tailed) := by
  decide +kernel

theorem mark_tailed : Text.occursIn placeholderMark tailedSource = true := by
  decide +kernel

theorem reads_actorAttributes :
    (Icon.Frame.of actorAttributes).Reads (actorAttributes.map fun p => (⟨none, p.1⟩, p.2)) :=
  ⟨⟨_, rfl, rfl⟩, ⟨_, rfl, rfl⟩, ⟨_, rfl, rfl⟩, ⟨_, rfl, rfl⟩⟩

theorem areBoxed_tailed (icons : IconLibrary) : AreBoxed icons (Item.startTags (Item.inSpace svgSpace tailed)) := by
  refine List.forall_mem_cons.mpr ⟨fun _ _ _ _ hv => ?_, List.forall_mem_singleton.mpr fun _ => ?_⟩
  · cases hv
  · exact isNumericBox_of_reads reads_actorAttributes

theorem cut_tailed (icon : Icon) : cut [("actor".toList, icon)] (Item.inSpace svgSpace tailed) =
    .element false [.element true (Item.outlineAll icon.children), .text "tail"] :=
  rfl

theorem replaceTree_tailed {icon : Icon} (hwidth : (icon.width == 0.0) = false) (hheight : (icon.height == 0.0) = false)
    (hfigure : icon.children = Item.inSpaceAll svgSpace actorFigure) (ink : Text) :
    replaceTree [("actor".toList, icon)] ink (Item.inSpace svgSpace tailed) =
      pure (Item.inSpace svgSpace (.tag "svg" [] [iconGroup icon actorFigure ink actorAttributes])) := by
  have hplaced := inline_of_reads hwidth hheight reads_actorAttributes ink
  have hinside : replaceAll [("actor".toList, icon)] ink false
      (Item.inSpaceAll svgSpace [.tag "image" actorAttributes, .text "tail"]) =
        pure [icon.placed (.of actorAttributes) ink] := by
    rw [Item.inSpaceAll, Item.inSpaceAll, Item.inSpaceAll, Item.tag, Item.inSpace, Item.inSpace, replaceAll]
    change (do
      report []
      let group ← ExceptT.mk (pure (IconLibrary.inline icon _ ink))
      let _ ← replaceAll [("actor".toList, icon)] ink false (Item.inSpaceAll svgSpace [])
      let rest ← replaceAll [("actor".toList, icon)] ink true [.text "tail"]
      return group :: rest) = _
    rw [hplaced, report_nil, Item.inSpaceAll, replaceAll, replaceAll, replaceAll]
    rfl
  rw [tailed, Item.tag, Item.inSpace]
  unfold replaceTree
  dsimp only
  rw [answer_other _ (by decide)]
  dsimp only
  rw [report_nil, pure_bind, if_neg (by simp), replaceInside, hinside, pure_bind, ← inSpace_iconGroup hfigure]
  rfl

theorem process_outline {files : List (Text × Text)} {icons : IconLibrary} (hicons : ofFiles files = .ok icons)
    (hsize : ∀ p ∈ icons, (p.2.width == 0.0) = false ∧ (p.2.height == 0.0) = false) (isDark : Bool) {svg : Text}
    {t : Tree} (ht : readTree? svg = some t) (hroot : (cut icons t).isHole = false)
    (hboxed : AreBoxed icons t.startTags) :
    let kept := (cut icons t).withoutTails
    ∃ out reports, (∀ earlier, (process icons isDark svg).run.run earlier = (.ok out, earlier ++ reports)) ∧
      (Text.occursIn placeholderMark svg = false → out = svg) ∧
      (Text.occursIn placeholderMark svg = true →
        (∃ made : Tree, out = made.toMarkup.write ∧ made.outline = kept.filled) ∧
        ∀ t', readTree? out = some t' → t'.outline = kept.unified.filled ∧
          ((cut icons t).Tailless → kept.unified.outside = (cut icons t).outside.map Text.unifyLineEnds)) := by
  intro kept
  obtain ⟨helement, hnamed, hspaced⟩ := readTree?_sound ht
  have husable := isUsable_of_ofFiles hicons hsize
  unfold process
  split
  · next hmark =>
    rw [ht]
    obtain ⟨made, reports, ⟨hmade, houtline, hread⟩, hrun⟩ :=
      replaceTree_makes husable (Theme.choose isDark).ink helement hnamed hroot hboxed
    have hspaced' : made.outline.Spaced := by
      rw [houtline]
      exact Outline.spaced_filled _ (Outline.spaced_withoutTails _ (spaced_cut husable t hspaced))
    refine ⟨made.toMarkup.write, reports, fun earlier => ?_, fun habsent => absurd hmark (by simp [habsent]),
      fun _ => ⟨⟨made, rfl, houtline⟩, fun t' ht' => ⟨?_, fun htailless => ?_⟩⟩⟩
    · rw [ExceptT.run_bind, StateT.run_bind, hrun]
      rfl
    · rw [outline_of_readTree?_written hread hspaced' hmade ht', houtline, Outline.filled_unified]
    · have hkept : kept = cut icons t := Outline.withoutTails_of_tailless _ htailless
      rw [hkept, Outline.outside_unified]
  · next habsent =>
    exact ⟨svg, [], fun earlier => by rw [List.append_nil]; rfl, fun _ => rfl, fun hmark => absurd hmark habsent⟩

theorem process_outline_tailed : ∃ (icon : Icon) (t : Tree), bundled = .ok [("actor".toList, icon)] ∧
    readTree? tailedSource = some t ∧ (cut [("actor".toList, icon)] t).isHole = false ∧
    AreBoxed [("actor".toList, icon)] t.startTags ∧ Text.occursIn placeholderMark tailedSource = true ∧
    ∃ out reports, (∀ earlier, (process [("actor".toList, icon)] false tailedSource).run.run earlier =
        (.ok out, earlier ++ reports)) ∧
      (∃ made : Tree, out = made.toMarkup.write ∧
        made.outline = (cut [("actor".toList, icon)] t).withoutTails.filled) ∧
      ∀ t', readTree? out = some t' → t'.outline = (cut [("actor".toList, icon)] t).withoutTails.unified.filled := by
  obtain ⟨icon, hbundled, hwidth, hheight, -⟩ := bundled_ok
  obtain ⟨out, reports, hrun, -, hmade⟩ := process_outline hbundled
    (List.forall_mem_singleton.mpr ⟨hwidth, hheight⟩) false readTree?_tailed rfl (areBoxed_tailed _)
  obtain ⟨hwritten, hread⟩ := hmade mark_tailed
  exact ⟨icon, _, hbundled, readTree?_tailed, rfl, areBoxed_tailed _, mark_tailed, out, reports, hrun, hwritten,
    fun t' ht' => (hread t' ht').1⟩

theorem process_loses_text : ∃ (icon : Icon) (out : Text) (t t' : Tree), bundled = .ok [("actor".toList, icon)] ∧
    readTree? tailedSource = some t ∧ (cut [("actor".toList, icon)] t).isHole = false ∧
    AreBoxed [("actor".toList, icon)] t.startTags ∧ process [("actor".toList, icon)] false tailedSource = pure out ∧
    readTree? out = some t' ∧ (cut [("actor".toList, icon)] t).outside = ["tail".toList] ∧
    let left : Outline := .element false [.element true (Item.outlineAll icon.children)]
    t'.outline = left.filled ∧ left.outside = [] := by
  obtain ⟨icon, hbundled, hwidth, hheight, hfigure⟩ := bundled_ok
  let group := iconGroup icon actorFigure (Theme.choose false).ink actorAttributes
  have hgroup : group.WellFormed := wellFormed_actorGroup icon (Theme.legal_choose false).1 actorAttributes
  have hplain : Item.DeclaresNoSpace (Item.startTagsAll [group]) := by
    rw [Item.startTagsAll_eq_flatMap, List.flatMap_singleton]
    exact declaresNoSpace_actorGroup icon actorAttributes
  have hroot : Item.WellFormed (.tag "svg" [("xmlns", svgSpace)] [group]) :=
    ⟨by decide, ⟨by decide, by decide, Pen.values_cons (legal_of_all (by decide)) Pen.values_nil⟩, hgroup, .inl rfl,
      trivial⟩
  have hread := @readTree?_write "svg" [] [group] svgSpace (by decide) (by decide) hroot hplain
  refine ⟨icon, _, _, _, hbundled, readTree?_tailed, rfl, areBoxed_tailed _, ?_, hread, ?_, ?_⟩
  · unfold process
    rw [if_pos mark_tailed, readTree?_tailed]
    dsimp only
    rw [replaceTree_tailed hwidth hheight hfigure, pure_bind, Item.tag, toMarkup_inSpace]
  · rw [cut_tailed]
    rfl
  · refine ⟨?_, rfl⟩
    rw [Outline.filled, Outline.filledAll, Outline.filled, Item.filledAll_outlineAll, hfigure]
    rfl

end IconLibrary

end Yuml
