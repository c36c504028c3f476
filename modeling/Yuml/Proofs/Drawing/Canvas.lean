import Yuml.Proofs.Drawing.Marks
import Yuml.Proofs.Xml.Refusal

namespace Yuml.Pen

open Number Xml Layered

inductive Drawn (P : Text → Prop) : Markup → Prop
  | mark {i : Markup} (h : IsMark P i) : Drawn P i
  | group {a : Attributes} {children : List Markup} (hnames : areSeparate (a.map (·.1)) = true)
      (hvalues : ∀ p ∈ a, P p.2) (hchildren : ∀ i ∈ children, Drawn P i) :
      Drawn P (.tag "g" a children)

theorem isElement_drawn {P : Text → Prop} {i : Markup} (h : Drawn P i) : i.isElement = true := by
  cases h with
  | mark h =>
    obtain ⟨name, a, s, rfl, -⟩ := h
    rfl
  | group => rfl

section

variable {P : Text → Prop} {s : Style} (h : Allows P s)

include h

theorem drawn_nodePicture (p : Place Float) (n : Node) (hid : P n.id) (hfill : ∀ c, n.fill = some c → P c) :
    Drawn P (nodePicture p n s) := by
  refine .group rfl (values_cons (h.literal (by decide)) (values_cons hid values_nil)) ?_
  refine List.forall_mem_cons.mpr ⟨.mark (isMark_text _ (by decide) (by decide) rfl values_nil), fun i hi => ?_⟩
  exact .mark (isMark_shapePicture h p n hfill i hi)

theorem drawn_edgePicture (r : Route Float) : Drawn P (edgePicture r s) := by
  refine .group rfl (values_cons (h.literal (by decide)) values_nil) ?_
  refine List.forall_mem_cons.mpr ⟨.mark (isMark_text _ (by decide) (by decide) rfl values_nil), ?_⟩
  split
  · exact fun _ hi => nomatch hi
  · exact fun i hi => .mark (isMark_linePicture h _ _ _ i hi)

end

theorem names_of_areSeparate {a : Attributes} (h : areSeparate (a.map (·.1)) = true) :
    (∀ p ∈ a, isPlainName p.1 = true ∧ p.1 ≠ "xmlns".toList) ∧ (a.map (·.1)).Nodup := by
  rw [areSeparate, Bool.and_eq_true, List.all_eq_true, decide_eq_true_eq] at h
  refine ⟨fun p hp => ?_, h.2⟩
  simpa using h.1 p.1 (List.mem_map_of_mem hp)

theorem wellFormed_attributes {a : Attributes} (hnames : areSeparate (a.map (·.1)) = true)
    (hvalues : ∀ p ∈ a, Legal p.2) : Attributes.WellFormed a :=
  ⟨fun p hp => ((names_of_areSeparate hnames).1 p hp).1, (names_of_areSeparate hnames).2, hvalues⟩

open Item

theorem allWellFormed_of_forall {is : List Markup} (h : ∀ i ∈ is, WellFormed i ∧ i.isElement = true) :
    AllWellFormed is := by
  induction is with
  | nil => trivial
  | cons i is ih =>
    obtain ⟨hi, helement⟩ := h i List.mem_cons_self
    exact ⟨hi, .inl helement, ih fun j hj => h j (List.mem_cons_of_mem _ hj)⟩

theorem wellFormed_of_drawn {i : Markup} (h : Drawn Legal i) : WellFormed i ∧ i.isElement = true := by
  induction h with
  | mark h =>
    obtain ⟨name, a, s, rfl, hname, hnames, hvalues, -⟩ := h
    have hplain : ∀ n ∈ markNames, isPlainName n = true := by decide
    refine ⟨⟨hplain name hname, wellFormed_attributes hnames hvalues, ?_⟩, rfl⟩
    unfold ofText
    split
    · trivial
    · next hne => exact ⟨⟨by simpa using hne, legal_legalText s⟩, .inr fun _ hj => (nomatch hj), trivial⟩
  | group hnames hvalues _ ih =>
    exact ⟨⟨by decide, wellFormed_attributes hnames hvalues, allWellFormed_of_forall ih⟩, rfl⟩

theorem startTags_textElement (name : Text) (a : Attributes) (s : Text) :
    startTags (textElement name a s) = [(name, a)] := by
  unfold textElement Item.tag ofText
  split
  · simp [startTags, startTagsAll]
  · simp [startTags, startTagsAll]

theorem startTags_drawn {P : Text → Prop} {i : Markup} (h : Drawn P i) :
    ∀ t ∈ startTags i, areSeparate (t.2.map (·.1)) = true ∧ (t.1 = "image".toList → HasBox t.2) := by
  induction h with
  | mark h =>
    obtain ⟨name, a, s, rfl, -, hnames, -, hbox⟩ := h
    rw [startTags_textElement]
    exact List.forall_mem_singleton.mpr ⟨hnames, hbox⟩
  | group hnames _ _ ih =>
    intro t ht
    rw [Item.tag, startTags] at ht
    rcases List.mem_cons.mp ht with rfl | ht
    · have hg : "g".toList ≠ "image".toList := by decide
      exact ⟨hnames, fun himage => absurd himage hg⟩
    · obtain ⟨j, hj, ht⟩ := mem_startTagsAll.mp ht
      exact ih j hj t ht

theorem Drawn.of_values {P Q : Text → Prop} {i : Markup} (h : Drawn P i) (hvalues : ∀ t ∈ startTags i, ∀ p ∈ t.2, Q p.2) :
    Drawn Q i := by
  induction h with
  | mark h =>
    obtain ⟨name, a, s, rfl, hname, hnames, -, hbox⟩ := h
    rw [startTags_textElement] at hvalues
    exact .mark ⟨name, a, s, rfl, hname, hnames, hvalues _ (List.mem_singleton_self _), hbox⟩
  | @group a children hnames _ _ ih =>
    rw [Item.tag, startTags] at hvalues
    obtain ⟨hown, hinside⟩ := List.forall_mem_cons.mp hvalues
    exact .group hnames hown fun j hj => ih j hj fun t ht => hinside t (mem_startTagsAll.mpr ⟨j, hj, ht⟩)

section Canvas

def sheet (width height : Float) (content : List Markup) : Markup :=
  .tag "svg" (canvasSize width height) content

theorem wellFormed_canvas {content : List Markup} (h : AllWellFormed content) (width height : Float) :
    WellFormed (canvas width height content) := by
  have hnames : ∀ n ∈ ["xmlns".toList, "width".toList, "height".toList, "viewBox".toList],
      isPlainName n = true := by decide
  have hseparate : ["xmlns".toList, "width".toList, "height".toList, "viewBox".toList].Nodup := by decide
  refine ⟨by decide, ⟨fun p hp => hnames p.1 (List.mem_map_of_mem (f := (·.1)) hp), hseparate, ?_⟩, h⟩
  have hspace : Legal "http://www.w3.org/2000/svg".toList := legal_of_all (by decide)
  have hview : Legal ("0 0 ".toList ++ fmt width ++ ' ' :: fmt height) :=
    legal_append (legal_append (legal_of_all (by decide)) (legal_fmt width)) (List.forall_mem_cons.mpr ⟨rfl, legal_fmt height⟩)
  exact values_cons hspace (values_cons (legal_append (legal_fmt width) (legal_of_all (by decide)))
    (values_cons (legal_append (legal_fmt height) (legal_of_all (by decide))) (values_cons hview values_nil)))

theorem readTree?_canvas_of_wellFormed {content : List Markup} (h : AllWellFormed content)
    (hspace : DeclaresNoSpace (startTagsAll content)) (width height : Float) :
    readTree? (canvas width height content).write =
      some (inSpace svgSpace (sheet width height (unifiedAll content))) :=
  readTree?_write (by decide) (by decide) (wellFormed_canvas h width height) hspace

theorem drawn_of_legal {P : Text → Prop} {content : List Markup} (h : ∀ i ∈ content, Drawn P i) {width height : Float}
    (hlegal : Legal (canvas width height content).write) : ∀ i ∈ content, Drawn Legal i := by
  have hvalues := Item.legal_values_of_write _ hlegal
  rw [canvas, Item.tag, startTags] at hvalues
  exact fun i hi => (h i hi).of_values fun t ht =>
    (List.forall_mem_cons.mp hvalues).2 t (mem_startTagsAll.mpr ⟨i, hi, ht⟩)

variable {content : List Markup} (h : ∀ i ∈ content, Drawn Legal i)

include h

theorem declaresNoSpace_drawn : DeclaresNoSpace (startTagsAll content) := by
  intro t ht p hp
  obtain ⟨i, hi, ht⟩ := mem_startTagsAll.mp ht
  exact ((names_of_areSeparate (startTags_drawn (h i hi) t ht).1).1 p hp).2

theorem allWellFormed_drawn : AllWellFormed content :=
  allWellFormed_of_forall fun i hi => wellFormed_of_drawn (h i hi)

theorem readTree?_canvas (width height : Float) : readTree? (canvas width height content).write =
    some (inSpace svgSpace (sheet width height (unifiedAll content))) :=
  readTree?_canvas_of_wellFormed (allWellFormed_drawn h) (declaresNoSpace_drawn h) width height

theorem hasBox_of_mem_startTags {root a : Attributes}
    (hmem : ("image".toList, a) ∈ startTags (Item.tag "svg" root (unifiedAll content))) : HasBox a := by
  rw [Item.tag, startTags, startTagsAll_unifiedAll] at hmem
  rcases List.mem_cons.mp hmem with heq | hmem
  · have hroot : "image".toList ≠ "svg".toList := by decide
    exact absurd (congrArg Prod.fst heq) hroot
  · obtain ⟨i, hi, hin⟩ := mem_startTagsAll.mp hmem
    exact (startTags_drawn (h i hi) _ hin).2 rfl

end Canvas

end Yuml.Pen
