import Yuml.Proofs.Drawing.Recolouring

namespace Yuml

def HueApart (name v v' : Text) : Prop :=
  v = v' ∨ name ∈ ["color".toList, "fontcolor".toList] ∧ v = Theme.light.ink ∧ v' = Theme.dark.ink ∨
    name = "fillcolor".toList

namespace HueApart

variable {name v v' : Text}

theorem ink (h : HueApart name v v') (hname : name ≠ "fillcolor".toList) : InkApart v v' := by
  rcases h with heq | ⟨-, hinks⟩ | hfill
  · exact .inl heq
  · exact .inr hinks
  · exact absurd hfill hname

theorem same (h : HueApart name v v') (hname : name ∉ ["color".toList, "fontcolor".toList])
    (hfill : name ≠ "fillcolor".toList) : v = v' := by
  rcases h with heq | ⟨hmem, -⟩ | heq
  · exact heq
  · exact absurd hmem hname
  · exact absurd heq hfill

end HueApart

namespace Attributes

def Apart (a a' : Attributes) : Prop :=
  ∀ name, Option.Rel (HueApart name) (a.get? name) (a'.get? name)

namespace Apart

variable {a a' : Attributes}

theorem nil : Apart [] [] :=
  fun _ => .none

theorem ite (h : Apart a a') {name v v' : Text} (hv : HueApart name v v') (other : Text) :
    Option.Rel (HueApart other) (if name = other then some v else a.get? other)
      (if name = other then some v' else a'.get? other) := by
  split
  · next heq => exact .some (heq ▸ hv)
  · exact h other

theorem cons {name v v' : Text} (hv : HueApart name v v') (h : Apart a a') : Apart ((name, v) :: a) ((name, v') :: a') := by
  intro other
  rw [get?_cons, get?_cons]
  exact h.ite hv other

theorem set (h : Apart a a') (name v : Text) : (a.set name v).Apart (a'.set name v) := by
  intro other
  rw [get?_set, get?_set]
  exact h.ite (.inl rfl) other

theorem setAll (h : Apart a a') (pairs : List (Text × Text)) : (a.setAll pairs).Apart (a'.setAll pairs) := by
  induction pairs generalizing a a' with
  | nil => exact h
  | cons p pairs ih => exact ih (h.set p.1 p.2)

variable (h : Apart a a') (name : Text)

include h

theorem get?_eq (hname : name ∉ ["color".toList, "fontcolor".toList]) (hfill : name ≠ "fillcolor".toList) :
    a.get? name = a'.get? name := by
  have hrel := h name
  revert hrel
  cases a.get? name <;> cases a'.get? name
  · exact fun _ => rfl
  · exact fun hrel => nomatch hrel
  · exact fun hrel => nomatch hrel
  · rintro ⟨hv⟩
    exact congrArg some (hv.same hname hfill)

theorem getD_eq (otherwise : Text) (hname : name ∉ ["color".toList, "fontcolor".toList])
    (hfill : name ≠ "fillcolor".toList) : a.getD name otherwise = a'.getD name otherwise :=
  congrArg (Option.getD · otherwise) (h.get?_eq name hname hfill)

theorem getD_ink (hfill : name ≠ "fillcolor".toList) {otherwise otherwise' : Text} (ho : InkApart otherwise otherwise') :
    InkApart (a.getD name otherwise) (a'.getD name otherwise') := by
  have hrel := h name
  rw [getD, getD]
  revert hrel
  cases a.get? name <;> cases a'.get? name
  · exact fun _ => ho
  · exact fun hrel => nomatch hrel
  · exact fun hrel => nomatch hrel
  · rintro ⟨hv⟩
    exact hv.ink hfill

end Apart

end Attributes

open Except (Alike)
open Xml Layered

namespace Header

structure Apart (h h' : Header) : Prop where
  graph : h.graph = h'.graph
  node : h.node.Apart h'.node
  edge : h.edge.Apart h'.edge

theorem apart_choose : (Theme.choose false).header.Apart (Theme.choose true).header := by
  have hcolor : HueApart "color" Theme.light.ink Theme.dark.ink := .inr (.inl ⟨by decide, rfl, rfl⟩)
  have hfont : HueApart "fontcolor" Theme.light.ink Theme.dark.ink := .inr (.inl ⟨by decide, rfl, rfl⟩)
  have hfill : HueApart "fillcolor" Theme.light.paper Theme.dark.paper := .inr (.inr rfl)
  have hsizes : Attributes.Apart [("fontname", Theme.light.font), ("fontsize", Theme.light.fontSize)]
      [("fontname", Theme.dark.font), ("fontsize", Theme.dark.fontSize)] :=
    .cons (.inl rfl) (.cons (.inl rfl) .nil)
  have hgraph (t t' : Theme) (hbackground : t.background = t'.background) (hname : t.font = t'.font)
      (hsize : t.fontSize = t'.fontSize) : t.header.graph = t'.header.graph := by
    rw [Theme.header, Theme.header, hbackground, hname, hsize]
  exact ⟨hgraph _ _ rfl rfl rfl, .cons hcolor (.cons hfont (.cons hfill hsizes)), .cons hcolor (.cons hfont hsizes)⟩

theorem override_alike {h h' : Header} (hh : h.Apart h') (overrides : Value) :
    Alike Apart (h.override overrides) (h'.override overrides) := by
  unfold override
  split
  · next entries =>
    refine .step _ fun graph _ => .step _ fun node _ => .step _ fun edge _ => .ok ⟨?_, ?_, ?_⟩
    · exact congrArg (Attributes.setAll · graph) hh.graph
    · exact hh.node.setAll node
    · exact hh.edge.setAll edge
  · split
    · exact .error _
    · exact .ok hh

theorem style_apart {h h' : Header} (hh : h.Apart h') (nodeSize edgeSize : Float) :
    (h.style nodeSize edgeSize).Apart (h'.style nodeSize edgeSize) := by
  have hink := hh.node.getD_ink "color" (by decide) (.inl rfl : InkApart Theme.light.ink Theme.light.ink)
  have hedgeInk := hh.edge.getD_ink "color" (by decide) hink
  have hnodeColor := hh.node.getD_ink "fontcolor" (by decide) hink
  have hedgeColor := hh.edge.getD_ink "fontcolor" (by decide) hedgeInk
  have hnodeFont := hh.node.getD_eq "fontname" Theme.light.font (by decide) (by decide)
  have hedgeFont := hh.edge.getD_eq "fontname" (h.node.getD "fontname" Theme.light.font) (by decide) (by decide)
  have hbackground : h.graph.getD "bgcolor" Theme.light.background = h'.graph.getD "bgcolor" Theme.light.background := by
    rw [hh.graph]
  rw [hnodeFont] at hedgeFont
  refine ⟨hink, hbackground, ⟨hnodeFont, rfl, hnodeColor⟩, hedgeInk, ⟨?_, rfl, hedgeColor⟩⟩
  unfold style
  rw [hnodeFont]
  exact hedgeFont

end Header

theorem Style.ofHeader_alike {h h' : Header} (hh : h.Apart h') :
    Alike Apart (ofHeader (some h)) (ofHeader (some h')) := by
  have hnodeSize := hh.node.getD_eq "fontsize" Theme.light.fontSize (by decide) (by decide)
  have hedgeSize := hh.edge.get?_eq "fontsize" (by decide) (by decide)
  unfold ofHeader
  simp only [Option.getD_some]
  rw [hnodeSize, hedgeSize]
  refine .step _ fun nodeSize _ => ?_
  split
  · exact .step _ fun edgeSize _ => .ok (Header.style_apart hh nodeSize edgeSize)
  · exact .ok (Header.style_apart hh nodeSize nodeSize)

namespace Document

def Shaded (d t t' : Document) : Prop :=
  ∃ h h' : Header, h.Apart h' ∧ t = { d with header := some h } ∧ t' = { d with header := some h' }

def Restyled (d : Document) (m m' : Markup) : Prop :=
  ∃ (w : Drawing d) (s s' : Style), s.Apart s' ∧ m = w.picture s ∧ m' = w.picture s'

variable {d t t' : Document}

theorem wrap_alike (d : Document) (overrides : Value) :
    Alike d.Shaded (d.wrap false overrides) (d.wrap true overrides) :=
  (Header.override_alike Header.apart_choose overrides).bind fun h h' hh => .ok ⟨h, h', hh, rfl, rfl⟩

theorem picture_of_style {s : Style} (hs : Style.ofHeader d.header = .ok s) (engine : Value) :
    d.picture engine = Layout.ofDocument d engine >>= d.pictureOf s := by
  rw [picture, hs]
  rfl

theorem picture_alike (hd : d.Named) (h : d.Shaded t t') (engine : Value) :
    Alike d.Restyled (t.picture engine) (t'.picture engine) := by
  obtain ⟨h, h', hh, rfl, rfl⟩ := h
  obtain ⟨e, he, he'⟩ | ⟨s, s', hs, hs', hss⟩ := (Style.ofHeader_alike hh).cases
  · rw [picture, picture, he, he']
    exact .error e
  · -- A layout takes nothing from a style but the size of the text in nodes.
    have hlayout : Layout.ofDocument { d with header := some h' } engine =
        Layout.ofDocument { d with header := some h } engine := by
      rw [Layout.ofDocument, Layout.ofDocument, hs, hs']
      change (do
        let gaps ← Layout.gaps engine
        _) = _
      rw [← hss.nodeText.size]
      rfl
    have hpicture := picture_of_style (d := { d with header := some h }) hs engine
    have hpicture' := picture_of_style (d := { d with header := some h' }) hs' engine
    rw [hpicture, hpicture', hlayout]
    refine .step _ fun l hl => ?_
    obtain ⟨hnodes, hedges, hends⟩ := layout_spec (hd.withHeader (some h)) hl
    have hdrawing : ∃ w : Drawing d, ∀ s, d.pictureOf s l = .ok (w.picture s) := pictureOf_ok hnodes hedges hends
    obtain ⟨w, hw⟩ := hdrawing
    change Alike d.Restyled (d.pictureOf s l) (d.pictureOf s' l)
    rw [hw, hw]
    exact .ok ⟨w, s, s', hss, rfl, rfl⟩

theorem paint_alike (hd : d.Named) (h : d.Shaded t t') (engine : Value) :
    Alike (fun svg svg' => ∃ m m', d.Restyled m m' ∧ svg = m.write ∧ svg' = m'.write) (t.paint engine)
      (t'.paint engine) :=
  (picture_alike hd h engine).bind fun m m' hm => .ok ⟨m, m', hm, rfl, rfl⟩

end Document

end Yuml
