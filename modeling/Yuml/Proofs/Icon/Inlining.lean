import Yuml.Proofs.Drawing.Canvas
import Yuml.Proofs.Icon.Bundled
import Yuml.Proofs.Icon.Reports

namespace Yuml.IconLibrary

open Xml Number

def Succeeds {α : Type} (x : Reporting α) : Prop :=
  ∀ earlier, ∃ a later, x.run.run earlier = (.ok a, later)

namespace Succeeds

variable {α β : Type}

theorem result (a : α) : Succeeds (ExceptT.mk (pure (.ok a)) : Reporting α) :=
  fun earlier => ⟨a, earlier, rfl⟩

theorem bind {x : Reporting α} {f : α → Reporting β} (hx : Succeeds x) (hf : ∀ a, Succeeds (f a)) :
    Succeeds (x >>= f) := by
  intro earlier
  obtain ⟨a, middle, ha⟩ := hx earlier
  obtain ⟨b, later, hb⟩ := hf a middle
  refine ⟨b, later, ?_⟩
  rw [ExceptT.run_bind, StateT.run_bind, ha]
  exact hb

theorem composes : Composes Succeeds :=
  ⟨result, fun warnings earlier => ⟨(), earlier ++ warnings, rfl⟩, bind⟩

end Succeeds

def IsNumericBox (a : List (Name × Text)) : Prop :=
  ∀ name ∈ ["x".toList, "y".toList, "width".toList, "height".toList], ∀ v, Icon.attribute? a name = some v →
    ∃ x, Value.readFloat v = .ok x

theorem isNumericBox_of_hasBox {a : Attributes} (h : Pen.HasBox a) :
    IsNumericBox (a.map fun p => ((⟨none, p.1⟩ : Name), p.2)) := by
  intro name hname v hv
  obtain ⟨q, hq, rfl⟩ := Option.map_eq_some_iff.mp hv
  obtain ⟨p, hp, rfl⟩ := List.mem_map.mp (List.mem_of_find?_eq_some hq)
  have hsame := List.find?_some hq
  have heq : p.1 = name := congrArg Name.base (of_decide_eq_true hsame)
  obtain ⟨x, hx⟩ := h p hp (heq ▸ hname)
  dsimp only
  rw [hx]
  exact readFloat_fmt x

theorem readFloat_box {a : List (Name × Text)} (h : IsNumericBox a) (name : Text)
    (hname : name ∈ ["x".toList, "y".toList, "width".toList, "height".toList]) {otherwise : Text}
    (hotherwise : ∃ y, Value.readFloat otherwise = .ok y) :
    ∃ y, Value.readFloat ((Icon.attribute? a name).getD otherwise) = .ok y := by
  cases hv : Icon.attribute? a name with
  | none => exact hotherwise
  | some v => exact h name hname v hv

theorem scaleTo_ok {given : Option Text} {own : Float} (hgiven : ∃ y, Value.readFloat (given.getD (fmt own)) = .ok y)
    (hown : (own == 0.0) = false) : ∃ y, scaleTo given own = .ok y := by
  obtain ⟨y, hy⟩ := hgiven
  exact ⟨y / own, by rw [scaleTo, hy, hown]; rfl⟩

theorem inline_ok {icon : Icon} (hwidth : (icon.width == 0.0) = false) (hheight : (icon.height == 0.0) = false)
    {a : List (Name × Text)} (hbox : IsNumericBox a) (ink : Text) :
    ∃ transform, IconLibrary.inline icon a ink = .ok (.element ⟨some svgSpace, "g"⟩
      [(⟨none, "transform"⟩, transform), (⟨none, "fill"⟩, "none"), (⟨none, "stroke"⟩, ink)] icon.children) := by
  have hzero : ∃ y, Value.readFloat "0".toList = .ok y := ⟨_, rfl⟩
  obtain ⟨x, hx⟩ := readFloat_box hbox "x" (by decide) hzero
  obtain ⟨y, hy⟩ := readFloat_box hbox "y" (by decide) hzero
  obtain ⟨sx, hsx⟩ := scaleTo_ok (readFloat_box hbox "width" (by decide) (readFloat_fmt icon.width)) hwidth
  obtain ⟨sy, hsy⟩ := scaleTo_ok (readFloat_box hbox "height" (by decide) (readFloat_fmt icon.height)) hheight
  simp only [IconLibrary.inline, hx, hy, hsx, hsy, bind, Except.bind, pure, Except.pure]
  exact ⟨_, rfl⟩

theorem answer_eq_some {icon found : Icon} {name : Name} {attributes : List (Name × Text)}
    (h : (answer [("actor".toList, icon)] name attributes).1 = some found) :
    name = imageName ∧ found = icon := by
  unfold answer at h
  cases hwanted : wanted? name attributes with
  | none =>
    rw [hwanted] at h
    cases h
  | some w =>
    rw [hwanted] at h
    refine ⟨?_, ?_⟩
    · by_contra hname
      rw [wanted?, if_neg hname] at hwanted
      cases hwanted
    · dsimp only at h
      split at h
      · next known hknown =>
        have hmem := List.mem_singleton.mp (List.mem_of_find?_eq_some hknown)
        cases h
        exact congrArg Prod.snd hmem
      · cases h

theorem process_canvas {content : List Markup} (h : ∀ i ∈ content, Pen.Drawn Legal i) (width height : Float)
    (isDark : Bool) {icon : Icon} (hwidth : (icon.width == 0.0) = false) (hheight : (icon.height == 0.0) = false) :
    Succeeds (process [("actor".toList, icon)] isDark (Pen.canvas width height content).write) := by
  have hread := Pen.readTree?_canvas h width height
  refine Succeeds.composes.process _ _ _ (fun t ht => ?_) fun _ hnone => ?_
  · obtain rfl := Option.some.inj (hread.symm.trans ht)
    refine Succeeds.composes.replaceTree _ _ ?_ ?_
    · intro tag htag found hfound
      obtain ⟨hname, rfl⟩ := answer_eq_some hfound
      rw [Item.startTags_inSpace] at htag
      obtain ⟨⟨n, a⟩, hmem, rfl⟩ := List.mem_map.mp htag
      obtain rfl : n = "image".toList := congrArg Name.base hname
      have hbox := isNumericBox_of_hasBox (Pen.hasBox_of_mem_startTags h hmem)
      obtain ⟨transform, htransform⟩ := inline_ok hwidth hheight hbox (Theme.choose isDark).ink
      dsimp only
      rw [htransform]
      exact .result _
    · intro name attributes children heq hsome
      obtain ⟨found, hfound⟩ := Option.isSome_iff_exists.mp hsome
      obtain ⟨rfl, -⟩ := answer_eq_some hfound
      rw [Pen.sheet, Item.tag, Item.inSpace] at heq
      cases heq
  · rw [hread] at hnone
    cases hnone

end Yuml.IconLibrary
