import Yuml.Proofs.Icon.Inlining
import Yuml.Proofs.Xml.Declarations

namespace Yuml

open Xml Number

namespace Icon

structure Frame where
  x : Float
  y : Float
  width : Float
  height : Float

namespace Frame

structure Reads (f : Frame) (a : List (Name × Text)) : Prop where
  x : ∃ v, attribute? a "x" = some v ∧ Value.readFloat v = .ok f.x
  y : ∃ v, attribute? a "y" = some v ∧ Value.readFloat v = .ok f.y
  width : ∃ v, attribute? a "width" = some v ∧ Value.readFloat v = .ok f.width
  height : ∃ v, attribute? a "height" = some v ∧ Value.readFloat v = .ok f.height

def numberIn (a : Attributes) (name : Text) : Float :=
  ((a.get? name).bind fun v => (Value.readFloat v).toOption).getD 0.0

def of (a : Attributes) : Frame :=
  ⟨numberIn a "x", numberIn a "y", numberIn a "width", numberIn a "height"⟩

theorem readFloat_numberIn {a : Attributes} {name : Text} {x : Float} (h : a.get? name = some (fmt x)) :
    Value.readFloat (fmt x) = .ok (numberIn a name) := by
  obtain ⟨y, hy⟩ := readFloat_fmt x
  rw [numberIn, h, Option.bind_some, hy]
  rfl

theorem reads_placeholder (x y width height : Float) :
    (of (Pen.placeholderAttributes x y width height)).Reads
      ((Pen.placeholderAttributes x y width height).map fun p => (⟨none, p.1⟩, p.2)) :=
  ⟨⟨_, rfl, readFloat_numberIn rfl⟩, ⟨_, rfl, readFloat_numberIn rfl⟩, ⟨_, rfl, readFloat_numberIn rfl⟩,
    ⟨_, rfl, readFloat_numberIn rfl⟩⟩

end Frame

variable (icon : Icon)

def transform (f : Frame) : Text :=
  IconLibrary.moveAndScale f.x f.y (f.width / icon.width) (f.height / icon.height)

def placed (f : Frame) (ink : Text) : Tree :=
  IconLibrary.grouped (icon.transform f) ink icon.children

end Icon

namespace Xml.Item

mutual

def swapImages (f : Attributes → Markup) : Markup → Markup
  | text s => text s
  | element name attributes children =>
    if name = "image" then f attributes else element name attributes (swapAllImages f children)

def swapAllImages (f : Attributes → Markup) : List Markup → List Markup
  | [] => []
  | i :: is => swapImages f i :: swapAllImages f is

end

mutual

def Tidy : Markup → Prop
  | text _ => True
  | element name attributes children =>
    (name = "image".toList → children = [] ∧ ∃ x y width height, attributes = Pen.placeholderAttributes x y width height) ∧
      TidyAll children

def TidyAll : List Markup → Prop
  | [] => True
  | i :: is => Tidy i ∧ (i.isElement = true → ∀ j ∈ is.head?, j.isElement = true) ∧ TidyAll is

end

end Xml.Item

namespace Xml.Item

mutual

theorem tidy_unified : ∀ i : Markup, Tidy i → Tidy (unified i)
  | .text _, _ => by
    rw [unified]
    trivial
  | .element name attributes children, ⟨himage, hchildren⟩ => by
    rw [unified]
    refine ⟨fun hname => ?_, tidyAll_unifiedAll children hchildren⟩
    obtain ⟨rfl, hbox⟩ := himage hname
    exact ⟨rfl, hbox⟩

theorem tidyAll_unifiedAll : ∀ is : List Markup, TidyAll is → TidyAll (unifiedAll is)
  | [], _ => by
    rw [unifiedAll]
    trivial
  | i :: is, ⟨hi, hhead, his⟩ => by
    rw [unifiedAll]
    refine ⟨tidy_unified i hi, fun helement => ?_, tidyAll_unifiedAll is his⟩
    rw [isElement_unified] at helement
    cases is with
    | nil => exact fun _ hj => nomatch hj
    | cons j js =>
      rw [unifiedAll]
      rintro k ⟨⟩
      rw [isElement_unified]
      exact hhead helement j rfl

end

end Xml.Item

namespace IconLibrary

open Item

theorem report_nil : report [] = (pure () : Reporting Unit) := by
  funext earlier
  have hsame : earlier ++ [] = earlier := List.append_nil earlier
  exact congrArg (fun w => ((.ok (), w) : Except Failure Unit × List Text)) hsame

theorem answer_other (icons : IconLibrary) {name : Name} (h : name ≠ imageName) (a : List (Name × Text)) :
    answer icons name a = (none, []) := by
  rw [answer, wanted?, if_neg h]

theorem inline_of_reads {icon : Icon} (hwidth : (icon.width == 0.0) = false) (hheight : (icon.height == 0.0) = false)
    {f : Icon.Frame} {a : List (Name × Text)} (h : f.Reads a) (ink : Text) :
    IconLibrary.inline icon a ink = .ok (icon.placed f ink) := by
  obtain ⟨⟨x, hx, hxf⟩, ⟨y, hy, hyf⟩, ⟨w, hw, hwf⟩, ⟨k, hk, hkf⟩⟩ := h
  simp only [IconLibrary.inline, scaleTo, hx, hy, hw, hk, Option.getD_some, hxf, hyf, hwf, hkf, hwidth, hheight, bind,
    Except.bind, pure, Except.pure, Bool.false_eq_true, if_false]
  rfl

def iconGroup (icon : Icon) (figure : List Markup) (ink : Text) (a : Attributes) : Markup :=
  .tag "g" (groupAttributes (icon.transform (.of a)) ink) figure

section

variable {icon : Icon} (hwidth : (icon.width == 0.0) = false) (hheight : (icon.height == 0.0) = false)
  {figure : List Markup} (hfigure : icon.children = inSpaceAll svgSpace figure) (ink : Text)

include hwidth hheight hfigure

theorem replaceAll_eq : ∀ is : List Markup, TidyAll is → ∀ drop : Bool,
    (drop = true → ∀ i ∈ is.head?, i.isElement = true) →
    replaceAll [("actor".toList, icon)] ink drop (inSpaceAll svgSpace is) =
      pure (inSpaceAll svgSpace (swapAllImages (iconGroup icon figure ink) is))
  | [], _, drop, _ => by
    rw [inSpaceAll, replaceAll, swapAllImages, inSpaceAll]
  | .text s :: is, ⟨_, _, his⟩, drop, hdrop => by
    have hkept : drop ≠ true := fun h => Bool.false_ne_true (hdrop h (.text s) rfl)
    rw [inSpaceAll, inSpace, replaceAll, replaceAll_eq is his false (fun h => nomatch h), pure_bind, if_neg hkept,
      swapAllImages, swapImages, inSpaceAll, inSpace]
  | .element name attributes children :: is, ⟨⟨himage, hchildren⟩, hhead, his⟩, drop, _ => by
    rw [inSpaceAll, inSpace, replaceAll, swapAllImages, swapImages, inSpaceAll]
    by_cases hname : name = "image".toList
    · obtain ⟨rfl, x, y, w, k, rfl⟩ := himage hname
      subst hname
      have hinline := inline_of_reads hwidth hheight (Icon.Frame.reads_placeholder x y w k) ink
      rw [if_pos rfl, iconGroup, Item.tag, inSpace, ← hfigure]
      change (do
        report []
        let group ← ExceptT.mk (pure (IconLibrary.inline icon _ ink))
        let _ ← replaceAll [("actor".toList, icon)] ink false (inSpaceAll svgSpace [])
        let rest ← replaceAll [("actor".toList, icon)] ink true (inSpaceAll svgSpace is)
        return group :: rest) = _
      rw [hinline, report_nil, pure_bind, inSpaceAll, replaceAll, replaceAll_eq is his true fun _ => hhead rfl]
      rfl
    · have hother : (⟨some svgSpace, name⟩ : Name) ≠ imageName := fun heq => hname (congrArg Name.base heq)
      rw [answer_other _ hother, if_neg hname, inSpace]
      dsimp only
      rw [report_nil, pure_bind, replaceAll_eq children hchildren false (fun h => nomatch h), pure_bind,
        replaceAll_eq is his false (fun h => nomatch h), pure_bind]

theorem replaceInside_eq {name : Text} (hname : name ≠ "image".toList) (attributes : Attributes)
    {children : List Markup} (h : TidyAll children) :
    replaceInside [("actor".toList, icon)] ink (inSpace svgSpace (.element name attributes children)) =
      pure (inSpace svgSpace (swapImages (iconGroup icon figure ink) (.element name attributes children))) := by
  rw [inSpace, replaceInside, replaceAll_eq hwidth hheight hfigure ink children h false (fun h => nomatch h), pure_bind,
    swapImages, if_neg hname, inSpace]

theorem replaceTree_eq {name : Text} (hname : name ≠ "image".toList) (attributes : Attributes)
    {children : List Markup} (h : TidyAll children) :
    replaceTree [("actor".toList, icon)] ink (inSpace svgSpace (.element name attributes children)) =
      pure (inSpace svgSpace (swapImages (iconGroup icon figure ink) (.element name attributes children))) := by
  have hother : (⟨some svgSpace, name⟩ : Name) ≠ imageName := fun heq => hname (congrArg Name.base heq)
  have hinside := replaceInside_eq hwidth hheight hfigure ink hname attributes h
  rw [inSpace] at hinside ⊢
  unfold replaceTree
  dsimp only
  rw [answer_other _ hother]
  dsimp only
  rw [report_nil, pure_bind]
  exact hinside

theorem process_canvas_eq {content : List Markup} (h : ∀ i ∈ content, Pen.Drawn Legal i) (htidy : TidyAll content)
    (width height : Float) (isDark : Bool) :
    process [("actor".toList, icon)] isDark (Pen.canvas width height content).write =
      pure (if Text.occursIn placeholderMark (Pen.canvas width height content).write then
        (Pen.canvas width height (swapAllImages (iconGroup icon figure (Theme.choose isDark).ink)
          (unifiedAll content))).write
      else (Pen.canvas width height content).write) := by
  have hname : "svg".toList ≠ "image".toList := by decide
  unfold process
  split
  · rw [Pen.readTree?_canvas h width height]
    dsimp only
    rw [Pen.sheet, Item.tag, replaceTree_eq hwidth hheight hfigure _ hname _ (tidyAll_unifiedAll content htidy), pure_bind,
      swapImages, if_neg hname, toMarkup_inSpace]
    rfl
  · rfl

end

end IconLibrary

end Yuml
