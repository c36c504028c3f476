import Yuml.Proofs.Notation.Connector
import Yuml.Proofs.Text.Occurrences

namespace Yuml

def LineStyle.stroke : LineStyle → Text
  | .solid => "-"
  | .dashed => "-.-"

namespace Notation

def tailMark : Arrow → Text
  | .none | .filled => ""
  | .vee => "<"
  | .triangle => "^"
  | .diamond => "<>"
  | .filledDiamond => "++"

def headMark : Arrow → Text
  | .vee => ">"
  | a => tailMark a

def markSigns : Text :=
  "<>^+"

structure Association where
  tailArrow : Arrow
  tailLabel : Text
  style : LineStyle
  headLabel : Text
  headArrow : Arrow

namespace Association

def print (a : Association) : Text :=
  tailMark a.tailArrow ++ (a.tailLabel ++ (a.style.stroke ++ (a.headLabel ++ headMark a.headArrow)))

structure Readable (a : Association) : Prop where
  tailArrow : a.tailArrow ≠ .filled
  headArrow : a.headArrow ≠ .filled
  tailLabel : Text.trim a.tailLabel = a.tailLabel
  headLabel : Text.trim a.headLabel = a.headLabel
  beginning : ∀ c ∈ a.tailLabel.head?, c ∉ markSigns
  ending : ∀ c ∈ a.headLabel.getLast?, c ∉ markSigns
  undashed : '-' ∉ a.tailLabel
  unstruck : a.style = .solid → ¬ LineStyle.dashed.stroke <:+: '-' :: a.headLabel

end Association

theorem trim_stroke (style : LineStyle) : Text.trim style.stroke = style.stroke := by
  cases style <;> rfl

theorem head?_stroke (style : LineStyle) (s : Text) : (style.stroke ++ s).head? = some '-' := by
  cases style <;> rfl

theorem getLast?_stroke (style : LineStyle) : style.stroke.getLast? = some '-' := by
  cases style <;> rfl

theorem trim_tailMark (a : Arrow) : Text.trim (tailMark a) = tailMark a := by
  cases a <;> rfl

theorem trim_headMark (a : Arrow) : Text.trim (headMark a) = headMark a := by
  cases a <;> rfl

namespace Connector

theorem dropPrefix?_sign {s : Text} (hs : ∀ c ∈ s.head?, c ∉ markSigns) {c : Char} (hc : c ∈ markSigns) (m : Text) :
    Text.dropPrefix? (c :: m) s = none := by
  apply Text.dropPrefix?_eq_none_iff.mpr
  rintro ⟨r, rfl⟩
  exact hs c rfl hc

theorem takeTail_tailMark {a : Arrow} (ha : a ≠ .filled) {s : Text} (hs : ∀ c ∈ s.head?, c ∉ markSigns) :
    takeTail (tailMark a ++ s) = (a, s) := by
  cases a with
  | filled => exact absurd rfl ha
  | none => simp (disch := decide) [takeTail, tailMarkers, tailMark, dropPrefix?_sign hs, List.findSome?_cons]
  | vee => simp (disch := decide) [takeTail, tailMarkers, tailMark, Text.dropPrefix?, dropPrefix?_sign hs, List.findSome?_cons]
  | triangle | diamond | filledDiamond => simp [takeTail, tailMarkers, tailMark, Text.dropPrefix?]

theorem takeHead_headMark {a : Arrow} (ha : a ≠ .filled) {s : Text} (hs : ∀ c ∈ s.getLast?, c ∉ markSigns) :
    takeHead (s ++ headMark a) = (a, s) := by
  rw [← List.head?_reverse] at hs
  cases a with
  | filled => exact absurd rfl ha
  | none => simp (disch := decide) [takeHead, headMarkers, headMark, tailMark, Text.dropSuffix?, dropPrefix?_sign hs, List.findSome?_cons]
  | vee => simp (disch := decide) [takeHead, headMarkers, headMark, Text.dropSuffix?, Text.dropPrefix?, dropPrefix?_sign hs, List.findSome?_cons]
  | triangle | diamond | filledDiamond =>
    simp [takeHead, headMarkers, headMark, tailMark, Text.dropSuffix?, Text.dropPrefix?]

theorem occursIn_stroke {l r : Text} (hl : '-' ∉ l) {style : LineStyle}
    (hr : style = .solid → ¬ LineStyle.dashed.stroke <:+: '-' :: r) :
    Text.occursIn "-.-" (l ++ (style.stroke ++ r)) = (style == .dashed) := by
  rw [Bool.eq_iff_iff, Text.occursIn_iff]
  refine (Text.infix_append_iff hl _).trans ?_
  cases style with
  | solid => exact iff_of_false (hr rfl) (by decide)
  | dashed => exact iff_of_true (List.prefix_append _ _).isInfix rfl

theorem breakOn_stroke {l : Text} (hl : '-' ∉ l) (style : LineStyle) (r : Text) :
    Text.breakOn style.stroke (l ++ (style.stroke ++ r)) = (l, some r) := by
  cases style with
  | solid => exact Text.breakOn_append hl [] r
  | dashed => exact Text.breakOn_append hl ['.', '-'] r

end Connector

namespace Association

variable {a : Association}

theorem trim_print (h : a.Readable) : Text.trim a.print = a.print := by
  have hhead := Text.trimBy_append_eq_self h.headLabel (trim_headMark a.headArrow)
  have hline := Text.trimBy_append_eq_self (trim_stroke a.style) hhead
  exact Text.trimBy_append_eq_self (trim_tailMark a.tailArrow) (Text.trimBy_append_eq_self h.tailLabel hline)

theorem takeMarks_print (h : a.Readable) :
    Connector.takeTail a.print =
        (a.tailArrow, a.tailLabel ++ (a.style.stroke ++ (a.headLabel ++ headMark a.headArrow))) ∧
      Connector.takeHead (a.tailLabel ++ (a.style.stroke ++ (a.headLabel ++ headMark a.headArrow))) =
        (a.headArrow, a.tailLabel ++ (a.style.stroke ++ a.headLabel)) := by
  constructor
  · apply Connector.takeTail_tailMark h.tailArrow
    intro c hc
    rw [List.head?_append, head?_stroke] at hc
    rcases Option.or_eq_some_iff.mp hc with hc | ⟨-, hc⟩
    · exact h.beginning c hc
    · cases hc
      decide
  · simp only [← List.append_assoc]
    apply Connector.takeHead_headMark h.headArrow
    intro c hc
    rw [List.getLast?_append, List.getLast?_append, getLast?_stroke] at hc
    rcases Option.or_eq_some_iff.mp hc with hc | ⟨-, hc⟩
    · exact h.ending c hc
    · cases hc
      decide

end Association

theorem association_print (a : Association) (h : a.Readable) :
    Connector.association (some a.print) =
      { style := a.style, headArrow := a.headArrow, tailArrow := a.tailArrow,
        headLabel := Text.nonEmpty? a.headLabel, tailLabel := Text.nonEmpty? a.tailLabel } := by
  obtain ⟨htail, hhead⟩ := Association.takeMarks_print h
  have hdashed := Connector.occursIn_stroke h.undashed h.unstruck
  have hstroke : (if a.style == .dashed then "-.-" else "-" : Text) = a.style.stroke := by cases a.style <;> rfl
  have hstyle : (if a.style == .dashed then LineStyle.dashed else .solid) = a.style := by cases a.style <;> rfl
  have hbroken := Connector.breakOn_stroke h.undashed a.style a.headLabel
  rw [Connector.association_eq, Option.getD_some, Connector.ofAssociation, Association.trim_print h, htail]
  simp only [hhead, hdashed, hstyle, hstroke, hbroken, Option.getD_some, h.headLabel, h.tailLabel]

theorem association_print_dotted :
    let a : Association := ⟨.diamond, "0..*", .solid, "on-line .-", .vee⟩
    a.Readable ∧ a.print = "<>0..*-on-line .->".toList ∧
      Connector.association (some a.print) =
        ⟨.solid, .vee, .diamond, none, some "on-line .-".toList, some "0..*".toList⟩ := by
  intro a
  have h : a.Readable := by
    constructor
    case tailArrow | headArrow | tailLabel | headLabel | undashed => decide +kernel
    case beginning | ending =>
      rintro c ⟨⟩
      decide +kernel
    case unstruck =>
      intro _
      decide +kernel
  exact ⟨h, by decide +kernel, association_print a h⟩

end Notation

end Yuml
