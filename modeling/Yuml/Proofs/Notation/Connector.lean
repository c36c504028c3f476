import Yuml.Notation.Connector
import Yuml.Proofs.Text.Trimmed

namespace Yuml.Notation.Connector

theorem given_eq {blank : Connector} {read : Text → Connector} (hblank : read [] = blank) (s : Option Text) :
    given blank read s = read (s.getD []) := by
  cases s with
  | none => exact hblank.symm
  | some s =>
    cases s with
    | nil => exact hblank.symm
    | cons c s => rfl

theorem association_eq (s : Option Text) : association s = ofAssociation (s.getD []) :=
  given_eq (by decide) s

theorem line_eq (s : Option Text) : line s = ofLine (s.getD []) :=
  given_eq (by decide) s

theorem transition_eq (s : Option Text) : transition s = ofTransition (s.getD []) :=
  given_eq (by decide) s

section Trim

variable (s : Text)

theorem ofAssociation_trim : ofAssociation (Text.trim s) = ofAssociation s := by
  unfold ofAssociation
  rw [Text.trim_trim]

theorem ofLine_trim : ofLine (Text.trim s) = ofLine s := by
  unfold ofLine
  rw [Text.trim_trim]

theorem ofTransition_trim : ofTransition (Text.trim s) = ofTransition s := by
  unfold ofTransition
  rw [Text.trim_trim]

theorem ofUseCase_trim : ofUseCase (Text.trim s) = ofUseCase s := by
  unfold ofUseCase
  rw [Text.trim_trim]

end Trim

end Yuml.Notation.Connector
