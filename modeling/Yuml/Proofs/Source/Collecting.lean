import Yuml.Proofs.Text.Basic
import Yuml.Source.Collector

namespace Yuml

def instructionsIn (lines : List Text) : List Text :=
  (lines.map Text.trim).filter fun s => !s.isEmpty && !isComment s

def directivesIn (lines : List Text) : List Directive :=
  (lines.map Text.trim).filterMap Directive.parse?

namespace Directive

def kind? (d : Directive) : Option DiagramKind :=
  if d.key = "type" then DiagramKind.ofName? d.value else none

def direction? (d : Directive) : Option Direction :=
  if d.key = "direction" then Direction.ofWord? d.value else none

theorem isComment_of_parse? {s : Text} {d : Directive} (h : parse? s = some d) : isComment s = true := by
  obtain ⟨r, hr, -⟩ := Option.bind_eq_some_iff.mp h
  obtain rfl := Text.dropPrefix?_eq_some_iff.mp hr
  rfl

theorem exists_apply_eq (d : Directive) (draft : Draft) :
    ∃ generate, (d.apply draft).1 = { draft with
      kind := (d.kind?.map Value.kind).getD draft.kind
      direction := d.direction?.getD draft.direction
      generate } := by
  unfold apply kind? direction?
  by_cases hk : d.key = "type"
  · have hd : d.key ≠ "direction" := by rw [hk]; decide
    rw [if_pos hk, if_pos hk, if_neg hd]
    cases DiagramKind.ofName? d.value <;> exact ⟨_, rfl⟩
  · rw [if_neg hk, if_neg hk]
    by_cases hd : d.key = "direction"
    · rw [if_pos hd, if_pos hd]
      cases Direction.ofWord? d.value <;> exact ⟨_, rfl⟩
    · rw [if_neg hd, if_neg hd]
      split
      · split <;> exact ⟨_, rfl⟩
      · exact ⟨_, rfl⟩

end Directive

def lastKind? (lines : List Text) : Option DiagramKind :=
  ((directivesIn lines).filterMap Directive.kind?).getLast?

def lastDirection? (lines : List Text) : Option Direction :=
  ((directivesIn lines).filterMap Directive.direction?).getLast?

theorem directivesIn_append (ls ms : List Text) :
    directivesIn (ls ++ ms) = directivesIn ls ++ directivesIn ms := by
  simp [directivesIn]

theorem lastKind?_append (ls ms : List Text) :
    lastKind? (ls ++ ms) = (lastKind? ms).or (lastKind? ls) := by
  simp [lastKind?, directivesIn_append, List.getLast?_append]

theorem lastDirection?_append (ls ms : List Text) :
    lastDirection? (ls ++ ms) = (lastDirection? ms).or (lastDirection? ls) := by
  simp [lastDirection?, directivesIn_append, List.getLast?_append]

theorem instructionsIn_append (ls ms : List Text) :
    instructionsIn (ls ++ ms) = instructionsIn ls ++ instructionsIn ms := by
  simp [instructionsIn]

theorem getD_map_or {α β : Type} (f : α → β) (x y : Option α) (b : β) :
    ((x.or y).map f).getD b = (x.map f).getD ((y.map f).getD b) := by
  cases x <;> rfl

theorem getD_or {α : Type} (x y : Option α) (a : α) : (x.or y).getD a = x.getD (y.getD a) := by
  cases x <;> rfl

namespace Collector

/-- What lines make of a collector, but for what is generated and reported: the last valid
directives win, and the instructions are appended. -/
def After (c c' : Collector) (lines : List Text) : Prop :=
  c'.instructions = c.instructions ++ instructionsIn lines ∧
    ∃ generate, c'.draft = { c.draft with
      kind := ((lastKind? lines).map Value.kind).getD c.draft.kind
      direction := (lastDirection? lines).getD c.draft.direction
      generate }

theorem directivesIn_singleton (line : Text) :
    directivesIn [line] = match Statement.ofLine line with
      | .directive d => [d]
      | _ => [] := by
  simp only [directivesIn, Statement.ofLine, List.map_cons, List.map_nil]
  cases hd : Directive.parse? (Text.trim line) with
  | some d =>
    rw [if_pos (by exact Directive.isComment_of_parse? hd)]
    simp [hd]
  | none =>
    by_cases hcomment : isComment (Text.trim line)
    · rw [if_pos (by exact hcomment)]
      simp [hd]
    · rw [if_neg (by exact hcomment)]
      by_cases hempty : (Text.trim line).isEmpty <;> simp [hd, hempty]

theorem instructionsIn_singleton (line : Text) :
    instructionsIn [line] = match Statement.ofLine line with
      | .instruction s => [s]
      | _ => [] := by
  simp only [instructionsIn, Statement.ofLine, List.map_cons, List.map_nil]
  by_cases hcomment : isComment (Text.trim line)
  · rw [if_pos (by exact hcomment)]
    cases Directive.parse? (Text.trim line) <;> simp [hcomment]
  · rw [if_neg (by exact hcomment)]
    by_cases hempty : (Text.trim line).isEmpty <;> simp [hcomment, hempty]

theorem after_take (c : Collector) (line : Text) : After c (c.take line) [line] := by
  have hi := instructionsIn_singleton line
  have hd := directivesIn_singleton line
  unfold After lastKind? lastDirection?
  rw [hi, hd, take]
  cases Statement.ofLine line with
  | blank => exact ⟨(List.append_nil _).symm, c.draft.generate, rfl⟩
  | comment => exact ⟨(List.append_nil _).symm, c.draft.generate, rfl⟩
  | instruction s => exact ⟨rfl, c.draft.generate, rfl⟩
  | directive d =>
    obtain ⟨generate, hdraft⟩ := d.exists_apply_eq c.draft
    refine ⟨(List.append_nil _).symm, generate, ?_⟩
    simp only [hdraft, List.filterMap_cons, List.filterMap_nil]
    cases d.kind? <;> cases d.direction? <;> rfl

theorem After.trans {c c' c'' : Collector} {ls ms : List Text} (h : After c c' ls)
    (h' : After c' c'' ms) : After c c'' (ls ++ ms) := by
  obtain ⟨hi, generate, hd⟩ := h
  obtain ⟨hi', generate', hd'⟩ := h'
  refine ⟨by rw [hi', hi, instructionsIn_append, List.append_assoc], generate', ?_⟩
  rw [hd', hd, lastKind?_append, lastDirection?_append, getD_map_or, getD_or]

theorem after_takeAll (c : Collector) (lines : List Text) : After c (c.takeAll lines) lines := by
  induction lines generalizing c with
  | nil => exact ⟨(List.append_nil _).symm, c.draft.generate, rfl⟩
  | cons line lines ih => exact (after_take c line).trans (ih (c.take line))

end Collector

end Yuml
