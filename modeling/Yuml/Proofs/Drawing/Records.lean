import Mathlib.Tactic.Ring
import Yuml.Proofs.Drawing.Compartments
import Yuml.Proofs.Drawing.Marks

namespace Yuml.Pen

open Number Scalar Xml Layered
open Item (hasName)

section Rows

variable {α : Type} [Scalar α]

structure Row (α : Type) where
  line : Option α
  text : Text
  x : α
  top : α
  centred : Bool

def rowOf (p : Place α) (first : Bool) (c : Compartment α) : Row α where
  line := if first then none else some c.top
  text := c.text
  x := if first then p.cx else p.x + padX
  top := c.top + padY
  centred := first

def recordRows (size : α) (p : Place α) (ts : List Text) : List (Row α) :=
  match stackCompartments size p.y ts with
  | [] => []
  | name :: rest => rowOf p true name :: rest.map (rowOf p false)

theorem lines_recordRows (size : α) (p : Place α) (ts : List Text) :
    (recordRows size p ts).filterMap (·.line) = (stackCompartments size p.y ts).tail.map (·.top) := by
  unfold recordRows
  cases stackCompartments size p.y ts with
  | nil => rfl
  | cons name rest =>
    rw [List.filterMap_cons_none rfl, List.filterMap_map, List.tail_cons, ← List.filterMap_eq_map]
    rfl

theorem length_lines_recordRows (size : α) (p : Place α) {ts : List Text} (hts : ts ≠ []) :
    ((recordRows size p ts).filterMap (·.line)).length + 1 = ts.length := by
  have hlength := congrArg List.length (map_text_stackCompartments size p.y ts)
  have hpos := List.length_pos_iff.mpr hts
  rw [List.length_map] at hlength
  rw [lines_recordRows, List.length_map, List.length_tail, hlength]
  omega

theorem map_text_recordRows (size : α) (p : Place α) (ts : List Text) :
    (recordRows size p ts).map (·.text) = ts := by
  have htexts := map_text_stackCompartments size p.y ts
  unfold recordRows
  revert htexts
  cases stackCompartments size p.y ts with
  | nil => exact id
  | cons name rest =>
    intro htexts
    rw [← htexts, List.map_cons, List.map_cons, List.map_map]
    rfl

end Rows

def Row.drawLine (p : Place Float) (ink : Text) (r : Row Float) : List Markup :=
  (r.line.map fun y => separator p y ink).toList

def Row.drawText (l : Lettering) (r : Row Float) : List Markup :=
  label r.x r.top r.text l (if r.centred then "middle" else "start")

theorem recordPicture_eq (p : Place Float) (n : Node) (stroke : Attributes) (ink : Text) (l : Lettering) :
    recordPicture p n stroke ink l = rect p.x p.y p.width p.height stroke ::
      (recordRows l.size p n.compartments).flatMap fun r => r.drawLine p ink ++ r.drawText l := by
  unfold recordPicture recordRows
  congr 1
  cases stackCompartments l.size p.y n.compartments with
  | nil => rfl
  | cons name rest =>
    rw [List.flatMap_cons, List.flatMap_map]
    rfl

theorem lines_recordPicture (p : Place Float) (n : Node) (stroke : Attributes) (ink : Text) (l : Lettering) :
    (recordPicture p n stroke ink l).filter (hasName "line") =
      ((recordRows l.size p n.compartments).filterMap (·.line)).map fun y => separator p y ink := by
  have hbox : hasName "line" (rect p.x p.y p.width p.height stroke) = false := rfl
  have hline (r : Row Float) : (r.drawLine p ink).filter (hasName "line") = r.drawLine p ink := by
    unfold Row.drawLine
    cases r.line <;> rfl
  have htext (r : Row Float) : (r.drawText l).filter (hasName "line") = [] := by
    refine List.filter_eq_nil_iff.mpr fun i hi => ?_
    obtain ⟨q, -, rfl⟩ := List.mem_map.mp hi
    exact Bool.false_ne_true
  rw [recordPicture_eq, List.filter_cons_of_neg (Bool.eq_false_iff.mp hbox), List.filter_flatMap]
  simp only [List.filter_append, hline, htext, List.append_nil]
  rw [List.map_filterMap, List.filterMap_eq_flatMap_toList]
  rfl

section Exact

variable {size : Rat}

def Row.left (size : Rat) (r : Row Rat) : Rat :=
  if r.centred then r.x - (blockSize size r.text).1 / 2 else r.x

def Row.right (size : Rat) (r : Row Rat) : Rat :=
  r.left size + (blockSize size r.text).1

def Row.bottom (size : Rat) (r : Row Rat) : Rat :=
  r.top + (blockSize size r.text).2

def borders (p : Place Rat) (rows : List (Row Rat)) : List Rat :=
  p.y :: rows.filterMap (·.line) ++ [p.y + p.height]

/-- A record as it should be drawn in its box: one row for each compartment, laid end to end from the upper edge to the
lower one, a line between any two, and each text with some room around it between the lines or edges of its row and the
sides of the box. -/
structure Fits (size : Rat) (p : Place Rat) (ts : List Text) (rows : List (Row Rat)) : Prop where
  texts : rows.map (·.text) = ts
  stacked : EndToEnd (·.top) (fun c => c.top + c.height) p.y (stackCompartments size p.y ts) (p.y + p.height)
  lines : (rows.filterMap (·.line)).length + 1 = ts.length
  rising : (borders p rows).Pairwise (· < ·)
  between : ∀ i r, rows[i]? = some r → ∃ upper lower, (borders p rows)[i]? = some upper ∧
    (borders p rows)[i + 1]? = some lower ∧ r.top = upper + padY ∧ r.bottom size + padY = lower
  across : ∀ r ∈ rows, p.x + padX ≤ r.left size ∧ r.right size + padX ≤ p.x + p.width
  letters : ∀ r ∈ rows, ∀ q ∈ (labelLines r.text).zipIdx,
    r.top < baseline size r.top q.2 ∧ baseline size r.top q.2 < r.bottom size ∧
      ofNat q.1.length * charWidth size ≤ (blockSize size r.text).1

theorem exists_compartment {p : Place Rat} {ts : List Text} {i : Nat} {r : Row Rat}
    (h : (recordRows size p ts)[i]? = some r) :
    ∃ first c, (stackCompartments size p.y ts)[i]? = some c ∧ r = rowOf p first c := by
  unfold recordRows at h
  split at h
  · cases h
  · next c cs hstack =>
    rw [hstack]
    cases i with
    | zero =>
      cases h
      exact ⟨true, c, rfl, rfl⟩
    | succ i =>
      obtain ⟨d, hd, rfl⟩ := Option.map_eq_some_iff.mp (List.getElem?_map ▸ h)
      exact ⟨false, d, hd, rfl⟩

theorem borders_recordRows (size : Rat) (p : Place Rat) {ts : List Text} (hts : ts ≠ []) :
    borders p (recordRows size p ts) = (stackCompartments size p.y ts).map (·.top) ++ [p.y + p.height] := by
  obtain ⟨t, ts, rfl⟩ := List.exists_cons_of_ne_nil hts
  rw [borders, lines_recordRows]
  rfl

theorem baseline_within (h : 0 < size) (top : Rat) {s : Text} {i : Nat} (hi : i < (labelLines s).length) :
    top < baseline size top i ∧ baseline size top i < top + (blockSize size s).2 := by
  have hcount : (i : Rat) + 1 ≤ (labelLines s).length := by exact_mod_cast hi
  have hline : size < lineHeight size := by
    rw [lineHeight]
    linarith
  have hbefore : 0 ≤ (i : Rat) * lineHeight size := mul_nonneg (Nat.cast_nonneg i) (lineHeight_pos h).le
  have hall := mul_le_mul_of_nonneg_right hcount (lineHeight_pos h).le
  rw [add_mul, one_mul] at hall
  have hblock : (blockSize size s).2 = (labelLines s).length * lineHeight size := rfl
  have hbaseline : baseline size top i = top + i * lineHeight size + size := rfl
  rw [hblock, hbaseline]
  constructor <;> linarith

theorem fits_recordRows (h : 0 < size) {p : Place Rat} {ts : List Text} (hts : ts ≠ [])
    (hp : (p.width, p.height) = recordSize size ts) : Fits size p ts (recordRows size p ts) := by
  obtain ⟨hwidth, hheight⟩ := Prod.mk.inj hp
  have hstacked := endToEnd_stackCompartments size p.y ts
  rw [← hheight] at hstacked
  have hcompartment : ∀ c ∈ stackCompartments size p.y ts, c.height = (blockSize size c.text).2 + 2 * padY ∧
      (blockSize size c.text).1 + 2 * padX ≤ p.width := by
    intro c hc
    rw [height_stackCompartments size p.y ts c hc, compartmentHeight, decimal_two, hwidth]
    exact ⟨rfl, blockWidth_le_recordSize (text_mem_of_mem_stackCompartments hc)⟩
  constructor
  case texts => exact map_text_recordRows size p ts
  case stacked => exact hstacked
  case lines => exact length_lines_recordRows size p hts
  case rising =>
    rw [borders_recordRows size p hts]
    refine hstacked.pairwise_marks fun c hc => ?_
    rw [height_stackCompartments size p.y ts c hc]
    exact lt_add_of_pos_right _ (compartmentHeight_pos h _)
  case between =>
    intro i r hr
    obtain ⟨first, c, hc, rfl⟩ := exists_compartment hr
    obtain ⟨hupper, hlower⟩ := hstacked.getElem?_marks hc
    rw [borders_recordRows size p hts]
    refine ⟨c.top, c.top + c.height, hupper, hlower, rfl, ?_⟩
    rw [Row.bottom, (hcompartment c (List.mem_of_getElem? hc)).1]
    dsimp only [rowOf]
    ring
  case across =>
    intro r hr
    obtain ⟨i, hi⟩ := List.mem_iff_getElem?.mp hr
    obtain ⟨first, c, hc, rfl⟩ := exists_compartment hi
    have hfits := (hcompartment c (List.mem_of_getElem? hc)).2
    unfold Row.right Row.left rowOf
    cases first with
    | true =>
      simp only [if_true, Place.cx, decimal_two]
      constructor <;> linarith
    | false =>
      simp only [Bool.false_eq_true, if_false]
      exact ⟨le_refl _, by linarith⟩
  case letters =>
    intro r _ q hq
    obtain ⟨line, i⟩ := q
    obtain ⟨-, hi, hline⟩ := List.mem_zipIdx hq
    have hlength : line.length ≤ longestLine r.text := length_le_longestLine (List.fst_mem_of_mem_zipIdx hq)
    obtain ⟨habove, hbelow⟩ := baseline_within h r.top (by simpa using hi)
    exact ⟨habove, hbelow, mul_le_mul_of_nonneg_right (Nat.cast_le.mpr hlength) (charWidth_pos h).le⟩

end Exact

def orderRecord : Node where
  id := "A1"
  label := "Order"
  shape := .record
  fields := ["Or\nder", "total"]

def orderBox : Place Rat where
  id := "A1"
  layer := 0
  order := 0
  x := 10
  y := 20
  width := 46
  height := 55

end Yuml.Pen
