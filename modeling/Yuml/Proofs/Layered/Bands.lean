import Yuml.Proofs.Layered.Spacing

namespace Yuml.Layered.Plan

open Number

section AnyScalar

variable {α : Type} [Scalar α] (p : Plan α)

theorem bands_cons (next : α) (row : List Text) (rows : List (List Text)) :
    p.bands next (row :: rows) =
      (row, next) :: p.bands (next + (p.rowDepth row + p.rankGap)) rows :=
  rfl

theorem bandsEnd_cons (next : α) (row : List Text) (rows : List (List Text)) :
    p.bandsEnd next (row :: rows) = p.bandsEnd (next + (p.rowDepth row + p.rankGap)) rows :=
  rfl

theorem map_fst_bands (next : α) (rows : List (List Text)) :
    (p.bands next rows).map (·.1) = rows := by
  induction rows generalizing next with
  | nil => rfl
  | cons row rows ih => rw [bands_cons, List.map_cons, ih]

end AnyScalar

variable {p : Plan Rat}

theorem depth_le_rowDepth {row : List Text} {id : Text} (h : id ∈ row) :
    (p.extent id).depth ≤ p.rowDepth row :=
  Scalar.le_largest? (List.mem_map_of_mem (f := fun id => (p.extent id).depth) h)

theorem exists_depth_eq_rowDepth {row : List Text} (h : row ≠ []) :
    ∃ id ∈ row, (p.extent id).depth = p.rowDepth row := by
  have hdepths : (row.map fun id => (p.extent id).depth) ≠ [] := mt List.map_eq_nil_iff.mp h
  exact List.mem_map.mp (Scalar.largest?_mem hdepths 0.0)

theorem rowDepth_nonneg {row : List Text} (h : p.Sized row) : 0 ≤ p.rowDepth row := by
  cases row with
  | nil => exact Scalar.decimal_zero.ge
  | cons id ids => exact (h id List.mem_cons_self).2.trans (depth_le_rowDepth List.mem_cons_self)

theorem le_bandsEnd (hgap : 0 ≤ p.rankGap) {rows : List (List Text)}
    (hsized : ∀ row ∈ rows, p.Sized row) (next : Rat) : next ≤ p.bandsEnd next rows := by
  induction rows generalizing next with
  | nil => exact le_refl next
  | cons row rows ih =>
    have hdepth := rowDepth_nonneg (hsized row List.mem_cons_self)
    have hrest := ih (fun r hr => hsized r (List.mem_cons_of_mem _ hr))
      (next + (p.rowDepth row + p.rankGap))
    rw [bandsEnd_cons]
    linarith

theorem bands_within (hgap : 0 ≤ p.rankGap) {rows : List (List Text)}
    (hsized : ∀ row ∈ rows, p.Sized row) (next : Rat) :
    ∀ b ∈ p.bands next rows, next ≤ b.2 ∧
      b.2 + p.rowDepth b.1 + p.rankGap ≤ p.bandsEnd next rows := by
  induction rows generalizing next with
  | nil => exact fun b hb => nomatch hb
  | cons row rows ih =>
    have hdepth := rowDepth_nonneg (hsized row List.mem_cons_self)
    have hrest : ∀ r ∈ rows, p.Sized r := fun r hr => hsized r (List.mem_cons_of_mem _ hr)
    rw [bands_cons, bandsEnd_cons]
    rintro b (_ | ⟨_, hb⟩)
    · have hend := le_bandsEnd hgap hrest (next + (p.rowDepth row + p.rankGap))
      exact ⟨le_refl next, by dsimp only; linarith⟩
    · obtain ⟨hstart, hend⟩ := ih hrest _ b hb
      exact ⟨by linarith, hend⟩

theorem bands_spaced (hgap : 0 ≤ p.rankGap) {rows : List (List Text)}
    (hsized : ∀ row ∈ rows, p.Sized row) (next : Rat) :
    (p.bands next rows).Pairwise fun a b => a.2 + p.rowDepth a.1 + p.rankGap ≤ b.2 := by
  induction rows generalizing next with
  | nil => exact .nil
  | cons row rows ih =>
    have hrest : ∀ r ∈ rows, p.Sized r := fun r hr => hsized r (List.mem_cons_of_mem _ hr)
    rw [bands_cons]
    refine List.pairwise_cons.mpr ⟨fun b hb => ?_, ih hrest _⟩
    have hstart := (bands_within hgap hrest _ b hb).1
    dsimp only
    linarith

theorem totalDepth_eq (rows : List (List Text)) :
    p.totalDepth rows = max 0 (p.bandsEnd 0 rows - p.rankGap) := by
  rw [← Scalar.decimal_zero, ← Scalar.larger_eq_max]
  rfl

theorem le_totalDepth (hgap : 0 ≤ p.rankGap) {rows : List (List Text)}
    (hsized : ∀ row ∈ rows, p.Sized row) {b : List Text × Rat} (hb : b ∈ p.bands 0 rows) :
    b.2 + p.rowDepth b.1 ≤ p.totalDepth rows := by
  have hend := (bands_within hgap hsized 0 b hb).2
  rw [totalDepth_eq, le_max_iff]
  exact .inr (by linarith)

theorem bandsEnd_eq {rows : List (List Text)} {next : Rat} {b : List Text × Rat}
    (h : (p.bands next rows).getLast? = some b) : p.bandsEnd next rows = b.2 + (p.rowDepth b.1 + p.rankGap) := by
  induction rows generalizing next with
  | nil => cases h
  | cons row rows ih =>
    rw [bandsEnd_cons]
    cases rows with
    | nil =>
      obtain rfl := Option.some.inj h
      rfl
    | cons row' rows =>
      rw [bands_cons, bands_cons, List.getLast?_cons_cons, ← bands_cons] at h
      exact ih h

theorem totalDepth_eq_last (hgap : 0 ≤ p.rankGap) {rows : List (List Text)} (hsized : ∀ row ∈ rows, p.Sized row)
    {b : List Text × Rat} (h : (p.bands 0 rows).getLast? = some b) : p.totalDepth rows = b.2 + p.rowDepth b.1 := by
  have hmem := List.mem_of_getLast? h
  have hrow : b.1 ∈ rows := p.map_fst_bands 0 rows ▸ List.mem_map_of_mem hmem
  have hstart := (bands_within hgap hsized 0 b hmem).1
  have hdepth := rowDepth_nonneg (hsized b.1 hrow)
  rw [totalDepth_eq, bandsEnd_eq h, ← add_assoc, add_sub_cancel_right, max_eq_right (add_nonneg hstart hdepth)]

end Yuml.Layered.Plan
