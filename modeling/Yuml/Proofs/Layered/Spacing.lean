import Yuml.Layered.Placement
import Yuml.Proofs.Number.Exact
import Mathlib.Data.List.Nodup
import Mathlib.Data.List.Infix
import Mathlib.Data.List.Pairwise
import Mathlib.Tactic.Linarith

namespace Yuml.Layered

open Number

namespace Middles

def along (m : Middles Rat) (row : List Text) : Middles Rat :=
  row.map fun id => (id, m.at id)

theorem at_append_of_mem {l m : Middles Rat} (hl : (l.map (·.1)).Nodup) {e : Text × Rat} (he : e ∈ l) :
    (l ++ m).at e.1 = e.2 := by
  induction l with
  | nil => cases he
  | cons d l ih =>
    rw [List.map_cons, List.nodup_cons] at hl
    rcases List.mem_cons.mp he with rfl | he
    · simp [Middles.at]
    · have hne : d.1 ≠ e.1 := fun h => hl.1 (h ▸ List.mem_map_of_mem he)
      rw [← ih hl.2 he]
      simp [Middles.at, List.find?_cons_of_neg, hne]

theorem at_append_of_not_mem {l m : Middles Rat} {id : Text} (h : id ∉ l.map (·.1)) :
    (l ++ m).at id = m.at id := by
  have hnone : l.find? (·.1 = id) = none := by
    refine List.find?_eq_none.mpr fun e he heq => h ?_
    rw [← of_decide_eq_true heq]
    exact List.mem_map_of_mem he
  rw [Middles.at, List.find?_append, hnone, Option.none_or, Middles.at]

theorem along_append_self {l m : Middles Rat} (hl : (l.map (·.1)).Nodup) :
    (l ++ m).along (l.map (·.1)) = l := by
  rw [along, List.map_map]
  refine (List.map_congr_left fun e he => ?_).trans (List.map_id l)
  exact Prod.ext rfl (at_append_of_mem hl he)

theorem along_append_of_disjoint {l m : Middles Rat} {row : List Text}
    (h : (l.map (·.1)).Disjoint row) : (l ++ m).along row = m.along row :=
  List.map_congr_left fun id hid => by rw [at_append_of_not_mem fun hmem => h hmem hid]

end Middles

namespace Plan

variable (p : Plan Rat)

def half (id : Text) : Rat :=
  (p.extent id).breadth / 2

theorem half_add_half (id : Text) : p.half id + p.half id = (p.extent id).breadth :=
  add_halves _

def Sized (row : List Text) : Prop :=
  ∀ id ∈ row, 0 ≤ (p.extent id).breadth ∧ 0 ≤ (p.extent id).depth

def Spaced (l : Middles Rat) : Prop :=
  l.Pairwise fun a b => a.2 + p.half a.1 + p.nodeGap ≤ b.2 - p.half b.1

theorem packFrom_cons (start : Rat) (id : Text) (ids : List Text) :
    p.packFrom start (id :: ids) =
      (id, start + p.half id) :: p.packFrom (start + ((p.extent id).breadth + p.nodeGap)) ids := by
  rw [half, ← Scalar.decimal_two]
  rfl

theorem spreadFrom_cons_none (wanted : Text → Rat) (id : Text) (ids : List Text) :
    p.spreadFrom wanted none (id :: ids) =
      (id, wanted id) :: p.spreadFrom wanted (some (wanted id + p.half id)) ids := by
  rw [half, ← Scalar.decimal_two]
  rfl

theorem spreadFrom_cons_some (wanted : Text → Rat) (right : Rat) (id : Text) (ids : List Text) :
    p.spreadFrom wanted (some right) (id :: ids) =
      (id, max (wanted id) (right + p.nodeGap + p.half id)) :: p.spreadFrom wanted
        (some (max (wanted id) (right + p.nodeGap + p.half id) + p.half id)) ids := by
  rw [half, ← Scalar.decimal_two, ← Scalar.larger_eq_max]
  rfl

theorem map_fst_packFrom (start : Rat) (row : List Text) : (p.packFrom start row).map (·.1) = row := by
  induction row generalizing start with
  | nil => rfl
  | cons id ids ih => rw [packFrom_cons, List.map_cons, ih]

theorem map_fst_spreadFrom (wanted : Text → Rat) (edge : Option Rat) (row : List Text) :
    (p.spreadFrom wanted edge row).map (·.1) = row := by
  induction row generalizing edge with
  | nil => rfl
  | cons id ids ih =>
    cases edge with
    | none => rw [spreadFrom_cons_none, List.map_cons, ih]
    | some right => rw [spreadFrom_cons_some, List.map_cons, ih]

variable {p}

theorem half_nonneg {id : Text} (h : 0 ≤ (p.extent id).breadth) : 0 ≤ p.half id :=
  div_nonneg h zero_le_two

theorem spaced_packFrom (hgap : 0 ≤ p.nodeGap) {row : List Text} (hrow : p.Sized row) (start : Rat) :
    p.Spaced (p.packFrom start row) ∧ ∀ e ∈ p.packFrom start row, start ≤ e.2 - p.half e.1 := by
  induction row generalizing start with
  | nil => exact ⟨.nil, by simp [packFrom]⟩
  | cons id ids ih =>
    have hhalf := half_nonneg (hrow id List.mem_cons_self).1
    have hbreadth := p.half_add_half id
    obtain ⟨hspaced, hstart⟩ := ih (fun v hv => hrow v (List.mem_cons_of_mem _ hv))
      (start + ((p.extent id).breadth + p.nodeGap))
    rw [packFrom_cons]
    refine ⟨List.pairwise_cons.mpr ⟨fun e he => ?_, hspaced⟩, ?_⟩
    · have := hstart e he
      dsimp only
      linarith
    · rintro e (_ | ⟨_, he⟩)
      · dsimp only
        linarith
      · have := hstart e he
        linarith

theorem spaced_spreadFrom_some (hgap : 0 ≤ p.nodeGap) (wanted : Text → Rat) {row : List Text}
    (hrow : p.Sized row) (right : Rat) :
    p.Spaced (p.spreadFrom wanted (some right) row) ∧
      ∀ e ∈ p.spreadFrom wanted (some right) row, right + p.nodeGap ≤ e.2 - p.half e.1 := by
  induction row generalizing right with
  | nil => exact ⟨.nil, by simp [spreadFrom]⟩
  | cons id ids ih =>
    have hhalf := half_nonneg (hrow id List.mem_cons_self).1
    have hmax := le_max_right (wanted id) (right + p.nodeGap + p.half id)
    obtain ⟨hspaced, hstart⟩ := ih (fun v hv => hrow v (List.mem_cons_of_mem _ hv))
      (max (wanted id) (right + p.nodeGap + p.half id) + p.half id)
    rw [spreadFrom_cons_some]
    refine ⟨List.pairwise_cons.mpr ⟨hstart, hspaced⟩, ?_⟩
    rintro e (_ | ⟨_, he⟩)
    · dsimp only
      linarith
    · have := hstart e he
      linarith

theorem spaced_spreadFrom (hgap : 0 ≤ p.nodeGap) (wanted : Text → Rat) {row : List Text}
    (hrow : p.Sized row) : p.Spaced (p.spreadFrom wanted none row) := by
  cases row with
  | nil => exact .nil
  | cons id ids =>
    obtain ⟨hspaced, hstart⟩ := spaced_spreadFrom_some hgap wanted
      (fun v hv => hrow v (List.mem_cons_of_mem _ hv)) (wanted id + p.half id)
    rw [spreadFrom_cons_none]
    exact List.pairwise_cons.mpr ⟨hstart, hspaced⟩

variable (p)

def AllSpaced (rows : List (List Text)) (m : Middles Rat) : Prop :=
  ∀ row ∈ rows, p.Spaced (m.along row)

variable {p}

theorem AllSpaced.settle {rows : List (List Text)} (hrows : rows.flatten.Nodup) {m : Middles Rat}
    (h : p.AllSpaced rows m) (hgap : 0 ≤ p.nodeGap) {row : List Text} (hmem : row ∈ rows)
    (hsized : p.Sized row) (neighbours : Text → List Text) :
    p.AllSpaced rows (p.settle neighbours m row) := by
  obtain ⟨hnodup, hdisjoint⟩ := List.nodup_flatten.mp hrows
  intro other hother
  by_cases heq : other = row
  · subst heq
    have hkeys := p.map_fst_spreadFrom (wanted neighbours m) none other
    have hself := Middles.along_append_self (m := m) (hkeys.symm ▸ hnodup other hmem)
    rw [hkeys] at hself
    rw [Plan.settle, hself]
    exact spaced_spreadFrom hgap _ hsized
  · have : Std.Symm (@List.Disjoint Text) := ⟨fun _ _ => List.disjoint_symm⟩
    have hapart : row.Disjoint other := hdisjoint.forall hmem hother (Ne.symm heq)
    rw [Plan.settle, Middles.along_append_of_disjoint]
    · exact h other hother
    · rwa [map_fst_spreadFrom]

theorem AllSpaced.foldl_settle {rows : List (List Text)} (hrows : rows.flatten.Nodup)
    (hgap : 0 ≤ p.nodeGap) (hsized : ∀ row ∈ rows, p.Sized row) (neighbours : Text → List Text)
    {some : List (List Text)} (hsome : ∀ row ∈ some, row ∈ rows) {m : Middles Rat}
    (h : p.AllSpaced rows m) : p.AllSpaced rows (some.foldl (p.settle neighbours) m) := by
  induction some generalizing m with
  | nil => exact h
  | cons row rest ih =>
    have hrow := hsome row List.mem_cons_self
    exact ih (fun r hr => hsome r (List.mem_cons_of_mem _ hr))
      (h.settle hrows hgap hrow (hsized row hrow) neighbours)

theorem allSpaced_packed {rows : List (List Text)} (hrows : rows.flatten.Nodup)
    (hgap : 0 ≤ p.nodeGap) (hsized : ∀ row ∈ rows, p.Sized row) :
    p.AllSpaced rows (p.packed rows) := by
  induction rows with
  | nil => exact fun row hrow => nomatch hrow
  | cons row rows ih =>
    obtain ⟨hrow, hrest, hapart⟩ := List.nodup_append'.mp hrows
    have hkeys := p.map_fst_packFrom 0 row
    have hsplit : p.packed (row :: rows) = p.packFrom 0 row ++ p.packed rows := by
      rw [← Scalar.decimal_zero]
      rfl
    rw [hsplit]
    rintro other (_ | ⟨_, hother⟩)
    · have hself := Middles.along_append_self (m := p.packed rows) (hkeys.symm ▸ hrow)
      rw [hkeys] at hself
      rw [hself]
      exact (spaced_packFrom hgap (hsized row List.mem_cons_self) 0).1
    · rw [Middles.along_append_of_disjoint]
      · exact ih hrest (fun r hr => hsized r (List.mem_cons_of_mem _ hr)) other hother
      · rw [map_fst_packFrom]
        exact fun id hid hid' => hapart hid (List.mem_flatten_of_mem hother hid')

theorem allSpaced_middles (g : Digraph Text) {rows : List (List Text)} (hrows : rows.flatten.Nodup)
    (hgap : 0 ≤ p.nodeGap) (hsized : ∀ row ∈ rows, p.Sized row) :
    p.AllSpaced rows (p.middles g rows) := by
  have hdown := (allSpaced_packed hrows hgap hsized).foldl_settle hrows hgap hsized g.predecessors
    fun row hrow => List.mem_of_mem_tail hrow
  exact hdown.foldl_settle hrows hgap hsized g.successors
    fun row hrow => List.mem_of_mem_dropLast (List.mem_reverse.mp hrow)

theorem lowest_le {m : Middles Rat} {rows : List (List Text)} {id : Text} (h : id ∈ rows.flatten) :
    p.lowest m rows ≤ m.at id - p.half id := by
  rw [half, ← Scalar.decimal_two]
  exact Scalar.smallest?_le (List.mem_map_of_mem (f := fun id => m.at id - (p.extent id).breadth / 2.0) h)

end Plan

end Yuml.Layered
