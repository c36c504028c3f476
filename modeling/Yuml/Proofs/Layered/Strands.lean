import Mathlib.Data.List.Range
import Yuml.Proofs.Graph.Iteration
import Yuml.Proofs.Layered.LongestPath
import Yuml.Proofs.Number.Written
import Yuml.Proofs.Text.Delimited

namespace Yuml.Layered

theorem dummyName_inj {k k' i i' : Nat} (h : dummyName k i = dummyName k' i') : k = k' ∧ i = i' := by
  have hbar (n : Nat) : '_' ∉ Text.ofNat n := fun hmem => absurd (Text.isDigit_of_mem_ofNat hmem) (by decide)
  rw [dummyName, dummyName, List.append_assoc, List.append_assoc] at h
  have hrest := List.append_cancel_left h
  rw [List.append_cons, List.append_cons (Text.ofNat k')] at hrest
  obtain ⟨hk, hi⟩ := Text.selfDelimiting_until '_' (hbar k) (hbar k') hrest
  exact ⟨Text.ofNat_injective hk, Text.ofNat_injective hi⟩

theorem ne_dummyName {v : Text} (h : isDummy v = false) (k i : Nat) : dummyName k i ≠ v := by
  rintro rfl
  exact absurd (isDummy_dummyName k i) (by rw [h]; decide)

@[ext] structure Strand (g : Digraph Text) (l : Layering Text) where
  edge : Text × Text
  number : Nat
  top : Int
  span : Nat
  numbered : (edge, number) ∈ g.edgesByTail.zipIdx
  tail_layer : l.layer edge.1 = .ok top
  head_layer : l.layer edge.2 = .ok (top + span)
  span_pos : 0 < span

namespace Strand

variable {g : Digraph Text} {l : Layering Text}

theorem exists_of_numbered (habove : ∀ e ∈ g.edges, l.Above e.1 e.2) {e : Text × Text} {k : Nat}
    (h : (e, k) ∈ g.edgesByTail.zipIdx) : ∃ s : Strand g l, s.edge = e ∧ s.number = k := by
  obtain ⟨top, bottom, htop, hbottom, hlt⟩ := habove e (Digraph.mem_edgesByTail.mp (List.fst_mem_of_mem_zipIdx h))
  refine ⟨⟨e, k, top, (bottom - top).toNat, h, htop, ?_, by omega⟩, rfl, rfl⟩
  rw [hbottom]
  exact congrArg _ (by omega)

theorem exists_of_mem (habove : ∀ e ∈ g.edges, l.Above e.1 e.2) {e : Text × Text} (h : e ∈ g.edges) :
    ∃ s : Strand g l, s.edge = e := by
  obtain ⟨k, hk⟩ := List.getElem?_of_mem (Digraph.mem_edgesByTail.mpr h)
  obtain ⟨s, hs, -⟩ := exists_of_numbered habove (List.mem_zipIdx_iff_getElem?.mpr hk)
  exact ⟨s, hs⟩

variable (s t : Strand g l)

theorem edge_mem : s.edge ∈ g.edges :=
  Digraph.mem_edgesByTail.mp (List.fst_mem_of_mem_zipIdx s.numbered)

theorem number_lt : s.number < g.edgesByTail.length :=
  List.snd_lt_of_mem_zipIdx s.numbered

variable {s t}

theorem eq_of_edge_of_number (hedge : s.edge = t.edge) (hnumber : s.number = t.number) : s = t := by
  have htop : s.top = t.top := Except.ok.inj (s.tail_layer.symm.trans (hedge ▸ t.tail_layer))
  have hbottom : s.top + s.span = t.top + t.span := Except.ok.inj (s.head_layer.symm.trans (hedge ▸ t.head_layer))
  exact Strand.ext hedge hnumber htop (by omega)

theorem eq_of_number (h : s.number = t.number) : s = t := by
  have hs := List.mem_zipIdx_iff_getElem?.mp s.numbered
  have ht := List.mem_zipIdx_iff_getElem?.mp t.numbered
  exact eq_of_edge_of_number (Option.some.inj (hs.symm.trans ((congrArg _ h).trans ht))) h

theorem eq_of_edge (h : s.edge = t.edge) : s = t := by
  have hs := List.mem_zipIdx_iff_getElem?.mp s.numbered
  have ht := List.mem_zipIdx_iff_getElem?.mp t.numbered
  refine eq_of_edge_of_number h ((List.getElem?_inj s.number_lt g.nodup_edgesByTail).mp ?_)
  exact hs.trans ((congrArg _ h).trans ht.symm)

variable (s)

def nodeAt (i : Nat) : Text :=
  if i = 0 then s.edge.1 else if i < s.span then dummyName s.number i else s.edge.2

def dummies : List Text :=
  (List.range' 1 (s.span - 1)).map (dummyName s.number)

theorem nodeAt_zero : s.nodeAt 0 = s.edge.1 :=
  if_pos rfl

theorem nodeAt_span : s.nodeAt s.span = s.edge.2 := by
  rw [nodeAt, if_neg s.span_pos.ne', if_neg (lt_irrefl _)]

variable {s}

theorem nodeAt_inner {i : Nat} (hpos : 0 < i) (hlt : i < s.span) : s.nodeAt i = dummyName s.number i := by
  rw [nodeAt, if_neg hpos.ne', if_pos hlt]

theorem mem_dummies {v : Text} : v ∈ s.dummies ↔ ∃ i, 0 < i ∧ i < s.span ∧ v = s.nodeAt i := by
  have hpos := s.span_pos
  rw [dummies, List.mem_map]
  constructor
  · rintro ⟨i, hi, rfl⟩
    obtain ⟨h, h'⟩ := List.mem_range'_1.mp hi
    exact ⟨i, h, by omega, (nodeAt_inner h (by omega)).symm⟩
  · rintro ⟨i, h, h', rfl⟩
    exact ⟨i, List.mem_range'_1.mpr ⟨h, by omega⟩, (nodeAt_inner h h').symm⟩

theorem getElem?_dummies {i : Nat} {v : Text} (h : s.dummies[i]? = some v) : i + 1 < s.span ∧ v = s.nodeAt (i + 1) := by
  rw [dummies, List.getElem?_map, Option.map_eq_some_iff] at h
  obtain ⟨j, hj, rfl⟩ := h
  obtain ⟨hlt, hj⟩ := List.getElem?_eq_some_iff.mp hj
  rw [List.length_range'] at hlt
  rw [List.getElem_range'] at hj
  obtain rfl : i + 1 = j := by omega
  exact ⟨by omega, (nodeAt_inner (Nat.succ_pos i) (by omega)).symm⟩

variable (s)

theorem length_dummies : s.dummies.length = s.span - 1 := by
  rw [dummies, List.length_map, List.length_range']

theorem nodup_dummies : s.dummies.Nodup :=
  List.Nodup.map (fun _ _ h => (dummyName_inj h).2) List.nodup_range'

theorem dummies_append_head : s.dummies ++ [s.edge.2] = (List.range' 1 s.span).map s.nodeAt := by
  obtain ⟨n, hn⟩ := Nat.exists_eq_add_one.mpr s.span_pos
  have hinner : (List.range' 1 n).map s.nodeAt = (List.range' 1 n).map (dummyName s.number) := by
    refine List.map_congr_left fun i hi => nodeAt_inner ?_ ?_
    · exact (List.mem_range'_1.mp hi).1
    · have := (List.mem_range'_1.mp hi).2; omega
  have hlast : s.nodeAt (1 + 1 * n) = s.edge.2 := by
    rw [← s.nodeAt_span, hn]
    exact congrArg _ (by omega)
  rw [dummies, hn, Nat.add_sub_cancel, List.range'_concat, List.map_append, hinner, List.map_singleton, hlast]

theorem path_eq : s.edge.1 :: (s.dummies ++ [s.edge.2]) = (List.range (s.span + 1)).map s.nodeAt := by
  rw [dummies_append_head, List.range_eq_range', List.range'_succ, List.map_cons, nodeAt_zero]

variable {s}

theorem infix_path {i : Nat} (hi : i < s.span) :
    [s.nodeAt i, s.nodeAt (i + 1)] <:+: s.edge.1 :: (s.dummies ++ [s.edge.2]) := by
  have hlength : s.span + 1 = i + (2 + (s.span - 1 - i)) := by omega
  have hsteps : [i, i + 1] <:+: List.range (s.span + 1) := by
    rw [List.range_eq_range', hlength, ← List.range'_append_1, ← List.range'_append_1, Nat.zero_add, ← List.append_assoc]
    exact ⟨_, _, rfl⟩
  rw [s.path_eq]
  exact hsteps.map s.nodeAt

variable (hreal : ∀ v ∈ g.nodes, isDummy v = false)

include hreal

theorem isDummy_nodeAt {i : Nat} : isDummy (s.nodeAt i) = true ↔ 0 < i ∧ i < s.span := by
  rw [nodeAt]
  split
  · next hi => simp [hreal _ (Digraph.fst_mem s.edge_mem), hi]
  · next hi =>
    split
    · next hlt => simp [isDummy_dummyName, hlt, Nat.pos_of_ne_zero hi]
    · next hlt => simp [hreal _ (Digraph.snd_mem s.edge_mem), hlt]

theorem nodeAt_inj {i j : Nat} (hpos : 0 < i) (hlt : i < s.span) (h : s.nodeAt i = t.nodeAt j) : s = t ∧ i = j := by
  have hdummy := (isDummy_nodeAt (s := s) hreal).mpr ⟨hpos, hlt⟩
  obtain ⟨hpos', hlt'⟩ := (isDummy_nodeAt hreal).mp (h ▸ hdummy)
  rw [nodeAt_inner hpos hlt, nodeAt_inner hpos' hlt'] at h
  obtain ⟨hnumber, hi⟩ := dummyName_inj h
  exact ⟨eq_of_number hnumber, hi⟩

theorem eq_zero_of_nodeAt_mem {i : Nat} (hi : i < s.span) (h : s.nodeAt i ∈ g.nodes) : i = 0 := by
  by_contra hne
  have hdummy := (isDummy_nodeAt (s := s) hreal).mpr ⟨Nat.pos_of_ne_zero hne, hi⟩
  exact absurd (hreal _ h) (by rw [hdummy]; decide)

theorem disjoint_dummies (h : s ≠ t) : s.dummies.Disjoint t.dummies := by
  intro v hs ht
  obtain ⟨i, hpos, hlt, rfl⟩ := mem_dummies.mp hs
  obtain ⟨j, -, -, heq⟩ := mem_dummies.mp ht
  exact h (nodeAt_inj hreal hpos hlt heq).1

end Strand

end Yuml.Layered
