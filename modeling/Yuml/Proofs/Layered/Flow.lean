import Mathlib.Tactic.Linarith
import Mathlib.Tactic.NormNum
import Yuml.Proofs.Layered.Descent
import Yuml.Proofs.Layered.Layout

namespace Yuml.Document

def Acyclic (d : Document) : Prop :=
  ∀ id, ¬ Relation.TransGen (fun u v => ∃ e ∈ d.edges, e.tail = u ∧ e.head = v) id id

theorem acyclic_of_lt {d : Document} {f : Text → Nat} (h : ∀ e ∈ d.edges, f e.tail < f e.head) :
    d.Acyclic := by
  have hlt {u v : Text} (huv : Relation.TransGen (fun u v => ∃ e ∈ d.edges, e.tail = u ∧ e.head = v) u v) :
      f u < f v := by
    apply Relation.TransGen.trans_induction_on (motive := fun {u v} _ => f u < f v) huv
    · rintro _ _ ⟨e, he, rfl, rfl⟩
      exact h e he
    · exact fun _ _ => Nat.lt_trans
  exact fun id hid => Nat.lt_irrefl _ (hlt hid)

theorem Acyclic.graph {d : Document} (h : d.Acyclic) (sizes : List (Text × Rat × Rat)) :
    (Layered.Sketch.ofDocument d sizes).graph.Acyclic := by
  intro id hid
  refine h id (Relation.TransGen.mono (fun u v huv => ?_) _ _ hid)
  obtain ⟨e, he, heq⟩ := List.mem_map.mp (Digraph.mem_edges_ofLists.mp huv)
  obtain ⟨rfl, rfl⟩ := Prod.mk.inj heq
  exact ⟨e, he, rfl, rfl⟩

end Yuml.Document

namespace Yuml.Layered

open Number

theorem Arrangement.of_ofGraph {g : Digraph Text} {a : Arrangement} (h : Arrangement.ofGraph g = .ok a) :
    ∃ layers, assignLayers g.removeCycles.dag = .ok layers ∧
      insertDummies g.removeCycles.dag layers = .ok a.augmented ∧ a.augmented.arrange = .ok a.rows ∧
      a.turned = g.removeCycles.turned := by
  obtain ⟨layers, hlayers, h⟩ := Except.bind_eq_ok.mp h
  obtain ⟨augmented, haugmented, h⟩ := Except.bind_eq_ok.mp h
  obtain ⟨rows, hrows, h⟩ := Except.bind_eq_ok.mp h
  obtain rfl := Except.ok.inj h
  exact ⟨layers, hlayers, haugmented, hrows, rfl⟩

theorem Augmented.layer_of_mem_row {a : Augmented} (hcovers : a.layers.Covers a.graph.nodes)
    {rows : List (List Text)} (h : a.arrange = .ok rows) {k : Nat} {row : List Text}
    (hrow : rows[k]? = some row) {v : Text} (hv : v ∈ row) : a.layers.layer v = .ok (k : Int) := by
  obtain ⟨rows', hrows', hsame⟩ := arrange_ok (isLayered_of_covers hcovers)
  obtain rfl := Except.ok.inj (h.symm.trans hrows')
  obtain ⟨hk, rfl⟩ := List.getElem?_eq_some_iff.mp hrow
  obtain ⟨hlength, hperm⟩ := List.forall₂_iff_get.mp hsame
  have hrow := (hperm k (hlength ▸ hk) hk).mem_iff.mpr hv
  rw [List.get_eq_getElem, List.getElem_map, List.getElem_range] at hrow
  exact (mem_layerNodes.mp hrow).2

theorem Plan.layer_of_mem_places {α : Type} [Scalar α] {p : Plan α} {a : Arrangement}
    (hcovers : a.augmented.layers.Covers a.augmented.graph.nodes)
    (h : a.augmented.arrange = .ok a.rows) {q : Place α}
    (hq : q ∈ p.places a.augmented.graph a.rows) : a.augmented.layers.layer q.id = .ok (q.layer : Int) := by
  obtain ⟨row, hrow, hid⟩ := exists_row_of_mem_places hq
  exact Augmented.layer_of_mem_row hcovers h hrow hid

def Place.Precedes (d : Direction) (gap : Rat) (q r : Place Rat) : Prop :=
  match d with
  | .topDown => q.y + q.height + gap ≤ r.y
  | .leftToRight => q.x + q.width + gap ≤ r.x
  | .rightToLeft => r.x + r.width + gap ≤ q.x

theorem Place.Apart.precedes {d : Direction} {rankGap nodeGap : Rat} {q r : Place Rat}
    (h : q.Apart d rankGap nodeGap r) (hlt : q.layer < r.layer) : q.Precedes d rankGap r := by
  cases d with
  | topDown => exact h.across hlt (by decide)
  | leftToRight => exact h.across hlt (by decide)
  | rightToLeft => exact h.across_back hlt rfl

namespace Layout

theorem exists_node? {α : Type} [Scalar α] {s : Sketch α} {a : Arrangement} {rankGap nodeGap : α}
    {l : Layout α} (hextends : a.augmented.Extends s.graph)
    (hperm : a.rows.flatten.Perm a.augmented.graph.nodes) (h : ofArrangement s a rankGap nodeGap = .ok l)
    {id : Text} (hid : id ∈ s.graph.nodes) :
    ∃ q, l.node? id = some q ∧
      placeOf ((Plan.mk s.direction s.size rankGap nodeGap).places a.augmented.graph a.rows) id = .ok q := by
  have hplaces := Plan.mem_ids_places ⟨s.direction, s.size, rankGap, nodeGap⟩ hperm
  obtain ⟨nodes, hnodes, hids, -⟩ := mapM_placeOf_ok s.graph.nodes fun id hid =>
    hplaces id (hextends.keeps id hid)
  obtain rfl : l.nodes = nodes := Except.ok.inj ((of_ofArrangement h).2.1.symm.trans hnodes)
  obtain ⟨q, hq, hkey, hfound⟩ := List.exists_find?_key (p := fun q : Place α => q.id == id)
    (fun _ => beq_iff_eq) (hids ▸ hid)
  obtain ⟨v, -, hv⟩ := (Except.forall₂_of_mapM hnodes).exists_of_mem hq
  obtain rfl : v = id := (of_placeOf hv).2.symm.trans hkey
  exact ⟨q, hfound, hv⟩

theorem ofSketch_flows {s : Sketch Rat} {rankGap nodeGap : Rat} (hrank : 0 ≤ rankGap)
    (hnode : 0 ≤ nodeGap) (hacyclic : s.graph.Acyclic)
    (hreal : ∀ id ∈ s.graph.nodes, ∀ edge step, dummyName edge step ≠ id)
    (hsize : ∀ id ∈ s.graph.nodes, 0 ≤ (s.size id).1 ∧ 0 ≤ (s.size id).2) :
    ∃ l, ofSketch s rankGap nodeGap = .ok l ∧ ∀ e ∈ s.edges, ∃ tail head,
      l.node? e.tail = some tail ∧ l.node? e.head = some head ∧
        tail.Precedes s.direction rankGap head := by
  obtain ⟨a, ha, hextends, hperm, -⟩ := Arrangement.ofGraph_ok s.graph
  obtain ⟨l, hl, -⟩ := ofArrangement_ok hextends hperm rankGap nodeGap
  obtain ⟨layers, hlayers, hdummies, harrange, -⟩ := Arrangement.of_ofGraph ha
  refine ⟨l, by rw [ofSketch, ha]; exact hl, fun e he => ?_⟩
  have hedge := s.edge_mem e he
  obtain ⟨tail, htail, htailPlace⟩ := exists_node? hextends hperm hl (Digraph.fst_mem hedge)
  obtain ⟨head, hhead, hheadPlace⟩ := exists_node? hextends hperm hl (Digraph.snd_mem hedge)
  obtain ⟨htailPlace, htailId⟩ := of_placeOf htailPlace
  obtain ⟨hheadPlace, hheadId⟩ := of_placeOf hheadPlace
  have hkept {id : Text} (hid : id ∈ s.graph.nodes) :
      a.augmented.layers.layer id = layers.layer id := layer_insertDummies hdummies (hreal id hid)
  obtain ⟨n, m, hn, hm, hlt⟩ := above_of_assignLayers s.graph.acyclic_removeCycles hlayers _
    (hacyclic.mem_edges_removeCycles.mpr hedge)
  have htailLayer := Plan.layer_of_mem_places hextends.covers harrange htailPlace
  have hheadLayer := Plan.layer_of_mem_places hextends.covers harrange hheadPlace
  rw [htailId, hkept (Digraph.fst_mem hedge), hn] at htailLayer
  rw [hheadId, hkept (Digraph.snd_mem hedge), hm] at hheadLayer
  obtain rfl := Except.ok.inj htailLayer
  obtain rfl := Except.ok.inj hheadLayer
  have hrows : a.rows.flatten.Nodup := hperm.nodup_iff.mpr a.augmented.graph.nodes_nodup
  have hsized : ∀ row ∈ a.rows, Plan.Sized ⟨s.direction, s.size, rankGap, nodeGap⟩ row :=
    fun row hrow => Plan.sized_of_extends hextends hsize fun id hid =>
      hperm.mem_iff.mp (List.mem_flatten_of_mem hrow hid)
  have hne : tail.id ≠ head.id := by
    rw [htailId, hheadId]
    exact hacyclic.ne_of_mem hedge
  have hapart := Plan.apart_of_mem_places hrows hrank hnode hsized htailPlace hheadPlace hne
  exact ⟨tail, head, htail, hhead, hapart.precedes (Int.ofNat_lt.mp hlt)⟩

end Layout

theorem Sketch.sizeIn_nonneg {sizes : List (Text × Rat × Rat)}
    (h : ∀ s ∈ sizes, 0 ≤ s.2.1 ∧ 0 ≤ s.2.2) (id : Text) :
    0 ≤ (sizeIn sizes id).1 ∧ 0 ≤ (sizeIn sizes id).2 := by
  rw [sizeIn]
  cases hfound : sizes.reverse.find? (·.1 = id) with
  | none => exact ⟨Scalar.decimal_zero.ge, Scalar.decimal_zero.ge⟩
  | some s => exact h s (List.mem_reverse.mp (List.mem_of_find?_eq_some hfound))

namespace Layout

theorem ofDocument_flows {d : Document} (hacyclic : d.Acyclic) {sizes : List (Text × Rat × Rat)}
    (hsizes : ∀ s ∈ sizes, 0 ≤ s.2.1 ∧ 0 ≤ s.2.2) {rankGap nodeGap : Rat} (hrank : 0 ≤ rankGap)
    (hnode : 0 ≤ nodeGap)
    (hreal : ∀ id ∈ (Sketch.ofDocument d sizes).graph.nodes, ∀ edge step, dummyName edge step ≠ id) :
    ∃ l, ofSketch (Sketch.ofDocument d sizes) rankGap nodeGap = .ok l ∧ ∀ e ∈ d.edges, ∃ tail head,
      l.node? e.tail = some tail ∧ l.node? e.head = some head ∧
        tail.Precedes d.direction rankGap head :=
  ofSketch_flows hrank hnode (hacyclic.graph sizes) hreal fun id _ => Sketch.sizeIn_nonneg hsizes id

theorem ofDocument_flows_past_dummy :
    let ends : List (String × String) := [("a", "b"), ("b", "c"), ("a", "c")]
    let d : Document :=
      { direction := .rightToLeft, edges := ends.map fun e => { tail := e.1, head := e.2 } }
    let sizes : List (Text × Rat × Rat) := [("a".toList, 40, 20), ("c".toList, 0, 30)]
    d.Acyclic ∧ ∃ l, ofSketch (Sketch.ofDocument d sizes) 50 0 = .ok l ∧ ∀ e ∈ d.edges, ∃ tail head,
      l.node? e.tail = some tail ∧ l.node? e.head = some head ∧
        tail.Precedes d.direction 50 head := by
  intro ends d sizes
  have hacyclic : d.Acyclic :=
    Document.acyclic_of_lt (f := fun id => id.foldl (fun _ c => c.toNat) 0) (by decide +kernel)
  have hids : ∀ id ∈ (Sketch.ofDocument d sizes).graph.nodes, id.length = 1 := by decide +kernel
  have hreal : ∀ id ∈ (Sketch.ofDocument d sizes).graph.nodes, ∀ edge step, dummyName edge step ≠ id := by
    rintro id hid edge step rfl
    have hlength : (dummyName edge step).length = 1 := hids _ hid
    have hprefix : dummyPrefix.length = 8 := rfl
    rw [dummyName, List.length_append, List.length_append] at hlength
    omega
  have hsizes : ∀ s ∈ sizes, 0 ≤ s.2.1 ∧ 0 ≤ s.2.2 := by decide +kernel
  refine ⟨hacyclic, ofDocument_flows hacyclic hsizes ?_ ?_ hreal⟩
  · norm_num
  · norm_num

theorem not_flowing_to_dummy_name :
    let ids : List Text := ["a", "b", "__dummy_0_1"]
    let ends : List (String × String) := [("a", "__dummy_0_1"), ("a", "b"), ("b", "__dummy_0_1")]
    let d : Document :=
      { nodes := ids.map fun id => { id, label := id }
        edges := ends.map fun e => { tail := e.1, head := e.2 } }
    let sizes : List (Text × Rat × Rat) := ids.map fun id => (id, 10, 10)
    d.Acyclic ∧ (∀ s ∈ sizes, 0 ≤ s.2.1 ∧ 0 ≤ s.2.2) ∧
      ¬ ∃ l, ofSketch (Sketch.ofDocument d sizes) 50 30 = .ok l ∧ ∀ e ∈ d.edges, ∃ tail head,
        l.node? e.tail = some tail ∧ l.node? e.head = some head ∧
          tail.Precedes d.direction 50 head := by
  intro ids ends d sizes
  refine ⟨?_, by decide +kernel, ?_⟩
  · exact Document.acyclic_of_lt (f := fun id => if id = ['a'] then 0 else if id = ['b'] then 1 else 2)
      (by decide +kernel)
  · rintro ⟨l, hl, hflows⟩
    have hmem : ({ tail := "b", head := "__dummy_0_1" } : Edge) ∈ d.edges := by decide +kernel
    obtain ⟨tail, head, htail, hhead, hprecedes⟩ := hflows _ hmem
    have hspan : (ofSketch (Sketch.ofDocument d sizes) 50 30).toOption.map (fun l =>
        ((l.node? "b").map fun q => q.y + q.height, (l.node? "__dummy_0_1").map (·.y))) =
          some (some 78, some 73) := by decide +kernel
    rw [hl] at hspan
    simp only [Except.toOption, Option.map_some, htail, hhead, Option.some.injEq, Prod.mk.injEq] at hspan
    have hgap : tail.y + tail.height + 50 ≤ head.y := hprecedes
    linarith

end Layout

end Yuml.Layered
