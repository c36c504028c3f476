import Yuml.Proofs.Layered.Strands

namespace Yuml.Layered

variable {g : Digraph Text} {l : Layering Text}

namespace Strand

variable {s t : Strand g l} {i j k : Nat}

/-- Whether the link from step `i` to the next is among those that are made when `k` strands are done, and `j` links of
the one after them. -/
def Linked (s : Strand g l) (i k j : Nat) : Prop :=
  i < s.span ∧ (s.number < k ∨ s.number = k ∧ i < j)

theorem linked_succ (hj : j < s.span) : t.Linked i s.number (j + 1) ↔ t.Linked i s.number j ∨ t = s ∧ i = j := by
  constructor
  · rintro ⟨hspan, hnumber | ⟨hnumber, hi⟩⟩
    · exact .inl ⟨hspan, .inl hnumber⟩
    · rcases Nat.lt_succ_iff_lt_or_eq.mp hi with hi | hi
      · exact .inl ⟨hspan, .inr ⟨hnumber, hi⟩⟩
      · exact .inr ⟨eq_of_number hnumber, hi⟩
  · rintro (⟨hspan, h⟩ | ⟨rfl, rfl⟩)
    · exact ⟨hspan, h.imp_right fun h => ⟨h.1, Nat.lt_succ_of_lt h.2⟩⟩
    · exact ⟨hj, .inr ⟨rfl, Nat.lt_succ_self i⟩⟩

theorem exists_linked_succ (hj : j < s.span) {P : Strand g l → Nat → Prop} :
    (∃ t i, t.Linked i s.number (j + 1) ∧ P t i) ↔ (∃ t i, t.Linked i s.number j ∧ P t i) ∨ P s j := by
  constructor
  · rintro ⟨t, i, h, hP⟩
    rcases (linked_succ hj).mp h with h | ⟨rfl, rfl⟩
    · exact .inl ⟨t, i, h, hP⟩
    · exact .inr hP
  · rintro (⟨t, i, h, hP⟩ | hP)
    · exact ⟨t, i, (linked_succ hj).mpr (.inl h), hP⟩
    · exact ⟨s, j, (linked_succ hj).mpr (.inr ⟨rfl, rfl⟩), hP⟩

theorem linked_next : t.Linked i (s.number + 1) 0 ↔ t.Linked i s.number s.span := by
  refine and_congr_right fun hspan => ?_
  constructor
  · rintro (h | ⟨-, h⟩)
    · rcases Nat.lt_succ_iff_lt_or_eq.mp h with h | h
      · exact .inl h
      · exact .inr ⟨h, eq_of_number h ▸ hspan⟩
    · cases h
  · rintro (h | ⟨h, -⟩)
    · exact .inl (Nat.lt_succ_of_lt h)
    · exact .inl (Nat.lt_succ_of_le h.le)

theorem linked_all : s.Linked i g.edgesByTail.length 0 ↔ i < s.span :=
  ⟨And.left, fun h => ⟨h, .inl s.number_lt⟩⟩

end Strand

namespace Augmented

structure Strung (a : Augmented) (g : Digraph Text) (l : Layering Text) (k j : Nat) : Prop where
  nodes : ∀ v, v ∈ a.graph.nodes ↔
    v ∈ g.nodes ∨ ∃ (s : Strand g l) (i : Nat), s.Linked i k j ∧ v = s.nodeAt (i + 1)
  edges : ∀ d, d ∈ a.graph.edges ↔
    ∃ (s : Strand g l) (i : Nat), s.Linked i k j ∧ d = (s.nodeAt i, s.nodeAt (i + 1))
  lowered : ∀ (s : Strand g l) (i : Nat), s.Linked i k j → a.layers.layer (s.nodeAt (i + 1)) = .ok (s.top + (i + 1))
  kept : ∀ v, isDummy v = false → a.layers.layer v = l.layer v
  bounded : ∀ e ∈ a.layers, ∃ v n, l.layer v = .ok n ∧ e.2 ≤ n

structure Listed (a : Augmented) (g : Digraph Text) (l : Layering Text) (k : Nat) : Prop where
  mem : ∀ c, c ∈ a.chains ↔ ∃ s : Strand g l, s.number < k ∧ 1 < s.span ∧ c = (s.edge, s.dummies)
  keys : (a.chains.map (·.1)).Nodup

variable {a a' : Augmented} {s : Strand g l} {i j : Nat}

theorem Strung.nodeAt_mem (h : a.Strung g l s.number j) (hj : j ≤ s.span) : s.nodeAt j ∈ a.graph.nodes := by
  rw [h.nodes]
  cases j with
  | zero => exact .inl (s.nodeAt_zero ▸ Digraph.fst_mem s.edge_mem)
  | succ j => exact .inr ⟨s, j, ⟨hj, .inr ⟨rfl, Nat.lt_succ_self j⟩⟩, rfl⟩

theorem Strung.congr (h : a.Strung g l s.number s.span) (hgraph : a'.graph = a.graph) (hlayers : a'.layers = a.layers) :
    a'.Strung g l (s.number + 1) 0 := by
  refine ⟨?_, ?_, ?_, ?_, ?_⟩
  all_goals simp only [hgraph, hlayers, Strand.linked_next]
  · exact h.nodes
  · exact h.edges
  · exact h.lowered
  · exact h.kept
  · exact h.bounded

theorem Listed.next (h : a.Listed g l s.number)
    (hchains : a'.chains = a.chains ++ if 1 < s.span then [(s.edge, s.dummies)] else []) :
    a'.Listed g l (s.number + 1) := by
  have hsucc (t : Strand g l) : t.number < s.number + 1 ↔ t.number < s.number ∨ t = s :=
    Nat.lt_succ_iff_lt_or_eq.trans (or_congr_right ⟨Strand.eq_of_number, congrArg _⟩)
  constructor
  · intro c
    rw [hchains, List.mem_append, h.mem]
    simp only [hsucc, or_and_right, exists_or, exists_eq_left]
    refine or_congr_right ?_
    split
    · next hspan => simp [hspan]
    · next hspan => simp [hspan]
  · rw [hchains, List.map_append]
    refine List.nodup_append.mpr ⟨h.keys, ?_, ?_⟩
    · split
      · exact List.nodup_singleton _
      · exact List.nodup_nil
    · rintro e he d hd rfl
      obtain ⟨c, hc, rfl⟩ := List.mem_map.mp he
      obtain ⟨t, ht, -, rfl⟩ := (h.mem c).mp hc
      split at hd
      · have hedge : t.edge = s.edge := List.mem_singleton.mp hd
        exact absurd ht (Strand.eq_of_edge hedge ▸ lt_irrefl _)
      · cases hd

section

variable (hreal : ∀ v ∈ g.nodes, isDummy v = false)

include hreal

theorem Strung.tail_layer (h : a.Strung g l i j) (s : Strand g l) : a.layers.layer s.edge.1 = .ok s.top :=
  (h.kept _ (hreal _ (Digraph.fst_mem s.edge_mem))).trans s.tail_layer

theorem Strung.head_layer (h : a.Strung g l i j) (s : Strand g l) : a.layers.layer s.edge.2 = .ok (s.top + s.span) :=
  (h.kept _ (hreal _ (Digraph.snd_mem s.edge_mem))).trans s.head_layer

theorem Strung.link (h : a.Strung g l s.number j) (hj : j < s.span)
    (hnodes : ∀ v, v ∈ a'.graph.nodes ↔ v ∈ a.graph.nodes ∨ v = s.nodeAt (j + 1))
    (hedges : ∀ d, d ∈ a'.graph.edges ↔ d ∈ a.graph.edges ∨ d = (s.nodeAt j, s.nodeAt (j + 1)))
    (hlayers : a'.layers = if j + 1 < s.span then a.layers.set (s.nodeAt (j + 1)) (s.top + (j + 1)) else a.layers) :
    a'.Strung g l s.number (j + 1) where
  nodes v := by rw [hnodes, h.nodes, Strand.exists_linked_succ hj, or_assoc]
  edges d := by rw [hedges, h.edges, Strand.exists_linked_succ hj]
  lowered t i hlinked := by
    rw [hlayers]
    rcases (Strand.linked_succ hj).mp hlinked with hlinked | ⟨rfl, rfl⟩
    · have hlowered := h.lowered t i hlinked
      -- a node from before can only be the new dummy at the same step of the same strand
      split
      · next hinner =>
        rw [Layering.layer_set]
        split
        · next heq =>
          obtain ⟨rfl, hi⟩ := Strand.nodeAt_inj hreal (Nat.succ_pos j) hinner heq.symm
          obtain rfl := Nat.succ.inj hi
          rfl
        · exact hlowered
      · exact hlowered
    · split
      · rw [Layering.layer_set, if_pos rfl]
      · have hspan : i + 1 = t.span := by omega
        rw [hspan, t.nodeAt_span, h.head_layer hreal, ← hspan]
        rfl
  kept v hv := by
    rw [hlayers]
    split
    · next hinner =>
      rw [Layering.layer_set, Strand.nodeAt_inner (Nat.succ_pos j) hinner, if_neg (ne_dummyName hv _ _).symm]
      exact h.kept v hv
    · exact h.kept v hv
  bounded e he := by
    rw [hlayers] at he
    split at he
    · rcases Layering.mem_of_mem_set he with he | rfl
      · exact h.bounded e he
      · exact ⟨_, _, s.head_layer, by dsimp only; omega⟩
    · exact h.bounded e he

theorem strung_of_addChain {n : Nat} (hn : i + n < s.span) (h : a.Strung g l s.number i) {last : Text}
    (hchain : addChain s.number s.edge.1 (List.range' (i + 1) n) (s.nodeAt i) a = .ok (a', last)) :
    a'.Strung g l s.number (i + n) ∧ last = s.nodeAt (i + n) ∧ a'.chains = a.chains := by
  induction n generalizing i a with
  | zero =>
    obtain ⟨rfl, rfl⟩ := Prod.mk.inj (Except.ok.inj hchain)
    exact ⟨h, rfl, rfl⟩
  | succ n ih =>
    rw [List.range'_succ] at hchain
    obtain ⟨top, htop, hchain⟩ := Except.bind_eq_ok.mp hchain
    obtain rfl := Except.ok.inj ((h.tail_layer hreal s).symm.trans htop)
    have hinner : s.nodeAt (i + 1) = dummyName s.number (i + 1) := Strand.nodeAt_inner (Nat.succ_pos i) (by omega)
    have hlinked : (a.addDummy (s.nodeAt i) (s.nodeAt (i + 1)) (s.top + (i + 1))).Strung g l s.number (i + 1) := by
      refine h.link hreal (by omega) (fun v => mem_nodes_addDummy (h.nodeAt_mem (by omega))) (fun d => ?_) ?_
      · rw [addDummy, Digraph.mem_edges_addEdge, Digraph.edges_addNode]
      · rw [if_pos (by omega)]
        rfl
    rw [hinner] at hlinked
    have hrest := ih (i := i + 1) (by omega) hlinked (by rw [hinner]; exact hchain)
    rw [Nat.add_right_comm] at hrest
    exact hrest

theorem strung_of_addEdge (h : a.Strung g l s.number 0) (hstep : a.addEdge s.number s.edge.1 s.edge.2 = .ok a') :
    a'.Strung g l (s.number + 1) 0 ∧
      a'.chains = a.chains ++ if 1 < s.span then [(s.edge, s.dummies)] else [] := by
  -- the last link leads to the head, which is in the graph and in its layer already
  have hend {a₁ : Augmented} {i : Nat} (h₁ : a₁.Strung g l s.number i) (hi : i + 1 = s.span) :
      Strung { a₁ with graph := a₁.graph.addEdge (s.nodeAt i) s.edge.2 } g l s.number s.span := by
    have hhead : s.nodeAt (i + 1) = s.edge.2 := hi ▸ s.nodeAt_span
    have hmem : s.edge.2 ∈ a₁.graph.nodes := (h₁.nodes _).mpr (.inl (Digraph.snd_mem s.edge_mem))
    rw [← hi]
    refine h₁.link hreal (by omega) (fun v => ?_) (fun d => ?_) ?_
    · rw [Digraph.nodes_addEdge_of_mem (h₁.nodeAt_mem (by omega)) hmem, hhead]
      exact ⟨.inl, fun hv => hv.elim id fun hv => hv ▸ hmem⟩
    · rw [Digraph.mem_edges_addEdge, hhead]
    · rw [if_neg (by omega)]
  obtain ⟨bottom, hbottom, hstep⟩ := Except.bind_eq_ok.mp hstep
  obtain ⟨top, htop, hstep⟩ := Except.bind_eq_ok.mp hstep
  obtain rfl := Except.ok.inj ((h.head_layer hreal s).symm.trans hbottom)
  obtain rfl := Except.ok.inj ((h.tail_layer hreal s).symm.trans htop)
  have hspan : s.top + s.span - s.top = (s.span : Int) := by omega
  have hpos := s.span_pos
  simp only [hspan, Int.toNat_natCast] at hstep
  split at hstep
  · obtain rfl := Except.ok.inj hstep
    rw [if_neg (by omega), List.append_nil]
    have hdone := hend h (by omega)
    rw [s.nodeAt_zero] at hdone
    exact ⟨hdone.congr rfl rfl, rfl⟩
  · obtain ⟨⟨a₁, last⟩, hchain, hstep⟩ := Except.bind_eq_ok.mp hstep
    obtain rfl := Except.ok.inj hstep
    have hsteps : (List.range (s.span - 1)).map (· + 1) = List.range' (0 + 1) (s.span - 1) := by
      simp only [List.range'_eq_map_range, Nat.add_comm]
    rw [hsteps, ← s.nodeAt_zero] at hchain
    obtain ⟨h₁, rfl, hchains⟩ := strung_of_addChain hreal (by omega) h hchain
    rw [if_pos (by omega)]
    refine ⟨(hend h₁ (by omega)).congr rfl rfl, ?_⟩
    rw [hsteps, hchains]
    rfl

theorem strung_of_foldlM (habove : ∀ e ∈ g.edges, l.Above e.1 e.2) {es : List (Text × Text)} {k : Nat}
    (hes : ∀ p ∈ es.zipIdx k, p ∈ g.edgesByTail.zipIdx) (h : a.Strung g l k 0) (hlisted : a.Listed g l k)
    (hrun : (es.zipIdx k).foldlM (fun a (e, number) => a.addEdge number e.1 e.2) a = .ok a') :
    a'.Strung g l (k + es.length) 0 ∧ a'.Listed g l (k + es.length) := by
  induction es generalizing k a with
  | nil =>
    obtain rfl := Except.ok.inj hrun
    exact ⟨h, hlisted⟩
  | cons e es ih =>
    rw [List.zipIdx_cons] at hes hrun
    rw [List.foldlM_cons] at hrun
    obtain ⟨hfirst, hrest⟩ := List.forall_mem_cons.mp hes
    obtain ⟨s, rfl, rfl⟩ := Strand.exists_of_numbered habove hfirst
    obtain ⟨a₁, hstep, hrun⟩ := Except.bind_eq_ok.mp hrun
    obtain ⟨h₁, hchains⟩ := strung_of_addEdge hreal h hstep
    have hdone := ih hrest h₁ (hlisted.next hchains) hrun
    rw [List.length_cons, Nat.add_comm es.length, ← Nat.add_assoc]
    exact hdone

end

theorem strung_start (hkeys : l.map (·.1) = g.nodes) : Strung ⟨Digraph.ofLists g.nodes [], l, []⟩ g l 0 0 := by
  have hnone (s : Strand g l) (i : Nat) : ¬ s.Linked i 0 0 := by
    rintro ⟨-, h | ⟨-, h⟩⟩
    · cases h
    · cases h
  refine ⟨fun v => ?_, fun d => ?_, fun s i h => absurd h (hnone s i), fun _ _ => rfl, fun e he => ?_⟩
  · simp only [Digraph.nodes_ofLists_nil g.nodes_nodup, hnone, false_and, exists_false, or_false]
  · simp only [Digraph.edges_ofLists_nil, hnone, false_and, exists_false, List.not_mem_nil]
  · exact ⟨e.1, e.2, Layering.layer_of_mem (hkeys ▸ g.nodes_nodup) he, le_refl _⟩

theorem strung_of_insertDummies (hreal : ∀ v ∈ g.nodes, isDummy v = false) (hkeys : l.map (·.1) = g.nodes)
    (habove : ∀ e ∈ g.edges, l.Above e.1 e.2) (h : insertDummies g l = .ok a) :
    a.Strung g l g.edgesByTail.length 0 ∧ a.Listed g l g.edgesByTail.length := by
  have hlisted : Listed ⟨Digraph.ofLists g.nodes [], l, []⟩ g l 0 := ⟨by simp, List.nodup_nil⟩
  have hdone := strung_of_foldlM hreal habove (fun _ hp => hp) (strung_start hkeys) hlisted h
  rwa [Nat.zero_add] at hdone

end Augmented

end Yuml.Layered
