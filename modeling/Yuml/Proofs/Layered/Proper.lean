import Yuml.Proofs.Layered.Chains

namespace Yuml.Layered

variable {g : Digraph Text} {l : Layering Text}

namespace Augmented

/-- A proper layering of a graph with the layers `l`: each edge goes down one layer, and chains of dummies stand for the
edges that went down more. -/
structure Proper (a : Augmented) (g : Digraph Text) (l : Layering Text) : Prop where
  nodes : ∀ v, v ∈ a.graph.nodes ↔ v ∈ g.nodes ∨ ∃ c ∈ a.chains, v ∈ c.2
  kept : ∀ v ∈ g.nodes, a.layers.layer v = l.layer v
  down : ∀ d ∈ a.graph.edges, ∃ n, a.layers.layer d.1 = .ok n ∧ a.layers.layer d.2 = .ok (n + 1)
  used : ∀ d ∈ a.graph.edges, ∃ e ∈ g.edges, [d.1, d.2] <:+: e.1 :: (a.chain e.1 e.2 ++ [e.2])
  path : ∀ e ∈ g.edges, a.graph.IsPath e.1 e.2 (e.1 :: (a.chain e.1 e.2 ++ [e.2]))
  unique : ∀ e ∈ g.edges, ∀ vs : List Text, (∀ v ∈ vs, isDummy v = true) →
    (e.1 :: (vs ++ [e.2])).IsChain (fun u v => (u, v) ∈ a.graph.edges) → vs = a.chain e.1 e.2
  layered : ∀ e ∈ g.edges, ∃ (top : Int) (span : Nat), l.layer e.1 = .ok top ∧ l.layer e.2 = .ok (top + span) ∧
    (a.chain e.1 e.2).length + 1 = span ∧
    ∀ (i : Nat) (v : Text), (a.chain e.1 e.2)[i]? = some v → a.layers.layer v = .ok (top + (i + 1))
  listed : ∀ e vs, (e, vs) ∈ a.chains ↔ e ∈ g.edges ∧ vs = a.chain e.1 e.2 ∧ vs ≠ []
  once : (a.chains.map (·.1)).Nodup
  fresh : ∀ c ∈ a.chains, ∀ v ∈ c.2, isDummy v = true ∧ v ∉ g.nodes
  apart : (a.chains.flatMap (·.2)).Nodup
  full : g.nodes ≠ [] → ∀ k : Nat, (k : Int) < a.layerCount → ∃ v ∈ a.graph.nodes, a.layers.layer v = .ok (k : Int)

namespace Listed

variable {a : Augmented} (h : a.Listed g l g.edgesByTail.length) (s : Strand g l)

include h

theorem mem_iff {c : (Text × Text) × List Text} :
    c ∈ a.chains ↔ ∃ s : Strand g l, 1 < s.span ∧ c = (s.edge, s.dummies) := by
  rw [h.mem]
  exact exists_congr fun s => and_iff_right s.number_lt

theorem chain_eq : a.chain s.edge.1 s.edge.2 = s.dummies := by
  rw [chain]
  cases hfound : a.chains.find? (·.1 = (s.edge.1, s.edge.2)) with
  | none =>
    have hshort : ¬ 1 < s.span := fun hspan =>
      List.find?_eq_none.mp hfound _ (h.mem_iff.mpr ⟨s, hspan, rfl⟩) (decide_eq_true rfl)
    have hempty : s.dummies.length = 0 := by rw [s.length_dummies]; omega
    rw [List.length_eq_zero_iff.mp hempty]
    rfl
  | some c =>
    obtain ⟨t, -, rfl⟩ := h.mem_iff.mp (List.mem_of_find?_eq_some hfound)
    have hedge : t.edge = s.edge := by simpa using List.find?_some hfound
    rw [Strand.eq_of_edge hedge]
    rfl

theorem nodup_flatMap (hreal : ∀ v ∈ g.nodes, isDummy v = false) : (a.chains.flatMap (·.2)).Nodup := by
  refine List.nodup_flatMap.mpr ⟨fun c hc => ?_, ?_⟩
  · obtain ⟨s, -, rfl⟩ := h.mem_iff.mp hc
    exact s.nodup_dummies
  · refine (List.pairwise_map.mp h.keys).imp_of_mem ?_
    intro c d hc hd hne
    obtain ⟨s, -, rfl⟩ := h.mem_iff.mp hc
    obtain ⟨t, -, rfl⟩ := h.mem_iff.mp hd
    exact Strand.disjoint_dummies hreal fun heq => hne (congrArg Strand.edge heq)

end Listed

namespace Strung

variable {a : Augmented} {s : Strand g l} {i : Nat} (h : a.Strung g l g.edgesByTail.length 0)

include h

theorem mem_of_le (hi : i ≤ s.span) : s.nodeAt i ∈ a.graph.nodes := by
  cases i with
  | zero => exact (h.nodes _).mpr (.inl (s.nodeAt_zero ▸ Digraph.fst_mem s.edge_mem))
  | succ i => exact (h.nodes _).mpr (.inr ⟨s, i, Strand.linked_all.mpr hi, rfl⟩)

theorem link_mem (hi : i < s.span) : (s.nodeAt i, s.nodeAt (i + 1)) ∈ a.graph.edges :=
  (h.edges _).mpr ⟨s, i, Strand.linked_all.mpr hi, rfl⟩

variable (hreal : ∀ v ∈ g.nodes, isDummy v = false)

include hreal

theorem layer_nodeAt (hi : i ≤ s.span) : a.layers.layer (s.nodeAt i) = .ok (s.top + i) := by
  cases i with
  | zero =>
    rw [s.nodeAt_zero, h.tail_layer hreal]
    exact congrArg _ (Int.add_zero s.top).symm
  | succ i => exact h.lowered s i (Strand.linked_all.mpr hi)

theorem isPath (s : Strand g l) :
    a.graph.IsPath s.edge.1 s.edge.2 (s.edge.1 :: (s.dummies ++ [s.edge.2])) where
  head := rfl
  last := by rw [← List.cons_append, List.getLast?_concat]
  mem v hv := by
    rw [s.path_eq] at hv
    obtain ⟨i, hi, rfl⟩ := List.mem_map.mp hv
    exact h.mem_of_le (Nat.le_of_lt_succ (List.mem_range.mp hi))
  nodup := by
    -- the nodes are in different layers
    rw [s.path_eq]
    refine List.Nodup.map_on (fun i hi j hj heq => ?_) List.nodup_range
    have hlayer := h.layer_nodeAt hreal (Nat.le_of_lt_succ (List.mem_range.mp hi))
    rw [heq, h.layer_nodeAt hreal (Nat.le_of_lt_succ (List.mem_range.mp hj))] at hlayer
    have := Except.ok.inj hlayer
    omega
  linked := by
    rw [s.path_eq, List.isChain_map, List.isChain_range_succ]
    exact fun i hi => h.link_mem hi

theorem eq_nodeAt_succ (hpos : 0 < i) (hi : i < s.span) {v : Text} (hv : (s.nodeAt i, v) ∈ a.graph.edges) :
    v = s.nodeAt (i + 1) := by
  obtain ⟨t, j, -, heq⟩ := (h.edges _).mp hv
  obtain ⟨hnode, rfl⟩ := Prod.mk.inj heq
  obtain ⟨rfl, rfl⟩ := Strand.nodeAt_inj hreal hpos hi hnode
  rfl

theorem eq_map_nodeAt (hpos : 0 < i) (hi : i ≤ s.span) {vs : List Text} (hvs : ∀ v ∈ vs, isDummy v = true) {w : Text}
    (hw : isDummy w = false) (hhead : ∀ v ∈ (vs ++ [w]).head?, v = s.nodeAt i)
    (hlinked : (vs ++ [w]).IsChain fun u v => (u, v) ∈ a.graph.edges) :
    vs ++ [w] = (List.range' i (s.span + 1 - i)).map s.nodeAt := by
  induction vs generalizing i with
  | nil =>
    obtain rfl : w = s.nodeAt i := hhead w rfl
    have hspan : i = s.span := by
      by_contra hne
      rw [(Strand.isDummy_nodeAt hreal).mpr ⟨hpos, by omega⟩] at hw
      cases hw
    rw [hspan, Nat.add_sub_cancel_left]
    rfl
  | cons v vs ih =>
    obtain rfl : v = s.nodeAt i := hhead v rfl
    obtain ⟨hv, hvs⟩ := List.forall_mem_cons.mp hvs
    obtain ⟨-, hlt⟩ := (Strand.isDummy_nodeAt hreal).mp hv
    rw [List.cons_append, List.isChain_cons] at hlinked
    have hrest := ih (i := i + 1) (Nat.succ_pos i) hlt hvs
      (fun u hu => h.eq_nodeAt_succ hreal hpos hlt (hlinked.1 u hu)) hlinked.2
    have hlength : s.span + 1 - i = s.span + 1 - (i + 1) + 1 := by omega
    rw [List.cons_append, hrest, hlength, List.range'_succ, List.map_cons]

theorem eq_dummies {vs : List Text} (hvs : ∀ v ∈ vs, isDummy v = true)
    (hlinked : (s.edge.1 :: (vs ++ [s.edge.2])).IsChain fun u v => (u, v) ∈ a.graph.edges) : vs = s.dummies := by
  rw [List.isChain_cons] at hlinked
  obtain ⟨hfirst, hlinked⟩ := hlinked
  obtain ⟨v, hv⟩ : ∃ v, (vs ++ [s.edge.2]).head? = some v := by cases vs <;> exact ⟨_, rfl⟩
  obtain ⟨t, i, hi, heq⟩ := (h.edges _).mp (hfirst v hv)
  obtain ⟨htail, hnext⟩ := Prod.mk.inj heq
  have hzero : i = 0 :=
    Strand.eq_zero_of_nodeAt_mem hreal (Strand.linked_all.mp hi) (htail ▸ Digraph.fst_mem s.edge_mem)
  subst hzero
  have hway : vs ++ [s.edge.2] = t.dummies ++ [t.edge.2] := by
    rw [t.dummies_append_head]
    refine h.eq_map_nodeAt hreal Nat.one_pos t.span_pos hvs (hreal _ (Digraph.snd_mem s.edge_mem)) ?_ hlinked
    intro u hu
    rw [← hnext]
    exact Option.some.inj ((Option.mem_def.mp hu).symm.trans hv)
  obtain ⟨hdummies, hhead⟩ := List.append_inj' hway rfl
  have hedge : t.edge = s.edge := Prod.ext (htail.trans t.nodeAt_zero).symm (List.singleton_inj.mp hhead).symm
  rw [hdummies, Strand.eq_of_edge hedge]

theorem exists_of_lt_layerCount (habove : ∀ e ∈ g.edges, l.Above e.1 e.2) (hreached : l.Reached g)
    (hne : g.nodes ≠ []) {k : Nat} (hk : (k : Int) < a.layerCount) :
    ∃ v ∈ a.graph.nodes, a.layers.layer v = .ok (k : Int) := by
  have hlayers : a.layers ≠ [] := by
    obtain ⟨v, hv⟩ := List.exists_mem_of_ne_nil _ hne
    obtain ⟨n, hn, -⟩ := Layering.exists_layer (hreached.keys ▸ hv)
    exact List.ne_nil_of_mem (Layering.mem_of_layer ((h.kept v (hreal v hv)).trans hn))
  obtain ⟨e, he, hcount⟩ := Layering.exists_count_eq hlayers
  obtain ⟨v, n, hn, hle⟩ := h.bounded e he
  obtain ⟨m, rfl, -⟩ := hreached.path v n hn
  rw [layerCount] at hk
  obtain ⟨u, hu, hlayer⟩ := hreached.exists_above habove hn k (by omega)
  exact ⟨u, (h.nodes u).mpr (.inl hu), (h.kept u (hreal u hu)).trans hlayer⟩

end Strung

theorem proper_of_strung {a : Augmented} (hreal : ∀ v ∈ g.nodes, isDummy v = false)
    (habove : ∀ e ∈ g.edges, l.Above e.1 e.2) (hreached : l.Reached g) (h : a.Strung g l g.edgesByTail.length 0)
    (hlisted : a.Listed g l g.edgesByTail.length) : a.Proper g l where
  nodes v := by
    rw [h.nodes]
    constructor
    · rintro (hv | ⟨s, i, hi, rfl⟩)
      · exact .inl hv
      · rcases Nat.lt_or_eq_of_le (Strand.linked_all.mp hi) with hi | hi
        · refine .inr ⟨(s.edge, s.dummies), hlisted.mem_iff.mpr ⟨s, by omega, rfl⟩, ?_⟩
          exact Strand.mem_dummies.mpr ⟨i + 1, Nat.succ_pos i, hi, rfl⟩
        · left
          rw [← Nat.succ_eq_add_one, hi, s.nodeAt_span]
          exact Digraph.snd_mem s.edge_mem
    · rintro (hv | ⟨c, hc, hv⟩)
      · exact .inl hv
      · obtain ⟨s, -, rfl⟩ := hlisted.mem_iff.mp hc
        obtain ⟨i, -, hi, rfl⟩ := Strand.mem_dummies.mp hv
        exact (h.nodes _).mp (h.mem_of_le hi.le)
  kept v hv := h.kept v (hreal v hv)
  down d hd := by
    obtain ⟨s, i, hi, rfl⟩ := (h.edges d).mp hd
    have hi := Strand.linked_all.mp hi
    exact ⟨s.top + i, h.layer_nodeAt hreal hi.le, by rw [h.layer_nodeAt hreal hi, Int.add_assoc]; rfl⟩
  used d hd := by
    obtain ⟨s, i, hi, rfl⟩ := (h.edges d).mp hd
    refine ⟨s.edge, s.edge_mem, ?_⟩
    rw [hlisted.chain_eq]
    exact Strand.infix_path (Strand.linked_all.mp hi)
  path e he := by
    obtain ⟨s, rfl⟩ := Strand.exists_of_mem habove he
    rw [hlisted.chain_eq]
    exact h.isPath hreal s
  unique e he vs hvs hlinked := by
    obtain ⟨s, rfl⟩ := Strand.exists_of_mem habove he
    rw [hlisted.chain_eq]
    exact h.eq_dummies hreal hvs hlinked
  layered e he := by
    obtain ⟨s, rfl⟩ := Strand.exists_of_mem habove he
    have hpos := s.span_pos
    refine ⟨s.top, s.span, s.tail_layer, s.head_layer, ?_⟩
    rw [hlisted.chain_eq, s.length_dummies]
    refine ⟨by omega, fun i v hv => ?_⟩
    obtain ⟨hi, rfl⟩ := Strand.getElem?_dummies hv
    exact h.layer_nodeAt hreal hi.le
  listed e vs := by
    rw [hlisted.mem_iff]
    constructor
    · rintro ⟨s, hspan, heq⟩
      obtain ⟨rfl, rfl⟩ := Prod.mk.inj heq
      refine ⟨s.edge_mem, (hlisted.chain_eq s).symm, List.ne_nil_of_length_pos ?_⟩
      rw [s.length_dummies]
      omega
    · rintro ⟨he, rfl, hne⟩
      obtain ⟨s, rfl⟩ := Strand.exists_of_mem habove he
      rw [hlisted.chain_eq] at hne ⊢
      have hlength := List.length_pos_of_ne_nil hne
      rw [s.length_dummies] at hlength
      exact ⟨s, by omega, rfl⟩
  once := hlisted.keys
  fresh c hc v hv := by
    obtain ⟨s, -, rfl⟩ := hlisted.mem_iff.mp hc
    obtain ⟨i, hpos, hi, rfl⟩ := Strand.mem_dummies.mp hv
    have hdummy := (Strand.isDummy_nodeAt (s := s) hreal).mpr ⟨hpos, hi⟩
    exact ⟨hdummy, fun hmem => absurd (hreal _ hmem) (by rw [hdummy]; decide)⟩
  apart := hlisted.nodup_flatMap hreal
  full hne _ hk := h.exists_of_lt_layerCount hreal habove hreached hne hk

end Augmented

theorem insertDummies_proper {g : Digraph Text} (hg : g.Acyclic) (hreal : ∀ v ∈ g.nodes, isDummy v = false) :
    ∃ l a, assignLayers g = .ok l ∧ insertDummies g l = .ok a ∧ a.Proper g l ∧ (g.nodes = [] → a.layerCount = 1) := by
  obtain ⟨l, hl, hcovers⟩ := assignLayers_ok hg
  obtain ⟨a, ha, -⟩ := insertDummies_ok hcovers
  have habove := above_of_assignLayers hg hl
  have hreached := reached_of_assignLayers hg hl
  obtain ⟨hstrung, hlisted⟩ := Augmented.strung_of_insertDummies hreal hreached.keys habove ha
  refine ⟨l, a, hl, ha, Augmented.proper_of_strung hreal habove hreached hstrung hlisted, fun hempty => ?_⟩
  have hlayers : a.layers = [] := by
    refine List.eq_nil_iff_forall_not_mem.mpr fun e he => ?_
    obtain ⟨v, n, hn, -⟩ := hstrung.bounded e he
    have hv := Layering.mem_keys_of_layer hn
    rw [hreached.keys, hempty] at hv
    cases hv
  rw [Augmented.layerCount, hlayers]
  rfl

theorem insertDummies_proper_past_shortcuts :
    let ends : List (String × String) := [("a", "d"), ("a", "b"), ("b", "c"), ("c", "d"), ("b", "d")]
    let g : Digraph Text := .ofLists [] (ends.map fun e => (e.1, e.2))
    let chains : List ((Text × Text) × List Text) :=
      [(("a", "d"), ["__dummy_0_1", "__dummy_0_2"]), (("b", "d"), ["__dummy_3_1"])]
    ∃ l a, assignLayers g = .ok l ∧ insertDummies g l = .ok a ∧ a.Proper g l ∧ a.chains = chains := by
  intro ends g chains
  have hacyclic : g.Acyclic := Digraph.acyclic_of_lt (f := fun v => (v.headD 'a').toNat) (by decide +kernel)
  obtain ⟨l, a, hl, ha, hproper, -⟩ := insertDummies_proper hacyclic (by decide +kernel)
  have hrun : assignLayers g >>= insertDummies g = .ok a := Except.bind_eq_ok.mpr ⟨l, hl, ha⟩
  have hchains : (assignLayers g >>= insertDummies g).toOption.map (·.chains) = some chains := by decide +kernel
  rw [hrun] at hchains
  exact ⟨l, a, hl, ha, hproper, Option.some.inj hchains⟩

theorem insertDummies_leaves_layer_empty :
    let g : Digraph Text := .ofLists [] []
    g.Acyclic ∧ (∀ v ∈ g.nodes, isDummy v = false) ∧ ∃ l a, assignLayers g = .ok l ∧ insertDummies g l = .ok a ∧
      ¬ ∀ k : Nat, (k : Int) < a.layerCount → ∃ v ∈ a.graph.nodes, a.layers.layer v = .ok (k : Int) := by
  intro g
  have hacyclic : g.Acyclic := Digraph.acyclic_of_lt (f := fun _ => 0) (by decide)
  obtain ⟨l, hl, -⟩ := assignLayers_ok hacyclic
  obtain rfl : l = [] := List.map_eq_nil_iff.mp (reached_of_assignLayers hacyclic hl).keys
  refine ⟨hacyclic, by decide, [], ⟨g, [], []⟩, hl, rfl, fun hfull => ?_⟩
  obtain ⟨v, hv, -⟩ := hfull 0 (by decide)
  cases hv

end Yuml.Layered
