import Yuml.Proofs.Layered.Routes

namespace Yuml.Layered

namespace Sketch

section Noting

variable {K : Type} [DecidableEq K] {key : K} {ks : List K} {f : K → List Nat}

theorem note_of_not_mem (h : key ∉ ks) (n : Nat) :
    note key n (ks.map fun k => (k, f k)) = (ks.map fun k => (k, f k)) ++ [(key, [n])] := by
  induction ks with
  | nil => rfl
  | cons k ks ih =>
    obtain ⟨hne, hks⟩ := not_or.mp (mt List.mem_cons.mpr h)
    rw [List.map_cons, note, if_neg (Ne.symm hne), ih hks, List.cons_append]

theorem note_of_mem (hks : ks.Nodup) (h : key ∈ ks) (n : Nat) :
    note key n (ks.map fun k => (k, f k)) = ks.map fun k => (k, if k = key then f k ++ [n] else f k) := by
  induction ks with
  | nil => cases h
  | cons k ks ih =>
    obtain ⟨hk, hks⟩ := List.nodup_cons.mp hks
    rw [List.map_cons, List.map_cons, note]
    by_cases heq : k = key
    · have hrest : ∀ k' ∈ ks, ¬ k' = key := fun k' hk' heq' => hk (heq ▸ heq' ▸ hk')
      rw [if_pos heq, if_pos heq]
      exact congrArg _ (List.map_congr_left fun k' hk' => by rw [if_neg (hrest k' hk')])
    · rw [if_neg heq, if_neg heq, ih hks ((List.mem_cons.mp h).resolve_left (Ne.symm heq))]

theorem find?_note (ks : List K) (f : K → List Nat) (key : K) :
    (ks.map fun k => (k, f k)).find? (·.1 = key) = if key ∈ ks then some (key, f key) else none := by
  induction ks with
  | nil => rfl
  | cons k ks ih =>
    rw [List.map_cons, List.find?_cons]
    by_cases h : k = key
    · simp [h]
    · simp [h, ih, Ne.symm h]

variable {β : Type} (keyOf : β → K) (number : β → Nat)

def numbersWith (xs : List β) (key : K) : List Nat :=
  (xs.filter (keyOf · = key)).map number

variable {keyOf number}

theorem numbersWith_concat (xs : List β) (x : β) (k : K) :
    numbersWith keyOf number (xs ++ [x]) k =
      if k = keyOf x then numbersWith keyOf number xs k ++ [number x] else numbersWith keyOf number xs k := by
  by_cases h : k = keyOf x
  · simp [numbersWith, h]
  · simp [numbersWith, h, Ne.symm h]

theorem numbersWith_eq_nil {xs : List β} (h : key ∉ xs.map keyOf) : numbersWith keyOf number xs key = [] := by
  rw [numbersWith, List.map_eq_nil_iff, List.filter_eq_nil_iff]
  intro x hx heq
  exact h (List.mem_map.mpr ⟨x, hx, of_decide_eq_true heq⟩)

variable [BEq K] [LawfulBEq K] (keyOf number) in
theorem foldl_note (xs : List β) :
    xs.foldl (fun entries x => note (keyOf x) (number x) entries) [] =
      (xs.map keyOf).eraseDups.map fun k => (k, numbersWith keyOf number xs k) := by
  induction xs using List.reverseRecOn with
  | nil => rfl
  | append_singleton xs x ih =>
    rw [List.foldl_append, List.foldl_cons, List.foldl_nil, ih, List.map_append, List.map_singleton]
    by_cases h : keyOf x ∈ xs.map keyOf
    · rw [note_of_mem (List.nodup_eraseDups _) (List.mem_eraseDups.mpr h), List.eraseDups_concat_of_mem h]
      exact List.map_congr_left fun k _ => by rw [numbersWith_concat]
    · have hkeys : keyOf x ∉ (xs.map keyOf).eraseDups := mt List.mem_eraseDups.mp h
      rw [note_of_not_mem hkeys, List.eraseDups_concat_of_not_mem h, List.map_append, List.map_singleton,
        numbersWith_concat, if_pos rfl, numbersWith_eq_nil h, List.nil_append]
      refine congrArg (· ++ _) (List.map_congr_left fun k hk => ?_)
      rw [numbersWith_concat, if_neg (ne_of_mem_of_not_mem hk hkeys)]

end Noting

section Collapsing

variable {α : Type} {s : Sketch α} {f : Text × Text}

theorem ends_zipIdx (edges : List Edge) :
    (edges.zipIdx.map fun e => (e.1.tail, e.1.head)) = edges.map fun e => (e.tail, e.head) := by
  conv_rhs => rw [← List.zipIdx_map_fst 0 edges, List.map_map]
  rfl

theorem entries_eq (s : Sketch α) :
    s.entries = (s.edges.map fun e => (e.tail, e.head)).eraseDups.map fun f =>
      (f, numbersWith (fun e => (e.1.tail, e.1.head)) Prod.snd s.edges.zipIdx f) := by
  rw [← ends_zipIdx]
  exact foldl_note (fun e => (e.1.tail, e.1.head)) Prod.snd s.edges.zipIdx

theorem numbersOf_eq (s : Sketch α) (f : Text × Text) :
    s.numbersOf f.1 f.2 = numbersWith (fun e => (e.1.tail, e.1.head)) Prod.snd s.edges.zipIdx f := by
  have hfound := find?_note (s.edges.map fun e => (e.tail, e.head)).eraseDups
    (numbersWith (fun e : Edge × Nat => (e.1.tail, e.1.head)) Prod.snd s.edges.zipIdx) f
  rw [numbersOf, entries_eq, hfound]
  split
  · rfl
  · next h =>
    refine (numbersWith_eq_nil fun hf => h (List.mem_eraseDups.mpr ?_)).symm
    rwa [ends_zipIdx] at hf

theorem mem_numbersOf {n : Nat} :
    n ∈ s.numbersOf f.1 f.2 ↔ ∃ e, s.edges[n]? = some e ∧ (e.tail, e.head) = f := by
  simp only [numbersOf_eq, numbersWith, List.mem_map, List.mem_filter, decide_eq_true_iff]
  constructor
  · rintro ⟨⟨e, _⟩, ⟨hmem, hends⟩, rfl⟩
    exact ⟨e, List.mem_zipIdx_iff_getElem?.mp hmem, hends⟩
  · rintro ⟨e, he, hends⟩
    exact ⟨(e, n), ⟨List.mem_zipIdx_iff_getElem?.mpr he, hends⟩, rfl⟩

theorem pairwise_numbersOf (s : Sketch α) (f : Text × Text) : (s.numbersOf f.1 f.2).Pairwise (· < ·) := by
  have hnumbers : (s.edges.zipIdx.map (·.2)).Pairwise (· < ·) := by
    rw [List.zipIdx_map_snd]
    exact List.pairwise_lt_range'
  rw [numbersOf_eq]
  exact hnumbers.sublist (List.filter_sublist.map _)

theorem perm_numbers (s : Sketch α) :
    ((s.edges.map fun e => (e.tail, e.head)).eraseDups.flatMap fun f => s.numbersOf f.1 f.2).Perm
      (List.range s.edges.length) := by
  refine (List.perm_ext_iff_of_nodup ?_ List.nodup_range).mpr fun n => ?_
  · refine List.nodup_flatMap.mpr ⟨fun f _ => (pairwise_numbersOf s f).imp Nat.ne_of_lt, ?_⟩
    refine (List.nodup_eraseDups _).imp fun hne n hf hf' => hne ?_
    obtain ⟨e, he, rfl⟩ := mem_numbersOf.mp hf
    obtain ⟨e', he', rfl⟩ := mem_numbersOf.mp hf'
    rw [Option.some.inj (he.symm.trans he')]
  · rw [List.mem_flatMap, List.mem_range]
    constructor
    · rintro ⟨f, -, hn⟩
      obtain ⟨e, he, -⟩ := mem_numbersOf.mp hn
      exact (List.getElem?_eq_some_iff.mp he).1
    · intro hn
      have he := List.getElem?_eq_getElem hn
      exact ⟨_, List.mem_eraseDups.mpr (List.mem_map_of_mem (List.getElem_mem hn)), mem_numbersOf.mpr ⟨_, he, rfl⟩⟩

end Collapsing

structure Keeps {α : Type} (s : Sketch α) (d : Document) : Prop where
  edges : s.edges = d.edges
  nodes : s.graph.nodes = (d.nodes.map (·.id)).eraseDups ++
    ((d.edges.flatMap fun e => [e.tail, e.head]).removeAll (d.nodes.map (·.id))).eraseDups
  pairs : s.graph.edges = (d.edges.map fun e => (e.tail, e.head)).eraseDups
  entries : s.entries = s.graph.edges.map fun f => (f, s.numbersOf f.1 f.2)
  mem_numbersOf : ∀ f ∈ s.graph.edges, ∀ n,
    n ∈ s.numbersOf f.1 f.2 ↔ ∃ e, d.edges[n]? = some e ∧ (e.tail, e.head) = f
  ascending : ∀ f ∈ s.graph.edges, (s.numbersOf f.1 f.2).Pairwise (· < ·)
  once : (s.graph.edges.flatMap fun f => s.numbersOf f.1 f.2).Perm (List.range d.edges.length)

section Document

variable {α : Type} [Number.Scalar α]

theorem keeps_ofDocument (d : Document) (sizes : List (Text × (α × α))) : (ofDocument d sizes).Keeps d := by
  have hpairs : (ofDocument d sizes).graph.edges = (d.edges.map fun e => (e.tail, e.head)).eraseDups :=
    Digraph.edges_ofLists_eq _ _
  refine ⟨rfl, ?_, hpairs, ?_, fun f _ n => mem_numbersOf, fun f _ => pairwise_numbersOf _ f, ?_⟩
  · rw [ofDocument, Digraph.nodes_ofLists_eq, List.eraseDups_append, List.flatMap_map]
  · rw [hpairs, entries_eq]
    exact List.map_congr_left fun f _ => by rw [numbersOf_eq]
  · rw [hpairs]
    exact perm_numbers (ofDocument d sizes)

end Document

end Sketch

namespace Layout

variable {α : Type} [Number.Scalar α]

theorem ofSketch_places_congr {s s' : Sketch α} (hgraph : s.graph = s'.graph) (hdirection : s.direction = s'.direction)
    (hsize : s.size = s'.size) (rankGap nodeGap : α) :
    ∃ l l', ofSketch s rankGap nodeGap = .ok l ∧ ofSketch s' rankGap nodeGap = .ok l' ∧
      l.nodes = l'.nodes ∧ l.dummies = l'.dummies := by
  obtain ⟨a, ha, hextends, hperm, -⟩ := Arrangement.ofGraph_ok s.graph
  obtain ⟨l, hl, -⟩ := ofArrangement_ok hextends hperm rankGap nodeGap
  have ha' : Arrangement.ofGraph s'.graph = .ok a := hgraph ▸ ha
  obtain ⟨l', hl', -⟩ := ofArrangement_ok (hgraph ▸ hextends) hperm rankGap nodeGap
  refine ⟨l, l', by rw [ofSketch, ha]; exact hl, by rw [ofSketch, ha']; exact hl', ?_, ?_⟩
  · have hnodes := (of_ofArrangement hl).2.1
    rw [hgraph, hdirection, hsize] at hnodes
    exact Except.ok.inj (hnodes.symm.trans (of_ofArrangement hl').2.1)
  · rw [(drawn_ofArrangement hl).2, (drawn_ofArrangement hl').2, hdirection, hsize]

theorem ofDocument_keeps_edges (d : Document) (sizes : List (Text × (α × α))) :
    (Sketch.ofDocument d sizes).Keeps d ∧
      ∀ (before copies after : List Edge), d.edges = before ++ after →
        (∀ c ∈ copies, ∃ e ∈ before, (e.tail, e.head) = (c.tail, c.head)) →
        ∀ rankGap nodeGap : α, ∃ l l', ofSketch (Sketch.ofDocument d sizes) rankGap nodeGap = .ok l ∧
          ofSketch (Sketch.ofDocument { d with edges := before ++ copies ++ after } sizes) rankGap nodeGap = .ok l' ∧
          l.nodes = l'.nodes ∧ l.dummies = l'.dummies := by
  refine ⟨Sketch.keeps_ofDocument d sizes, fun before copies after hedges hcopies rankGap nodeGap => ?_⟩
  have hknown : (copies.map fun e => (e.tail, e.head)) ⊆ before.map fun e => (e.tail, e.head) := by
    intro f hf
    obtain ⟨c, hc, rfl⟩ := List.mem_map.mp hf
    exact List.mem_map.mpr (hcopies c hc)
  have hgraph : (Sketch.ofDocument d sizes).graph =
      (Sketch.ofDocument { d with edges := before ++ copies ++ after } sizes).graph := by
    simp only [Sketch.ofDocument, hedges, List.map_append, Digraph.ofLists_again hknown]
  exact ofSketch_places_congr hgraph rfl rfl rankGap nodeGap

theorem ofDocument_keeps_edges_repeated :
    let e (tail head : String) : Edge := { tail := tail, head := head }
    let before := [e "a" "b", e "b" "b"]
    let copies := [e "b" "b", e "a" "b"]
    let after := [e "c" "a"]
    let d : Document := { nodes := [⟨"c", "", .box, [], none⟩], edges := before ++ after }
    let sizes : List (Text × Rat × Rat) := [("a", 40, 20), ("b", 0, 30), ("c", 25, 10)]
    (Sketch.ofDocument d sizes).Keeps d ∧
      ∃ l l', ofSketch (Sketch.ofDocument d sizes) 50 30 = .ok l ∧
        ofSketch (Sketch.ofDocument { d with edges := before ++ copies ++ after } sizes) 50 30 = .ok l' ∧
        l.nodes = l'.nodes ∧ l.dummies = l'.dummies := by
  intro e before copies after d sizes
  obtain ⟨hkeeps, hcopies⟩ := ofDocument_keeps_edges d sizes
  exact ⟨hkeeps, hcopies before copies after rfl (by decide) 50 30⟩

end Layout

end Yuml.Layered
