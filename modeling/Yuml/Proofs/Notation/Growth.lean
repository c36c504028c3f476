import Yuml.Proofs.Notation.Legible
import Yuml.Proofs.Notation.Reading

namespace Yuml

/-- `n'` is `n`, or a class record that gained compartments or a fill where `n` has none. -/
structure Node.Grows (k : DiagramKind) (n n' : Node) : Prop where
  id : n'.id = n.id
  label : n'.label = n.label
  shape : n'.shape = n.shape
  fields : n'.fields = n.fields ∨ k = .classes ∧ n.shape = .record ∧ n.fields = []
  fill : n'.fill = n.fill ∨ k = .classes ∧ n.shape = .record ∧ n.fill = none

structure Document.Grows (k : DiagramKind) (d d' : Document) : Prop where
  edges : d.edges <+: d'.edges
  nodes : ∀ (i : Nat) (n : Node), d.nodes[i]? = some n → ∃ n', d'.nodes[i]? = some n' ∧ n.Grows k n'
  direction : d'.direction = d.direction
  attributes : d'.attributes = d.attributes
  header : d'.header = d.header

variable {k : DiagramKind}

namespace Node.Grows

theorem refl (n : Node) : n.Grows k n :=
  ⟨rfl, rfl, rfl, .inl rfl, .inl rfl⟩

theorem trans {n n' n'' : Node} (h : n.Grows k n') (h' : n'.Grows k n'') : n.Grows k n'' := by
  refine ⟨h'.id.trans h.id, h'.label.trans h.label, h'.shape.trans h.shape, ?_, ?_⟩
  · rcases h.fields with hsame | hempty
    · rw [← hsame, ← h.shape]
      exact h'.fields
    · exact .inr hempty
  · rcases h.fill with hsame | hempty
    · rw [← hsame, ← h.shape]
      exact h'.fill
    · exact .inr hempty

end Node.Grows

namespace Document

theorem Grows.refl (d : Document) : d.Grows k d :=
  ⟨List.prefix_rfl, fun _ n hn => ⟨n, hn, .refl n⟩, rfl, rfl, rfl⟩

theorem Grows.trans {d d' d'' : Document} (h : d.Grows k d') (h' : d'.Grows k d'') : d.Grows k d'' := by
  refine ⟨h.edges.trans h'.edges, fun i n hn => ?_, h'.direction.trans h.direction, h'.attributes.trans h.attributes,
    h'.header.trans h.header⟩
  obtain ⟨n', hn', hgrows⟩ := h.nodes i n hn
  obtain ⟨n'', hn'', hgrows'⟩ := h'.nodes i n' hn'
  exact ⟨n'', hn'', hgrows.trans hgrows'⟩

theorem grows_addEdge (d : Document) (e : Edge) : d.Grows k (d.addEdge e) :=
  ⟨List.prefix_append _ _, fun _ n hn => ⟨n, hn, .refl n⟩, rfl, rfl, rfl⟩

end Document

namespace Notation.Grammar

variable {g : Grammar}

theorem kind_of_completes (hk : ofKind? k = some g) (hcompletes : g.completes = true) : k = .classes := by
  cases k with
  | classes => rfl
  | sequence => cases hk
  | useCases | activity | state | deployment | package =>
    cases hk
    cases hcompletes

theorem looks_merge (known m : Mention) :
    (g.merge known m).shape = known.shape ∧ (g.merge known m).label = known.label := by
  unfold merge
  split
  · exact ⟨rfl, rfl⟩
  · exact ⟨rfl, rfl⟩

theorem looks_gathered (ms : List Mention) (m : Mention) :
    (g.gathered ms m).shape = m.shape ∧ (g.gathered ms m).label = m.label := by
  refine List.foldlRecOn (motive := fun known => known.shape = m.shape ∧ known.label = m.label) _ g.merge ⟨rfl, rfl⟩
    fun known h n _ => ?_
  obtain ⟨hshape, hlabel⟩ := looks_merge (g := g) known n
  exact ⟨hshape.trans h.1, hlabel.trans h.2⟩

theorem grows_merge {known m : Mention} (id : Text)
    (hrecord : g.completes = true → m.role = .thing → k = .classes ∧ known.shape = .record) :
    (known.toNode id).Grows k ((g.merge known m).toNode id) := by
  unfold merge
  split
  · next hcompletes =>
    obtain ⟨hcompletes, hrole⟩ := Bool.and_eq_true_iff.mp hcompletes
    obtain ⟨hk, hshape⟩ := hrecord hcompletes (beq_iff_eq.mp hrole)
    refine ⟨rfl, rfl, rfl, ?_, ?_⟩
    · by_cases hnone : known.fields = []
      · exact .inr ⟨hk, hshape, hnone⟩
      · exact .inl (if_neg (by simpa using hnone))
    · by_cases hnone : known.fill = none
      · exact .inr ⟨hk, hshape, hnone⟩
      · exact .inl (Option.or_of_isSome (Option.isSome_iff_ne_none.mpr hnone))
  · exact .refl _

theorem getElem?_nodesAmong (ms : List Mention) (i : Nat) :
    (g.nodesAmong ms)[i]? = ((firstMentions ms)[i]?).map fun m => (g.gathered ms m).toNode (Registry.nodeId i) := by
  rw [nodesAmong, List.getElem?_map, List.getElem?_zipIdx, Option.map_map, Nat.zero_add]
  rfl

section Step

variable (hk : ofKind? k = some g) {r : Registry Mention.Key} {ts : List NodeToken}

include hk

theorem grows_nodesAmong (t : NodeToken) {i : Nat} {n : Node} (hn : (g.nodesAmong (ts.map g.mention))[i]? = some n) :
    ∃ n', (g.nodesAmong (ts.map g.mention ++ [g.mention t]))[i]? = some n' ∧ n.Grows k n' := by
  rw [getElem?_nodesAmong] at hn
  obtain ⟨first, hfirst, rfl⟩ := Option.map_eq_some_iff.mp hn
  -- the first mentions stay, and the new one is merged into at most one of them
  have hstays : (firstMentions (ts.map g.mention ++ [g.mention t]))[i]? = some first := by
    obtain ⟨more, hmore⟩ := firstMentions_prefix (ts.map g.mention) [g.mention t]
    rw [← hmore, List.getElem?_append_left (List.getElem?_eq_some_iff.mp hfirst).1, hfirst]
  rw [getElem?_nodesAmong, hstays, Option.map_some]
  refine ⟨_, rfl, ?_⟩
  rw [gathered_concat]
  split
  · next hkey =>
    refine grows_merge _ fun hcompletes hrole => ⟨kind_of_completes hk hcompletes, ?_⟩
    obtain ⟨u, -, rfl⟩ := List.mem_map.mp (mem_of_mem_firstMentions (List.mem_of_getElem? hfirst))
    rw [(looks_gathered _ _).1]
    exact (record_of_completes hk hcompletes ((Prod.mk.inj hkey).1.symm.trans hrole)).1
  · exact .refl _

theorem grows_resolve (h : g.Gathers r (ts.map g.mention)) (t : NodeToken) :
    r.document.Grows k (g.resolve r t).1.document := by
  have hframe := g.document_resolve r t
  refine ⟨?_, fun i n hn => ?_, ?_, ?_, ?_⟩
  · exact (g.edges_resolve r t).symm ▸ List.prefix_rfl
  · rw [h.gathered] at hn
    rw [(h.resolve t).gathered]
    exact grows_nodesAmong hk t hn
  all_goals rw [hframe]

theorem grows_foldl_resolve (h : g.Gathers r (ts.map g.mention)) (us : List NodeToken) :
    r.document.Grows k (us.foldl (fun r t => (g.resolve r t).1) r).document := by
  induction us generalizing r ts with
  | nil => exact .refl _
  | cons u us ih =>
    have hrest : g.Gathers (g.resolve r u).1 ((ts ++ [u]).map g.mention) := by
      rw [List.map_append]
      exact h.resolve u
    exact (grows_resolve hk h u).trans (ih hrest)

omit hk in
theorem grows_connectLink {ms : List Mention} (h : g.Gathers r ms) {l : Link} (htail : g.mention l.tail ∈ ms)
    (hhead : g.mention l.head ∈ ms) : r.document.Grows k (g.connectLink r l).document := by
  unfold connectLink
  dsimp only
  rw [h.resolve_again htail, h.resolve_again hhead]
  exact Document.grows_addEdge _ _

theorem grows_takeTokens (h : g.Gathers r (ts.map g.mention)) (tokens : List Token) :
    r.document.Grows k (g.takeTokens r tokens).document := by
  refine (List.foldlRecOn (motive := fun s => g.Gathers s (ts.map g.mention ++ (nodes tokens).map g.mention) ∧
    r.document.Grows k s.document) (links tokens) g.connectLink
    ⟨h.foldl_resolve (nodes tokens), grows_foldl_resolve hk h (nodes tokens)⟩ fun s hs l hl => ?_).2
  obtain ⟨htail, hhead⟩ := g.mention_ends_of_links (ts.map g.mention) tokens l hl
  exact ⟨hs.1.connectLink htail hhead, hs.2.trans (grows_connectLink hs.1 htail hhead)⟩

theorem grows_foldl_takeTokens (h : g.Gathers r (ts.map g.mention)) (lines : List (List Token)) :
    r.document.Grows k (lines.foldl g.takeTokens r).document := by
  induction lines generalizing r ts with
  | nil => exact .refl _
  | cons tokens lines ih =>
    have hrest : g.Gathers (g.takeTokens r tokens) ((ts ++ nodes tokens).map g.mention) := by
      rw [List.map_append]
      exact h.takeTokens tokens
    exact (grows_takeTokens hk h tokens).trans (ih hrest)

end Step

theorem parse_append_grows (hk : ofKind? k = some g) (direction : Direction) (before after : List Text) :
    (g.parse direction before).Grows k (g.parse direction (before ++ after)) := by
  unfold parse ofTokens
  rw [List.map_append, List.foldl_append]
  exact grows_foldl_takeTokens hk (g.gathers_takeTokens direction _) _

theorem parse_append_grows_bare_record :
    ofKind? .classes = some classes ∧
      (classes.parse .topDown ["[A]->[B]"]).Grows .classes (classes.parse .topDown ["[A]->[B]", "[B|x\x7bbg:red\x7d]"]) ∧
      (classes.parse .topDown ["[A]->[B]"]).nodes[1]? = some ⟨"A2", "B", .record, [], none⟩ ∧
      (classes.parse .topDown ["[A]->[B]", "[B|x\x7bbg:red\x7d]"]).nodes[1]? =
        some ⟨"A2", "B", .record, ["B", "x"], some "red".toList⟩ := by
  have hk : ofKind? .classes = some classes := rfl
  refine ⟨hk, parse_append_grows hk .topDown ["[A]->[B]"] ["[B|x\x7bbg:red\x7d]"], ?_, ?_⟩
  · decide +kernel
  · decide +kernel

end Notation.Grammar

end Yuml
