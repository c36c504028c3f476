import Mathlib.Algebra.GroupWithZero.Nat
import Yuml.Proofs.Notation.Grammar

namespace Yuml

theorem Document.nodes_modifyNode {d : Document} (h : (d.nodes.map (·.id)).Nodup) (id : Text) (f : Node → Node) :
    (d.modifyNode id f).nodes = d.nodes.map fun n => if n.id = id then f n else n := by
  have hchange {ns : List Node} (h : (ns.map (·.id)).Nodup) :
      modifyNode.change id f ns = ns.map fun n => if n.id = id then f n else n := by
    induction ns with
    | nil => rfl
    | cons n ns ih =>
      obtain ⟨hn, hns⟩ := List.nodup_cons.mp h
      rw [modifyNode.change, List.map_cons]
      split
      · next heq =>
        have hothers : ns.map (fun m => if m.id = id then f m else m) = ns := by
          refine (List.map_congr_left fun m hm => if_neg fun hid => hn ?_).trans (List.map_id ns)
          have hmem : m.id ∈ ns.map (·.id) := List.mem_map_of_mem hm
          rwa [hid, ← heq] at hmem
        rw [hothers]
      · rw [ih hns]
  exact hchange h

namespace Notation

open Registry (nodeId)

theorem nodup_keys_firstMentions (ms : List Mention) : ((firstMentions ms).map (·.key)).Nodup := by
  induction ms using List.reverseRecOn with
  | nil => exact List.nodup_nil
  | append_singleton ms m ih =>
    rw [firstMentions_concat]
    split
    · exact ih
    · next hnew =>
      rw [List.map_append]
      exact List.Nodup.append ih (List.nodup_singleton _) (List.disjoint_singleton.mpr hnew)

theorem firstMentions_concat_of_mem {ms : List Mention} {m : Mention} (h : m ∈ ms) :
    firstMentions (ms ++ [m]) = firstMentions ms := by
  rw [firstMentions_concat, if_pos (mem_keys_firstMentions h)]

theorem nodeId_eq_idAmong_iff {ms : List Mention} {p : Mention × Nat} (hp : p ∈ (firstMentions ms).zipIdx)
    (m : Mention) : nodeId p.2 = idAmong (firstMentions ms) m ↔ m.key = p.1.key := by
  have hget : ((firstMentions ms).map (·.key))[p.2]? = some p.1.key := by
    rw [List.getElem?_map, List.mk_mem_zipIdx_iff_getElem?.mp hp]
    rfl
  obtain ⟨hbound, hkey⟩ := List.getElem?_eq_some_iff.mp hget
  have hplace : ((firstMentions ms).map (·.key)).idxOf p.1.key = p.2 := by
    rw [← hkey]
    exact (nodup_keys_firstMentions ms).idxOf_getElem p.2 hbound
  rw [idAmong, Registry.nodeId_injective.eq_iff, ← hplace, List.idxOf_inj (hkey ▸ List.getElem_mem hbound)]
  exact eq_comm

theorem filter_key_of_new {ms : List Mention} {m : Mention} (h : m.key ∉ (firstMentions ms).map (·.key)) :
    ms.filter (·.key = m.key) = [] := by
  refine List.filter_eq_nil_iff.mpr fun n hn heq => h ?_
  exact of_decide_eq_true heq ▸ mem_keys_firstMentions hn

namespace Grammar

variable (g : Grammar)

def merge (known m : Mention) : Mention :=
  if g.completes && m.role == .thing then
    { known with
      fields := if known.fields.isEmpty then m.fields else known.fields
      fill := known.fill.or m.fill }
  else known

def gathered (ms : List Mention) (m : Mention) : Mention :=
  (ms.filter (·.key = m.key)).foldl g.merge m

theorem merge_merge_self (known m : Mention) : g.merge (g.merge known m) m = g.merge known m := by
  unfold merge
  split
  · by_cases h : known.fields = []
    · cases known.fill <;> simp [h]
    · cases known.fill <;> simp [h]
  · rfl

theorem merge_merge_of_known {known m : Mention} (h : g.merge known m = known) (other : Mention) :
    g.merge (g.merge known other) m = g.merge known other := by
  unfold merge at h ⊢
  split at h
  · next hm =>
    have hfields := congrArg Mention.fields h
    have hfill := congrArg Mention.fill h
    dsimp only at hfields hfill
    rw [if_pos hm]
    split
    · congr 1
      · by_cases hnone : known.fields = []
        · have hgiven : m.fields = [] := by simpa [hnone] using hfields
          simp [hgiven]
        · simp [hnone]
      · cases hknown : known.fill with
        | none =>
          have hgiven : m.fill = none := by simpa [hknown] using hfill
          simp [hgiven]
        | some colour => rfl
    · exact h
  · next hm => rw [if_neg hm]

theorem gathered_concat (ms : List Mention) (m known : Mention) :
    g.gathered (ms ++ [m]) known =
      if m.key = known.key then g.merge (g.gathered ms known) m else g.gathered ms known := by
  rw [gathered, List.filter_append, List.foldl_append]
  split
  · next h =>
    rw [List.filter_singleton, decide_eq_true h]
    rfl
  · next h =>
    rw [List.filter_singleton, decide_eq_false h]
    rfl

theorem gathered_of_new {ms : List Mention} {m : Mention} (h : m.key ∉ (firstMentions ms).map (·.key)) :
    g.gathered ms m = m := by
  rw [gathered, filter_key_of_new h]
  rfl

theorem merge_gathered {ms : List Mention} {m known : Mention} (hm : m ∈ ms) (hkey : m.key = known.key) :
    g.merge (g.gathered ms known) m = g.gathered ms known := by
  induction ms using List.reverseRecOn with
  | nil => cases hm
  | append_singleton ms other ih =>
    rw [gathered_concat]
    rcases List.mem_append.mp hm with hm | hm
    · split
      · exact g.merge_merge_of_known (ih hm) other
      · exact ih hm
    · obtain rfl := List.mem_singleton.mp hm
      rw [if_pos hkey, merge_merge_self]

theorem gathered_concat_of_mem {ms : List Mention} {m : Mention} (h : m ∈ ms) (known : Mention) :
    g.gathered (ms ++ [m]) known = g.gathered ms known := by
  rw [gathered_concat]
  split
  · next hkey => exact g.merge_gathered h hkey
  · rfl

def nodesAmong (ms : List Mention) : List Node :=
  (firstMentions ms).zipIdx.map fun p => (g.gathered ms p.1).toNode (nodeId p.2)

theorem nodesAmong_concat_of_mem {ms : List Mention} {m : Mention} (h : m ∈ ms) :
    g.nodesAmong (ms ++ [m]) = g.nodesAmong ms := by
  rw [nodesAmong, firstMentions_concat_of_mem h]
  exact List.map_congr_left fun p _ => congrArg (·.toNode (nodeId p.2)) (g.gathered_concat_of_mem h p.1)

variable {r : Registry Mention.Key} {ms : List Mention}

theorem nodes_add (h : Knows r (firstMentions ms)) (hnodes : r.document.nodes = g.nodesAmong ms) (m : Mention) :
    (r.add m.key m.toNode).1.document.nodes =
      (firstMentions (ms ++ [m])).zipIdx.map fun p => (g.gathered ms p.1).toNode (nodeId p.2) := by
  rw [firstMentions_concat, Registry.add, h.id?_eq]
  by_cases hm : m.key ∈ (firstMentions ms).map (·.key)
  · rw [if_pos hm, if_pos hm]
    exact hnodes
  · rw [if_neg hm, if_neg hm]
    dsimp only
    rw [Document.nodes_addNode_of_new (n := m.toNode r.nextId) h.nextId_new, hnodes, List.zipIdx_append, List.map_append,
      Nat.zero_add]
    refine congrArg (g.nodesAmong ms ++ ·) ?_
    rw [List.zipIdx_singleton, List.map_singleton, g.gathered_of_new hm, h.nextId_eq]

theorem nodes_resolve (h : Knows r (firstMentions ms)) (hnodes : r.document.nodes = g.nodesAmong ms) (t : NodeToken) :
    (g.resolve r t).1.document.nodes = g.nodesAmong (ms ++ [g.mention t]) := by
  obtain ⟨hknows, hid⟩ := h.add (g.mention t)
  have hadd := g.nodes_add h hnodes (g.mention t)
  unfold resolve
  dsimp only
  split
  · next hcompletes =>
    have hnodup : ((r.add (g.mention t).key (g.mention t).toNode).1.document.nodes.map (·.id)).Nodup := by
      rw [hknows.ids]
      exact Registry.nodup_nodeIds _
    rw [Document.nodes_modifyNode hnodup, hadd, List.map_map]
    refine List.map_congr_left fun p hp => ?_
    have hkey := nodeId_eq_idAmong_iff hp (g.mention t)
    rw [gathered_concat, hid]
    dsimp only [Function.comp_apply, Mention.toNode]
    by_cases hsame : (g.mention t).key = p.1.key
    · rw [if_pos (hkey.mpr hsame), if_pos hsame, merge, if_pos hcompletes]
      rfl
    · rw [if_neg (mt hkey.mp hsame), if_neg hsame]
  · next hcompletes =>
    rw [hadd]
    refine List.map_congr_left fun p _ => ?_
    rw [gathered_concat, merge, if_neg hcompletes, ite_self]

/-- A registry that has met certain mentions, and the nodes that it makes of them. -/
structure Gathers (r : Registry Mention.Key) (ms : List Mention) : Prop where
  knows : Knows r (firstMentions ms)
  gathered : r.document.nodes = g.nodesAmong ms

variable {g}

namespace Gathers

theorem resolve (h : g.Gathers r ms) (t : NodeToken) : g.Gathers (g.resolve r t).1 (ms ++ [g.mention t]) :=
  ⟨(g.knows_resolve h.knows t).1, g.nodes_resolve h.knows h.gathered t⟩

theorem of_concat {m : Mention} (h : g.Gathers r (ms ++ [m])) (hm : m ∈ ms) : g.Gathers r ms :=
  ⟨firstMentions_concat_of_mem hm ▸ h.knows, g.nodesAmong_concat_of_mem hm ▸ h.gathered⟩

theorem foldl_resolve (h : g.Gathers r ms) (ts : List NodeToken) :
    g.Gathers (ts.foldl (fun r t => (g.resolve r t).1) r) (ms ++ ts.map g.mention) := by
  induction ts generalizing r ms with
  | nil => rwa [List.map_nil, List.append_nil]
  | cons t ts ih =>
    have hrest := ih (h.resolve t)
    rwa [List.append_assoc] at hrest

theorem connectLink (h : g.Gathers r ms) {l : Link} (htail : g.mention l.tail ∈ ms) (hhead : g.mention l.head ∈ ms) :
    g.Gathers (g.connectLink r l) ms := by
  have hends := ((h.resolve l.tail).of_concat htail).resolve l.head |>.of_concat hhead
  exact ⟨hends.knows.addEdge _, hends.gathered⟩

theorem foldl_connectLink (h : g.Gathers r ms) {ls : List Link}
    (hls : ∀ l ∈ ls, g.mention l.tail ∈ ms ∧ g.mention l.head ∈ ms) : g.Gathers (ls.foldl g.connectLink r) ms :=
  List.foldlRecOn (motive := fun r => g.Gathers r ms) ls g.connectLink h fun _ hr l hl =>
    hr.connectLink (hls l hl).1 (hls l hl).2

theorem takeTokens (h : g.Gathers r ms) (ts : List Token) :
    g.Gathers (g.takeTokens r ts) (ms ++ (nodes ts).map g.mention) :=
  (h.foldl_resolve (nodes ts)).foldl_connectLink (g.mention_ends_of_links ms ts)

theorem foldl_takeTokens (h : g.Gathers r ms) (lines : List (List Token)) :
    g.Gathers (lines.foldl g.takeTokens r) (ms ++ g.mentions lines) := by
  induction lines generalizing r ms with
  | nil => simpa [mentions] using h
  | cons ts lines ih =>
    have hrest := ih (h.takeTokens ts)
    rwa [List.append_assoc, mentions, ← List.map_append, ← List.flatMap_cons] at hrest

end Gathers

variable (g)

theorem gathers_takeTokens (direction : Direction) (lines : List (List Token)) :
    g.Gathers (lines.foldl g.takeTokens ⟨{ direction }, []⟩) (g.mentions lines) := by
  have hstart : g.Gathers ⟨{ direction }, []⟩ [] := ⟨⟨rfl, rfl⟩, rfl⟩
  exact hstart.foldl_takeTokens lines

theorem nodes_ofTokens (direction : Direction) (lines : List (List Token)) :
    (g.ofTokens direction lines).nodes = g.nodesAmong (g.mentions lines) :=
  (g.gathers_takeTokens direction lines).gathered

theorem length_links (ts : List Token) : (links ts).length = (nodes ts).length - 1 := by
  have hends := congrArg List.length (ends_links ts)
  rw [List.length_map, consecutive, List.length_zip, List.length_tail] at hends
  omega

theorem parse_wellFormed (direction : Direction) (instructions : List Text) :
    let lines := instructions.map (split g.brackets)
    let firsts := firstMentions (g.mentions lines)
    let d := g.parse direction instructions
    firsts.map (·.key) = ((lines.flatMap nodes).map fun t => (g.mention t).key).eraseDups ∧
      d.nodes = firsts.zipIdx.map (fun p => (g.gathered (g.mentions lines) p.1).toNode (nodeId p.2)) ∧
      d.nodes.map (·.id) = (List.range firsts.length).map (fun i => 'A' :: Text.ofNat (i + 1)) ∧
      (d.nodes.map (·.id)).Nodup ∧
      (∀ e ∈ d.edges, e.tail ∈ d.nodes.map (·.id) ∧ e.head ∈ d.nodes.map (·.id)) ∧
      d.edges = (lines.flatMap fun ts => (links ts).map (g.edgeAmong firsts)) ∧
      (∀ ts ∈ lines, (links ts).map (fun l => (l.tail, l.head)) = consecutive (nodes ts)) ∧
      d.edges.length = (lines.map fun ts => (nodes ts).length - 1).sum := by
  intro lines firsts d
  have hedges : d.edges = lines.flatMap fun ts => (links ts).map (g.edgeAmong firsts) :=
    (g.ofTokens_spec direction lines).2.trans (List.map_flatMap ..)
  refine ⟨?_, g.nodes_ofTokens direction lines, ?_, g.ids_nodup direction lines, g.ends_mem_ids direction lines, hedges,
    fun ts _ => ends_links ts, ?_⟩
  · rw [keys_firstMentions, mentions, List.map_map]
    rfl
  · exact (g.ids_ofTokens direction lines).trans (Registry.map_nodeId_zipIdx firsts)
  · rw [hedges, List.length_flatMap]
    refine congrArg List.sum (List.map_congr_left fun ts _ => ?_)
    rw [List.length_map, length_links]

end Grammar

end Notation

end Yuml
