import Mathlib.Data.List.Nodup
import Yuml.Proofs.Notation.Mention
import Yuml.Proofs.Number.Written

namespace List

variable {α β γ : Type} [DecidableEq β] [BEq β] [LawfulBEq β]

theorem find?_zipIdx_key (xs : List α) (key : α → β) (number : Nat → γ) (k : β) (start : Nat) :
    (((xs.zipIdx start).map fun p => (key p.1, number p.2)).find? (·.1 = k)).map (·.2) =
      if k ∈ xs.map key then some (number (start + (xs.map key).idxOf k)) else none := by
  induction xs generalizing start with
  | nil => rfl
  | cons x xs ih =>
    rw [zipIdx_cons, map_cons, map_cons, idxOf_cons]
    by_cases hx : key x = k
    · simp [hx]
    · have hne : ¬ k = key x := fun h => hx h.symm
      have hbeq : (key x == k) = false := beq_false_of_ne hx
      rw [find?_cons_of_neg (by simpa using hx), ih, hbeq, Nat.add_right_comm, Nat.add_assoc]
      simp [hne]

end List

namespace Yuml

theorem Registry.nodeId_injective : Function.Injective nodeId := by
  intro i j h
  have hnumber := Text.ofNat_injective (List.tail_eq_of_cons_eq h)
  omega

theorem Registry.legal_nodeId (i : Nat) : Xml.Legal (nodeId i) :=
  List.forall_mem_cons.mpr ⟨rfl, Xml.legal_ofNat (i + 1)⟩

theorem Registry.map_nodeId_zipIdx {α : Type} (xs : List α) :
    xs.zipIdx.map (fun p => nodeId p.2) = (List.range xs.length).map nodeId := by
  rw [List.range_eq_range', ← List.zipIdx_map_snd 0, List.map_map]
  rfl

theorem Registry.nodup_nodeIds {α : Type} (xs : List α) : (xs.zipIdx.map fun p => nodeId p.2).Nodup := by
  rw [map_nodeId_zipIdx]
  exact List.Nodup.map nodeId_injective List.nodup_range

theorem Document.map_modifyNode {β : Type} (d : Document) (id : Text) (f : Node → Node) {view : Node → β}
    (hf : ∀ n, view (f n) = view n) : (d.modifyNode id f).nodes.map view = d.nodes.map view := by
  have hchange (ns : List Node) : (modifyNode.change id f ns).map view = ns.map view := by
    induction ns with
    | nil => rfl
    | cons n ns ih =>
      rw [modifyNode.change]
      split
      · rw [List.map_cons, List.map_cons, hf]
      · rw [List.map_cons, List.map_cons, ih]
  exact hchange d.nodes

theorem Document.nodes_addNode_of_new {d : Document} {n : Node} (h : n.id ∉ d.nodes.map (·.id)) :
    (d.addNode n).nodes = d.nodes ++ [n] := by
  have hfree : d.node? n.id = none := List.find?_eq_none.mpr fun m hm => by
    rw [decide_eq_true_eq]
    exact fun heq => h (heq ▸ List.mem_map_of_mem hm)
  rw [addNode, hfree]
  rfl

namespace Notation

open Registry (nodeId)
open Xml

def idAmong (firsts : List Mention) (m : Mention) : Text :=
  nodeId ((firsts.map (·.key)).idxOf m.key)

theorem idAmong_append {ms : List Mention} {m : Mention} (h : m ∈ ms) (more : List Mention) :
    idAmong (firstMentions (ms ++ more)) m = idAmong (firstMentions ms) m := by
  obtain ⟨rest, hrest⟩ := firstMentions_prefix ms more
  rw [← hrest, idAmong, List.map_append, List.idxOf_append_of_mem (mem_keys_firstMentions h), idAmong]

structure Knows (r : Registry Mention.Key) (firsts : List Mention) : Prop where
  known : r.known = firsts.zipIdx.map fun p => (p.1.key, nodeId p.2)
  nodes : (r.document.nodes.map fun n => (n.id, n.label)) =
    firsts.zipIdx.map fun p => (nodeId p.2, p.1.label)

namespace Knows

variable {r : Registry Mention.Key} {firsts : List Mention} (h : Knows r firsts)

include h

theorem id?_eq (m : Mention) :
    r.id? m.key = if m.key ∈ firsts.map (·.key) then some (idAmong firsts m) else none := by
  rw [Registry.id?, h.known, List.find?_zipIdx_key, Nat.zero_add]
  rfl

theorem ids : r.document.nodes.map (·.id) = firsts.zipIdx.map fun p => nodeId p.2 := by
  have hids := congrArg (List.map Prod.fst) h.nodes
  rwa [List.map_map, List.map_map] at hids

theorem nextId_eq : r.nextId = nodeId firsts.length := by
  rw [Registry.nextId, h.known, List.length_map, List.length_zipIdx]

theorem nextId_new : r.nextId ∉ r.document.nodes.map (·.id) := by
  rw [h.ids, h.nextId_eq]
  intro hmem
  obtain ⟨p, hp, heq⟩ := List.mem_map.mp hmem
  have hlast := Registry.nodeId_injective heq
  have hbound := List.snd_lt_of_mem_zipIdx hp
  omega

theorem modifyNode (id : Text) (m : Mention) :
    Knows { r with document := r.document.modifyNode id m.complete } firsts :=
  ⟨h.known, (r.document.map_modifyNode id m.complete fun _ => rfl).trans h.nodes⟩

theorem addEdge (e : Edge) : Knows { r with document := r.document.addEdge e } firsts :=
  ⟨h.known, h.nodes⟩

omit h

theorem add {ms : List Mention} (h : Knows r (firstMentions ms)) (m : Mention) :
    Knows (r.add m.key m.toNode).1 (firstMentions (ms ++ [m])) ∧
      (r.add m.key m.toNode).2 = idAmong (firstMentions (ms ++ [m])) m := by
  rw [firstMentions_concat]
  by_cases hm : m.key ∈ (firstMentions ms).map (·.key)
  · have hid : r.id? m.key = some (idAmong (firstMentions ms) m) := by rw [h.id?_eq, if_pos hm]
    rw [if_pos hm, Registry.add, hid]
    exact ⟨h, rfl⟩
  · have hid : r.id? m.key = none := by rw [h.id?_eq, if_neg hm]
    have hnode : (m.toNode r.nextId).id ∉ r.document.nodes.map (·.id) := h.nextId_new
    rw [if_neg hm, Registry.add, hid]
    refine ⟨⟨?_, ?_⟩, ?_⟩
    · dsimp only
      rw [h.known, List.zipIdx_append, List.map_append, Nat.zero_add]
      exact congrArg (fun id => _ ++ [(m.key, id)]) h.nextId_eq
    · rw [Document.nodes_addNode_of_new hnode, List.map_append, h.nodes, List.zipIdx_append, List.map_append,
        Nat.zero_add]
      exact congrArg (fun id => _ ++ [(id, m.label)]) h.nextId_eq
    · have hplace : idAmong (firstMentions ms ++ [m]) m = nodeId (firstMentions ms).length := by
        rw [idAmong, List.map_append, List.idxOf_append_of_notMem hm, List.length_map]
        simp
      rw [hplace, ← h.nextId_eq]
      rfl

end Knows

namespace Grammar

variable (g : Grammar) {r : Registry Mention.Key} {ms : List Mention}

theorem knows_resolve (h : Knows r (firstMentions ms)) (t : NodeToken) :
    Knows (g.resolve r t).1 (firstMentions (ms ++ [g.mention t])) ∧
      (g.resolve r t).2 = idAmong (firstMentions (ms ++ [g.mention t])) (g.mention t) := by
  obtain ⟨hknows, hid⟩ := h.add (g.mention t)
  unfold resolve
  dsimp only
  split
  · exact ⟨hknows.modifyNode _ _, hid⟩
  · exact ⟨hknows, hid⟩

theorem document_resolve (r : Registry Mention.Key) (t : NodeToken) :
    (g.resolve r t).1.document = { r.document with nodes := (g.resolve r t).1.document.nodes } := by
  have hadd (m : Mention) : (r.add m.key m.toNode).1.document =
      { r.document with nodes := (r.add m.key m.toNode).1.document.nodes } := by
    unfold Registry.add Document.addNode
    split
    · rfl
    · dsimp only
      split
      · rfl
      · rfl
  unfold resolve
  dsimp only
  split
  · unfold Document.modifyNode
    rw [hadd]
  · exact hadd _

theorem edges_resolve (r : Registry Mention.Key) (t : NodeToken) :
    (g.resolve r t).1.document.edges = r.document.edges := by
  rw [document_resolve]

theorem knows_foldl_resolve (h : Knows r (firstMentions ms)) (ts : List NodeToken) :
    Knows (ts.foldl (fun r t => (g.resolve r t).1) r) (firstMentions (ms ++ ts.map g.mention)) ∧
      (ts.foldl (fun r t => (g.resolve r t).1) r).document.edges = r.document.edges := by
  induction ts generalizing r ms with
  | nil => exact ⟨by simpa using h, rfl⟩
  | cons t ts ih =>
    obtain ⟨hknows, hedges⟩ := ih (g.knows_resolve h t).1
    rw [List.append_assoc] at hknows
    exact ⟨hknows, hedges.trans (g.edges_resolve r t)⟩

def edgeAmong (firsts : List Mention) (l : Link) : Edge :=
  edge (idAmong firsts (g.mention l.tail)) (idAmong firsts (g.mention l.head)) (g.connect l.connector)

theorem edgeAmong_append {l : Link} (htail : g.mention l.tail ∈ ms) (hhead : g.mention l.head ∈ ms)
    (more : List Mention) : g.edgeAmong (firstMentions (ms ++ more)) l = g.edgeAmong (firstMentions ms) l := by
  rw [edgeAmong, idAmong_append htail, idAmong_append hhead, edgeAmong]

theorem knows_connectLink (h : Knows r (firstMentions ms)) {l : Link} (htail : g.mention l.tail ∈ ms)
    (hhead : g.mention l.head ∈ ms) :
    Knows (g.connectLink r l) (firstMentions ms) ∧
      (g.connectLink r l).document.edges = r.document.edges ++ [g.edgeAmong (firstMentions ms) l] := by
  have hsame {m : Mention} (hm : m ∈ ms) : firstMentions (ms ++ [m]) = firstMentions ms := by
    rw [firstMentions_concat, if_pos (mem_keys_firstMentions hm)]
  have ht := g.knows_resolve h l.tail
  rw [hsame htail] at ht
  have hh := g.knows_resolve ht.1 l.head
  rw [hsame hhead] at hh
  refine ⟨hh.1.addEdge _, ?_⟩
  have hedges : (g.resolve (g.resolve r l.tail).1 l.head).1.document.edges = r.document.edges := by
    rw [edges_resolve, edges_resolve]
  unfold connectLink Document.addEdge
  dsimp only
  rw [hedges, ht.2, hh.2, edgeAmong]

theorem knows_foldl_connectLink (h : Knows r (firstMentions ms)) (ls : List Link)
    (hls : ∀ l ∈ ls, g.mention l.tail ∈ ms ∧ g.mention l.head ∈ ms) :
    Knows (ls.foldl g.connectLink r) (firstMentions ms) ∧ (ls.foldl g.connectLink r).document.edges =
      r.document.edges ++ ls.map (g.edgeAmong (firstMentions ms)) := by
  induction ls generalizing r with
  | nil => exact ⟨h, by simp⟩
  | cons l ls ih =>
    obtain ⟨hends, hls⟩ := List.forall_mem_cons.mp hls
    obtain ⟨hknows, hedges⟩ := g.knows_connectLink h hends.1 hends.2
    obtain ⟨hall, hmore⟩ := ih hknows hls
    refine ⟨hall, ?_⟩
    rw [List.foldl_cons, hmore, hedges, List.append_assoc]
    rfl

def mentions (lines : List (List Token)) : List Mention :=
  (lines.flatMap nodes).map g.mention

theorem mention_ends_mem {lines : List (List Token)} {l : Link} (h : l ∈ lines.flatMap links) :
    g.mention l.tail ∈ g.mentions lines ∧ g.mention l.head ∈ g.mentions lines := by
  obtain ⟨ts, hts, hl⟩ := List.mem_flatMap.mp h
  have hmention {t : NodeToken} (ht : t ∈ nodes ts) : g.mention t ∈ g.mentions lines :=
    List.mem_map_of_mem (List.mem_flatMap.mpr ⟨ts, hts, ht⟩)
  exact ⟨hmention (mem_nodes_of_mem_links hl).1, hmention (mem_nodes_of_mem_links hl).2⟩

theorem mention_ends_of_links (ms : List Mention) (ts : List Token) :
    ∀ l ∈ links ts, g.mention l.tail ∈ ms ++ (nodes ts).map g.mention ∧
      g.mention l.head ∈ ms ++ (nodes ts).map g.mention := by
  intro l hl
  obtain ⟨htail, hhead⟩ := mem_nodes_of_mem_links hl
  exact ⟨List.mem_append_right _ (List.mem_map_of_mem htail), List.mem_append_right _ (List.mem_map_of_mem hhead)⟩

theorem knows_foldl_takeTokens (h : Knows r (firstMentions ms)) (lines : List (List Token)) :
    Knows (lines.foldl g.takeTokens r) (firstMentions (ms ++ g.mentions lines)) ∧
      (lines.foldl g.takeTokens r).document.edges = r.document.edges ++
        (lines.flatMap links).map (g.edgeAmong (firstMentions (ms ++ g.mentions lines))) := by
  induction lines generalizing r ms with
  | nil => exact ⟨by simpa [mentions] using h, by simp⟩
  | cons ts lines ih =>
    obtain ⟨hmet, hold⟩ := g.knows_foldl_resolve h (nodes ts)
    -- all nodes of a line are met before its links are made
    have hends := g.mention_ends_of_links ms ts
    obtain ⟨hline, hnew⟩ := g.knows_foldl_connectLink hmet (links ts) hends
    obtain ⟨hall, hmore⟩ := ih hline
    have hsplit : ms ++ g.mentions (ts :: lines) = ms ++ (nodes ts).map g.mention ++ g.mentions lines := by
      simp [mentions]
    -- what is met on later lines leaves the ids as they are
    have hstable : (links ts).map (g.edgeAmong (firstMentions (ms ++ g.mentions (ts :: lines)))) =
        (links ts).map (g.edgeAmong (firstMentions (ms ++ (nodes ts).map g.mention))) :=
      List.map_congr_left fun l hl => by rw [hsplit, g.edgeAmong_append (hends l hl).1 (hends l hl).2]
    refine ⟨hsplit ▸ hall, ?_⟩
    rw [List.flatMap_cons, List.map_append, hstable, hsplit, ← List.append_assoc, ← hold, ← hnew]
    exact hmore

theorem ofTokens_spec (direction : Direction) (lines : List (List Token)) :
    let firsts := firstMentions (g.mentions lines)
    let d := g.ofTokens direction lines
    (d.nodes.map fun n => (n.id, n.label)) = firsts.zipIdx.map (fun p => (nodeId p.2, p.1.label)) ∧
      d.edges = (lines.flatMap links).map (g.edgeAmong firsts) := by
  have hstart : Knows ⟨{ direction }, []⟩ (firstMentions []) := ⟨rfl, rfl⟩
  obtain ⟨hknows, hedges⟩ := g.knows_foldl_takeTokens hstart lines
  rw [List.nil_append] at hknows hedges
  exact ⟨hknows.nodes, hedges⟩

theorem ids_ofTokens (direction : Direction) (lines : List (List Token)) :
    (g.ofTokens direction lines).nodes.map (·.id) =
      (firstMentions (g.mentions lines)).zipIdx.map fun p => nodeId p.2 := by
  have hids := congrArg (List.map Prod.fst) (g.ofTokens_spec direction lines).1
  rwa [List.map_map, List.map_map] at hids

theorem ids_nodup (direction : Direction) (lines : List (List Token)) :
    ((g.ofTokens direction lines).nodes.map (·.id)).Nodup := by
  rw [ids_ofTokens]
  exact Registry.nodup_nodeIds _

theorem idAmong_mem_ids (direction : Direction) {lines : List (List Token)} {m : Mention} (hm : m ∈ g.mentions lines) :
    idAmong (firstMentions (g.mentions lines)) m ∈ (g.ofTokens direction lines).nodes.map (·.id) := by
  have hplace := List.idxOf_lt_length_iff.mpr (mem_keys_firstMentions hm)
  rw [List.length_map] at hplace
  rw [ids_ofTokens]
  exact List.mem_map.mpr ⟨_, List.mk_mem_zipIdx_iff_getElem?.mpr (List.getElem?_eq_getElem hplace), rfl⟩

theorem ends_mem_ids (direction : Direction) (lines : List (List Token)) :
    ∀ e ∈ (g.ofTokens direction lines).edges, e.tail ∈ (g.ofTokens direction lines).nodes.map (·.id) ∧
      e.head ∈ (g.ofTokens direction lines).nodes.map (·.id) := by
  intro e he
  rw [(g.ofTokens_spec direction lines).2] at he
  obtain ⟨l, hl, rfl⟩ := List.mem_map.mp he
  obtain ⟨htail, hhead⟩ := g.mention_ends_mem hl
  exact ⟨g.idAmong_mem_ids direction htail, g.idAmong_mem_ids direction hhead⟩

section Nodes

variable {P : Node → Prop}

theorem forall_nodes_resolve {t : NodeToken} (hnew : ∀ id, P ((g.mention t).toNode id))
    (hcomplete : ∀ n, P n → P ((g.mention t).complete n)) (h : ∀ n ∈ r.document.nodes, P n) :
    ∀ n ∈ (g.resolve r t).1.document.nodes, P n := by
  have hadd : ∀ n ∈ (r.add (g.mention t).key (g.mention t).toNode).1.document.nodes, P n := by
    unfold Registry.add Document.addNode
    split
    · exact h
    · dsimp only
      split
      · exact h
      · exact List.forall_mem_append.mpr ⟨h, List.forall_mem_singleton.mpr (hnew _)⟩
  have hmodify (id : Text) (ns : List Node) (hns : ∀ n ∈ ns, P n) :
      ∀ n ∈ Document.modifyNode.change id (g.mention t).complete ns, P n := by
    induction ns with
    | nil => exact hns
    | cons n ns ih =>
      obtain ⟨hn, hns⟩ := List.forall_mem_cons.mp hns
      rw [Document.modifyNode.change]
      split
      · exact List.forall_mem_cons.mpr ⟨hcomplete n hn, hns⟩
      · exact List.forall_mem_cons.mpr ⟨hn, ih hns⟩
  unfold resolve
  dsimp only
  split
  · exact hmodify _ _ hadd
  · exact hadd

theorem forall_nodes_ofTokens (direction : Direction) {lines : List (List Token)}
    (hnew : ∀ t ∈ lines.flatMap nodes, ∀ id, P ((g.mention t).toNode id))
    (hcomplete : ∀ t ∈ lines.flatMap nodes, ∀ n, P n → P ((g.mention t).complete n)) :
    ∀ n ∈ (g.ofTokens direction lines).nodes, P n := by
  have hresolve (r : Registry Mention.Key) (h : ∀ n ∈ r.document.nodes, P n) {ts : List Token} (hts : ts ∈ lines)
      {t : NodeToken} (ht : t ∈ nodes ts) : ∀ n ∈ (g.resolve r t).1.document.nodes, P n :=
    have hmem := List.mem_flatMap.mpr ⟨ts, hts, ht⟩
    g.forall_nodes_resolve (hnew t hmem) (hcomplete t hmem) h
  have hstart : ∀ n ∈ (⟨{ direction }, []⟩ : Registry Mention.Key).document.nodes, P n := fun _ hn => nomatch hn
  refine List.foldlRecOn (motive := fun r => ∀ n ∈ r.document.nodes, P n) lines g.takeTokens hstart
    fun r hr ts hts => ?_
  refine List.foldlRecOn (motive := fun r => ∀ n ∈ r.document.nodes, P n) (links ts) g.connectLink ?_
    fun r hr l hl => ?_
  · exact List.foldlRecOn (motive := fun r => ∀ n ∈ r.document.nodes, P n) (nodes ts) _ hr
      fun r hr t ht => hresolve r hr hts ht
  · obtain ⟨htail, hhead⟩ := mem_nodes_of_mem_links hl
    exact hresolve _ (hresolve r hr hts htail) hts hhead

end Nodes

theorem legal_fill_ofTokens {k : DiagramKind} {g : Grammar} (hk : ofKind? k = some g) (direction : Direction)
    (lines : List (List Token)) :
    ∀ n ∈ (g.ofTokens direction lines).nodes, ∀ c, n.fill = some c → Legal c := by
  refine g.forall_nodes_ofTokens direction (fun t _ _ => legal_fill hk t) fun t _ n hn c hc => ?_
  rcases Option.or_eq_some_iff.mp hc with hold | ⟨-, hgiven⟩
  · exact hn c hold
  · exact legal_fill hk t c hgiven

end Grammar

end Notation

end Yuml
