import Mathlib.Logic.Relation
import Yuml.Graph.Digraph
import Yuml.Proofs.Mentions

namespace Yuml.Digraph

variable {V : Type} [DecidableEq V] {g : Digraph V} {u v w : V}

omit [DecidableEq V] in
theorem eq_of_lists {g' : Digraph V} (hnodes : g.nodes = g'.nodes) (hedges : g.edges = g'.edges) : g = g' := by
  cases g
  cases g'
  cases hnodes
  cases hedges
  rfl

omit [DecidableEq V] in
theorem fst_mem {e : V × V} (h : e ∈ g.edges) : e.1 ∈ g.nodes :=
  (g.ends_mem e h).1

omit [DecidableEq V] in
theorem snd_mem {e : V × V} (h : e ∈ g.edges) : e.2 ∈ g.nodes :=
  (g.ends_mem e h).2

theorem mem_successors : w ∈ g.successors v ↔ (v, w) ∈ g.edges := by
  simp [successors]

theorem mem_predecessors : u ∈ g.predecessors v ↔ (u, v) ∈ g.edges := by
  simp [predecessors]

theorem mem_edgesByTail {e : V × V} : e ∈ g.edgesByTail ↔ e ∈ g.edges := by
  obtain ⟨a, b⟩ := e
  simp only [edgesByTail, List.mem_flatMap, List.mem_map, mem_successors, Prod.mk.injEq]
  constructor
  · rintro ⟨_, -, _, h, rfl, rfl⟩
    exact h
  · exact fun h => ⟨a, fst_mem h, b, h, rfl, rfl⟩

theorem nodes_addNode : (g.addNode v).nodes = if v ∈ g.nodes then g.nodes else g.nodes ++ [v] := by
  by_cases h : v ∈ g.nodes <;> simp [addNode, h]

theorem nodes_addEdge : (g.addEdge u v).nodes = ((g.addNode u).addNode v).nodes := by
  simp only [addEdge]
  split <;> rfl

theorem edges_addEdge (g : Digraph V) (u v : V) :
    (g.addEdge u v).edges = if (u, v) ∈ g.edges then g.edges else g.edges ++ [(u, v)] := by
  by_cases h : (u, v) ∈ g.edges <;> simp [addEdge, h]

theorem nodes_addEdge_of_mem (hu : u ∈ g.nodes) (hv : v ∈ g.nodes) :
    (g.addEdge u v).nodes = g.nodes := by
  have hgu : (g.addNode u).nodes = g.nodes := by rw [nodes_addNode, if_pos hu]
  rw [nodes_addEdge, nodes_addNode, hgu, if_pos hv]

variable [b : BEq V] [LawfulBEq V] in
theorem nodes_foldl_addNode {seen : List V} (h : g.nodes = seen.eraseDups) (vs : List V) :
    (vs.foldl addNode g).nodes = (seen ++ vs).eraseDups := by
  obtain rfl : b = instBEqOfDecidableEq := lawful_beq_subsingleton b instBEqOfDecidableEq
  have hadd (g : Digraph V) (v : V) : (g.addNode v).nodes = if id v ∈ g.nodes then g.nodes else g.nodes ++ [id v] :=
    nodes_addNode
  rw [List.foldl_eq_eraseDups hadd h vs, List.map_id]

variable [b : BEq V] [LawfulBEq V] in
theorem nodes_foldl_addEdge {seen : List V} (h : g.nodes = seen.eraseDups) (es : List (V × V)) :
    (es.foldl (fun g e => g.addEdge e.1 e.2) g).nodes = (seen ++ es.flatMap fun e => [e.1, e.2]).eraseDups := by
  induction es generalizing g seen with
  | nil => rw [List.flatMap_nil, List.append_nil, List.foldl_nil, h]
  | cons e es ih =>
    have hends : (g.addEdge e.1 e.2).nodes = (seen ++ [e.1, e.2]).eraseDups := by
      rw [nodes_addEdge]
      exact nodes_foldl_addNode h [e.1, e.2]
    rw [List.foldl_cons, ih hends, List.flatMap_cons, List.append_assoc]

variable [b : BEq V] [LawfulBEq V] in
theorem nodes_ofLists_eq (vs : List V) (es : List (V × V)) :
    (ofLists vs es).nodes = (vs ++ es.flatMap fun e => [e.1, e.2]).eraseDups := by
  have hstart : (empty : Digraph V).nodes = [].eraseDups := rfl
  exact nodes_foldl_addEdge (nodes_foldl_addNode hstart vs) es

variable [b : BEq V] [LawfulBEq V] in
theorem edges_ofLists_eq (vs : List V) (es : List (V × V)) : (ofLists vs es).edges = es.eraseDups := by
  obtain rfl : b = instBEqOfDecidableEq := lawful_beq_subsingleton b instBEqOfDecidableEq
  have hadd (g : Digraph V) (e : V × V) :
      (g.addEdge e.1 e.2).edges = if id e ∈ g.edges then g.edges else g.edges ++ [id e] :=
    g.edges_addEdge e.1 e.2
  have hstart : (vs.foldl addNode empty).edges = ([] : List (V × V)).eraseDups := edges_foldl_addNode vs empty
  rw [ofLists, List.foldl_eq_eraseDups hadd hstart es, List.map_id, List.nil_append]

theorem ofLists_again {es ds : List (V × V)} (h : ds ⊆ es) (vs : List V) (fs : List (V × V)) :
    ofLists vs (es ++ ds ++ fs) = ofLists vs (es ++ fs) := by
  have hends : (ds.flatMap fun e => [e.1, e.2]) ⊆ vs ++ es.flatMap fun e => [e.1, e.2] := by
    intro v hv
    obtain ⟨e, he, hv⟩ := List.mem_flatMap.mp hv
    exact List.mem_append_right _ (List.mem_flatMap.mpr ⟨e, h he, hv⟩)
  apply eq_of_lists
  · rw [nodes_ofLists_eq, nodes_ofLists_eq, List.flatMap_append, List.flatMap_append, List.flatMap_append,
      ← List.append_assoc, ← List.append_assoc, List.eraseDups_append_again hends, List.append_assoc]
  · rw [edges_ofLists_eq, edges_ofLists_eq, List.eraseDups_append_again h]

theorem nodes_ofLists {vs : List V} {es : List (V × V)} (hvs : vs.Nodup)
    (hes : ∀ e ∈ es, e.1 ∈ vs ∧ e.2 ∈ vs) : (ofLists vs es).nodes = vs := by
  have hends : (es.flatMap fun e => [e.1, e.2]) ⊆ vs := by
    intro v hv
    obtain ⟨e, he, hv⟩ := List.mem_flatMap.mp hv
    rcases List.mem_pair.mp hv with rfl | rfl
    · exact (hes e he).1
    · exact (hes e he).2
  have hagain := List.eraseDups_append_again hends []
  rw [List.append_nil, List.append_nil] at hagain
  rw [nodes_ofLists_eq, hagain, hvs.eraseDups_eq]

theorem edges_ofLists {es : List (V × V)} (h : es.Nodup) (vs : List V) : (ofLists vs es).edges = es := by
  rw [edges_ofLists_eq, h.eraseDups_eq]

theorem nodes_ofLists_nil {vs : List V} (h : vs.Nodup) : (ofLists vs []).nodes = vs :=
  nodes_ofLists h fun _ he => nomatch he

theorem edges_ofLists_nil (vs : List V) : (ofLists vs []).edges = [] :=
  edges_ofLists List.nodup_nil vs

omit [DecidableEq V] in
def Leads (g : Digraph V) : V → V → Prop :=
  Relation.TransGen fun u v => (u, v) ∈ g.edges

def Acyclic (g : Digraph V) : Prop :=
  ∀ v, ¬ g.Leads v v

omit [DecidableEq V] in
theorem acyclic_of_lt {f : V → Nat} (h : ∀ e ∈ g.edges, f e.1 < f e.2) : g.Acyclic := by
  have hlt {u v : V} (huv : g.Leads u v) : f u < f v := by
    induction huv with
    | single h₁ => exact h _ h₁
    | tail _ h₁ ih => exact Nat.lt_trans ih (h _ h₁)
  exact fun v hv => Nat.lt_irrefl _ (hlt hv)

end Yuml.Digraph
