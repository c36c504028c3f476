namespace Yuml

/-- A finite directed graph. Nodes and edges stand in the order of their first mention, each once. -/
structure Digraph (V : Type) where
  nodes : List V
  edges : List (V × V)
  nodes_nodup : nodes.Nodup
  edges_nodup : edges.Nodup
  ends_mem : ∀ e ∈ edges, e.1 ∈ nodes ∧ e.2 ∈ nodes

namespace Digraph

variable {V : Type}

def empty : Digraph V :=
  ⟨[], [], List.nodup_nil, List.nodup_nil, by simp⟩

variable [DecidableEq V]

def addNode (g : Digraph V) (v : V) : Digraph V :=
  if h : v ∈ g.nodes then g
  else
    { g with
      nodes := g.nodes ++ [v]
      nodes_nodup := by
        refine List.nodup_append.mpr ⟨g.nodes_nodup, by simp, ?_⟩
        intro a ha b hb hab
        simp only [List.mem_singleton] at hb
        exact h (hb ▸ hab ▸ ha)
      ends_mem := fun e he =>
        ⟨List.mem_append_left _ (g.ends_mem e he).1, List.mem_append_left _ (g.ends_mem e he).2⟩ }

theorem mem_addNode {g : Digraph V} {u v : V} : u ∈ (g.addNode v).nodes ↔ u ∈ g.nodes ∨ u = v := by
  unfold addNode
  split
  next h => exact ⟨Or.inl, fun k => k.elim id (· ▸ h)⟩
  next => simp

@[simp] theorem edges_addNode (g : Digraph V) (v : V) : (g.addNode v).edges = g.edges := by
  unfold addNode
  split <;> rfl

def addEdge (g : Digraph V) (u v : V) : Digraph V :=
  let g' := (g.addNode u).addNode v
  if h : (u, v) ∈ g'.edges then g'
  else
    { g' with
      edges := g'.edges ++ [(u, v)]
      edges_nodup := by
        refine List.nodup_append.mpr ⟨g'.edges_nodup, by simp, ?_⟩
        intro a ha b hb hab
        simp only [List.mem_singleton] at hb
        exact h (hb ▸ hab ▸ ha)
      ends_mem := by
        intro e he
        rcases List.mem_append.mp he with he | he
        · exact g'.ends_mem e he
        · simp only [List.mem_singleton] at he
          subst he
          exact ⟨mem_addNode.mpr (.inl (mem_addNode.mpr (.inr rfl))), mem_addNode.mpr (.inr rfl)⟩ }

theorem mem_edges_addEdge {g : Digraph V} {u v : V} {e : V × V} :
    e ∈ (g.addEdge u v).edges ↔ e ∈ g.edges ∨ e = (u, v) := by
  simp only [addEdge]
  split
  next h =>
    simp only [edges_addNode] at h ⊢
    exact ⟨Or.inl, fun k => k.elim id (· ▸ h)⟩
  next => simp

def ofLists (nodes : List V) (edges : List (V × V)) : Digraph V :=
  edges.foldl (fun g e => g.addEdge e.1 e.2) (nodes.foldl addNode empty)

theorem edges_foldl_addNode (nodes : List V) (g : Digraph V) :
    (nodes.foldl addNode g).edges = g.edges := by
  induction nodes generalizing g with
  | nil => rfl
  | cons v vs ih => rw [List.foldl_cons, ih, edges_addNode]

theorem mem_edges_foldl_addEdge {edges : List (V × V)} {g : Digraph V} {e : V × V} :
    e ∈ (edges.foldl (fun g e => g.addEdge e.1 e.2) g).edges ↔ e ∈ g.edges ∨ e ∈ edges := by
  induction edges generalizing g with
  | nil => simp
  | cons d ds ih => rw [List.foldl_cons, ih, mem_edges_addEdge, List.mem_cons, or_assoc]

theorem mem_edges_ofLists {nodes : List V} {edges : List (V × V)} {e : V × V} :
    e ∈ (ofLists nodes edges).edges ↔ e ∈ edges := by
  rw [ofLists, mem_edges_foldl_addEdge, edges_foldl_addNode]
  simp [empty]

def successors (g : Digraph V) (v : V) : List V :=
  (g.edges.filter (·.1 = v)).map (·.2)

def predecessors (g : Digraph V) (v : V) : List V :=
  (g.edges.filter (·.2 = v)).map (·.1)

def edgesByTail (g : Digraph V) : List (V × V) :=
  g.nodes.flatMap fun v => (g.successors v).map (v, ·)

end Digraph

end Yuml
