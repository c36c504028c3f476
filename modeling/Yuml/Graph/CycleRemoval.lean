import Yuml.Graph.Digraph

namespace Yuml

def greater {α : Type} (key : α → Int) (x y : α) : α :=
  if key x < key y then y else x

def firstGreatest? {α : Type} (key : α → Int) : List α → Option α
  | [] => none
  | x :: xs => some (xs.foldl (greater key) x)

theorem foldl_greater_mem {α : Type} (key : α → Int) (xs : List α) (x : α) :
    xs.foldl (greater key) x ∈ x :: xs := by
  induction xs generalizing x with
  | nil => simp
  | cons y ys ih =>
    have h := ih (greater key x y)
    simp only [List.foldl_cons, List.mem_cons] at h ⊢
    rcases h with h | h
    · rw [h]
      unfold greater
      split <;> simp
    · exact .inr (.inr h)

theorem firstGreatest?_mem {α : Type} {key : α → Int} {xs : List α} {x : α}
    (h : firstGreatest? key xs = some x) : x ∈ xs := by
  cases xs with
  | nil => simp [firstGreatest?] at h
  | cons y ys =>
    simp only [firstGreatest?, Option.some.injEq] at h
    exact h ▸ foldl_greater_mem key ys y

namespace Digraph

variable {V : Type} [DecidableEq V]

structure Tally (V : Type) where
  node : V
  outs : Int
  ins : Int

def drop (g : Digraph V) (tallies : List (Tally V)) (v : V) : List (Tally V) :=
  (tallies.filter (·.node ≠ v)).map fun t =>
    { t with
      outs := if t.node ∈ g.predecessors v then t.outs - 1 else t.outs
      ins := if t.node ∈ g.successors v then t.ins - 1 else t.ins }

theorem length_drop_le (g : Digraph V) (tallies : List (Tally V)) (v : V) :
    (g.drop tallies v).length ≤ tallies.length := by
  simp only [drop, List.length_map]
  exact List.length_filter_le _ _

theorem length_drop_lt {g : Digraph V} {tallies : List (Tally V)} {t : Tally V} (h : t ∈ tallies) :
    (g.drop tallies t.node).length < tallies.length := by
  simp only [drop, List.length_map]
  exact List.length_filter_lt_length_iff_exists.mpr ⟨t, h, by simp⟩

theorem length_foldl_drop_le (g : Digraph V) (vs : List V) (tallies : List (Tally V)) :
    (vs.foldl g.drop tallies).length ≤ tallies.length := by
  induction vs generalizing tallies with
  | nil => exact Nat.le_refl _
  | cons v vs ih => exact Nat.le_trans (ih _) (length_drop_le g tallies v)

def nodesWith (p : Tally V → Bool) (tallies : List (Tally V)) : List V :=
  (tallies.filter p).map (·.node)

theorem length_foldl_drop_lt {g : Digraph V} {p : Tally V → Bool} {tallies : List (Tally V)}
    (h : nodesWith p tallies ≠ []) :
    ((nodesWith p tallies).foldl g.drop tallies).length < tallies.length := by
  unfold nodesWith at h ⊢
  cases hp : tallies.filter p with
  | nil => simp [hp] at h
  | cons t ts =>
    have ht : t ∈ tallies := (List.mem_filter.mp (hp ▸ List.mem_cons_self)).1
    rw [List.map_cons, List.foldl_cons]
    exact Nat.lt_of_le_of_lt (length_foldl_drop_le g _ _) (length_drop_lt ht)

/-- Orders the active nodes so that few edges point backwards. Nodes without a way out go last and
nodes without a way in go first, all there are at a time; if every node has both, the first of
those with the greatest surplus of ways out goes first. -/
def greedyOrderOf (g : Digraph V) (tallies : List (Tally V)) : List V :=
  if h₁ : nodesWith (·.outs = 0) tallies ≠ [] then
    have := length_foldl_drop_lt (g := g) h₁
    greedyOrderOf g ((nodesWith (·.outs = 0) tallies).foldl g.drop tallies) ++
      (nodesWith (·.outs = 0) tallies).reverse
  else if h₂ : nodesWith (·.ins = 0) tallies ≠ [] then
    have := length_foldl_drop_lt (g := g) h₂
    nodesWith (·.ins = 0) tallies ++
      greedyOrderOf g ((nodesWith (·.ins = 0) tallies).foldl g.drop tallies)
  else
    match h : firstGreatest? (fun t => t.outs - t.ins) tallies with
    | none => []
    | some best =>
      have := length_drop_lt (g := g) (firstGreatest?_mem h)
      best.node :: greedyOrderOf g (g.drop tallies best.node)
termination_by tallies.length

def greedyOrder (g : Digraph V) : List V :=
  g.greedyOrderOf
    (g.nodes.map fun v => ⟨v, (g.successors v).length, (g.predecessors v).length⟩)

structure Unwound (V : Type) where
  dag : Digraph V
  turned : List (V × V)

def Unwound.take (order : List V) (w : Unwound V) (e : V × V) : Unwound V :=
  if e.1 = e.2 then w
  else if order.idxOf e.2 < order.idxOf e.1 then
    ⟨w.dag.addEdge e.2 e.1, w.turned ++ [e]⟩
  else { w with dag := w.dag.addEdge e.1 e.2 }

def removeCycles (g : Digraph V) : Unwound V :=
  g.edgesByTail.foldl (Unwound.take g.greedyOrder) ⟨ofLists g.nodes [], []⟩

end Digraph

end Yuml
