import Yuml.Graph.Digraph

namespace Yuml

theorem length_filter_not_lt {α : Type} {p : α → Bool} {xs : List α} (h : xs.filter p ≠ []) :
    (xs.filter fun x => !p x).length < xs.length := by
  obtain ⟨x, hx⟩ := List.exists_mem_of_ne_nil _ h
  refine List.length_filter_lt_length_iff_exists.mpr ⟨x, (List.mem_filter.mp hx).1, ?_⟩
  simp [(List.mem_filter.mp hx).2]

namespace Digraph

variable {V : Type} [DecidableEq V]

def isSource (g : Digraph V) (among : List V) (v : V) : Bool :=
  !(g.predecessors v).any among.contains

def sources (g : Digraph V) (among : List V) : List V :=
  among.filter (g.isSource among)

def nonSources (g : Digraph V) (among : List V) : List V :=
  among.filter fun v => !g.isSource among v

theorem length_nonSources_lt {g : Digraph V} {among : List V} (h : g.sources among ≠ []) :
    (g.nonSources among).length < among.length :=
  length_filter_not_lt h

def generationsOf? (g : Digraph V) (remaining : List V) : Option (List (List V)) :=
  if remaining = [] then some []
  else if h : g.sources remaining = [] then none
  else
    have := length_nonSources_lt h
    (generationsOf? g (g.nonSources remaining)).map (g.sources remaining :: ·)
termination_by remaining.length

def generations? (g : Digraph V) : Option (List (List V)) :=
  g.generationsOf? g.nodes

def isAcyclic (g : Digraph V) : Bool :=
  g.generations?.isSome

end Digraph

end Yuml
