import Mathlib.Data.List.Chain
import Mathlib.Data.List.Nodup
import Mathlib.Order.Bounds.Basic
import Yuml.Proofs.Graph.Basic

namespace Yuml.Digraph

variable {V : Type} {g : Digraph V} {u v w : V} {vs : List V}

structure IsPath (g : Digraph V) (u v : V) (vs : List V) : Prop where
  head : vs.head? = some u
  last : vs.getLast? = some v
  mem : ∀ w ∈ vs, w ∈ g.nodes
  nodup : vs.Nodup
  linked : vs.IsChain fun u v => (u, v) ∈ g.edges

def IsDepth (g : Digraph V) (v : V) (n : Nat) : Prop :=
  IsGreatest {k | ∃ u vs, g.IsPath u v vs ∧ vs.length = k + 1} n

theorem Acyclic.nodup_of_linked (hg : g.Acyclic) (h : vs.IsChain fun u v => (u, v) ∈ g.edges) : vs.Nodup := by
  have hleads : vs.IsChain g.Leads := h.imp fun _ _ => .single
  have : IsTrans V g.Leads := ⟨fun _ _ _ => Relation.TransGen.trans⟩
  refine hleads.pairwise.imp ?_
  rintro v _ hv rfl
  exact hg v hv

namespace IsPath

theorem single (h : v ∈ g.nodes) : g.IsPath v v [v] where
  head := rfl
  last := rfl
  mem _ hw := List.mem_singleton.mp hw ▸ h
  nodup := List.nodup_singleton v
  linked := List.isChain_singleton v

theorem concat (hg : g.Acyclic) (h : g.IsPath u v vs) (he : (v, w) ∈ g.edges) : g.IsPath u w (vs ++ [w]) := by
  have hlinked : (vs ++ [w]).IsChain fun u v => (u, v) ∈ g.edges := by
    refine List.isChain_append.mpr ⟨h.linked, List.isChain_singleton w, fun x hx y hy => ?_⟩
    obtain rfl := Option.some.inj (h.last.symm.trans hx)
    obtain rfl := Option.some.inj hy
    exact he
  refine ⟨?_, List.getLast?_concat, fun x hx => ?_, hg.nodup_of_linked hlinked, hlinked⟩
  · rw [List.head?_append, h.head, Option.some_or]
  · rcases List.mem_append.mp hx with hx | hx
    · exact h.mem x hx
    · exact List.mem_singleton.mp hx ▸ g.snd_mem he

theorem exists_edge (h : g.IsPath u v vs) {k : Nat} (hk : vs.length = k + 2) :
    ∃ x ws, g.IsPath u x ws ∧ (x, v) ∈ g.edges ∧ ws.length = k + 1 := by
  obtain ⟨ws, rfl⟩ := List.getLast?_eq_some_iff.mp h.last
  have hlength : ws.length = k + 1 := by simpa using hk
  have hne : ws ≠ [] := List.ne_nil_of_length_pos (by omega)
  obtain ⟨hlinked, -, hjoin⟩ := List.isChain_append.mp h.linked
  have hlast := List.getLast?_eq_some_getLast hne
  refine ⟨ws.getLast hne, ws, ⟨?_, hlast, fun x hx => h.mem x (List.mem_append_left _ hx), ?_, hlinked⟩, ?_, hlength⟩
  · have hhead := h.head
    rwa [List.head?_append_of_ne_nil _ hne] at hhead
  · exact (List.nodup_append.mp h.nodup).1
  · exact hjoin _ hlast _ rfl

end IsPath

end Yuml.Digraph
