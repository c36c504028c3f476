import Mathlib.Data.List.Basic
import Yuml.Notation.Token

namespace Yuml.Notation

def consecutive {α : Type} (xs : List α) : List (α × α) :=
  xs.zip xs.tail

theorem ends_linksFrom (before : Option NodeToken) (connector : Option Text) (ts : List Token) :
    (linksFrom before connector ts).map (fun l => (l.tail, l.head)) =
      consecutive (before.toList ++ nodes ts) := by
  induction ts generalizing before connector with
  | nil => cases before <;> rfl
  | cons t ts ih =>
    cases t with
    | connector text =>
      rw [linksFrom, ih]
      rfl
    | node n =>
      cases before with
      | none =>
        rw [linksFrom, ih]
        rfl
      | some tail =>
        rw [linksFrom, List.map_cons, ih]
        rfl

theorem ends_links (ts : List Token) :
    (links ts).map (fun l => (l.tail, l.head)) = consecutive (nodes ts) :=
  ends_linksFrom none none ts

theorem ends_flatMap_links (lines : List (List Token)) :
    (lines.flatMap links).map (fun l => (l.tail, l.head)) = lines.flatMap fun ts => consecutive (nodes ts) := by
  rw [List.map_flatMap]
  exact List.flatMap_congr fun ts _ => ends_links ts

theorem mem_nodes_of_mem_links {ts : List Token} {l : Link} (h : l ∈ links ts) :
    l.tail ∈ nodes ts ∧ l.head ∈ nodes ts := by
  have hends : (l.tail, l.head) ∈ consecutive (nodes ts) := by
    rw [← ends_links]
    exact List.mem_map_of_mem h
  exact ⟨(List.of_mem_zip hends).1, List.mem_of_mem_tail (List.of_mem_zip hends).2⟩

end Yuml.Notation
