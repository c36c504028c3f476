import Mathlib.Data.List.Basic
import Yuml.Text.Basic

namespace Yuml.Text

variable {α : Type} {P : α → Prop} {write : α → Text}

/-- Whether the text of a value ends where it is known to end: texts of two values that can be continued to the same
text are texts of one value. -/
def SelfDelimiting (P : α → Prop) (write : α → Text) : Prop :=
  ∀ ⦃a b : α⦄, P a → P b → ∀ ⦃r s : Text⦄, write a ++ r = write b ++ s → a = b ∧ r = s

def Stops (P : α → Prop) (write : α → Text) (r : Text) : Prop :=
  ∀ a, P a → ∀ s, write a ++ s ≠ r

theorem stops_of_head {c d : Char} (h : ∀ a, P a → (write a).head? = some c) (hne : c ≠ d) (r : Text) :
    Stops P write (d :: r) := by
  intro a ha s heq
  obtain ⟨rest, hrest⟩ := List.head?_eq_some_iff.mp (h a ha)
  rw [hrest, List.cons_append] at heq
  exact hne (List.cons.inj heq).1

namespace SelfDelimiting

theorem prepend (h : SelfDelimiting P write) (before : Text) : SelfDelimiting P fun a => before ++ write a := by
  intro a b ha hb r s heq
  rw [List.append_assoc, List.append_assoc] at heq
  exact h ha hb (List.append_cancel_left heq)

theorem append (h : SelfDelimiting P write) (after : Text) : SelfDelimiting P fun a => write a ++ after := by
  intro a b ha hb r s heq
  rw [List.append_assoc, List.append_assoc] at heq
  obtain ⟨hab, hrest⟩ := h ha hb heq
  exact ⟨hab, List.append_cancel_left hrest⟩

theorem flatMap (h : SelfDelimiting P write) {as bs : List α} (has : ∀ a ∈ as, P a) (hbs : ∀ b ∈ bs, P b) {r s : Text}
    (hr : Stops P write r) (hs : Stops P write s) (heq : as.flatMap write ++ r = bs.flatMap write ++ s) :
    as = bs ∧ r = s := by
  induction as generalizing bs with
  | nil =>
    cases bs with
    | nil => exact ⟨rfl, heq⟩
    | cons b bs =>
      rw [List.flatMap_cons, List.append_assoc] at heq
      exact absurd heq.symm (hr b (hbs b List.mem_cons_self) _)
  | cons a as ih =>
    obtain ⟨ha, has⟩ := List.forall_mem_cons.mp has
    cases bs with
    | nil =>
      rw [List.flatMap_cons, List.append_assoc] at heq
      exact absurd heq (hs a ha _)
    | cons b bs =>
      obtain ⟨hb, hbs⟩ := List.forall_mem_cons.mp hbs
      rw [List.flatMap_cons, List.flatMap_cons, List.append_assoc, List.append_assoc] at heq
      obtain ⟨hab, heq⟩ := h ha hb heq
      obtain ⟨hrest, hend⟩ := ih has hbs heq
      exact ⟨hab ▸ hrest ▸ rfl, hend⟩

end SelfDelimiting

theorem selfDelimiting_until (mark : Char) : SelfDelimiting (mark ∉ ·) fun s : Text => s ++ [mark] := by
  have hchar : SelfDelimiting (· ≠ mark) fun c : Char => [c] := by
    rintro c d - - r s heq
    exact List.cons.inj heq
  have hstops (r : Text) : Stops (· ≠ mark) (fun c : Char => [c]) (mark :: r) := by
    intro c hc s heq
    exact hc (List.cons.inj heq).1
  intro s t hs ht r r' heq
  rw [List.append_assoc, List.append_assoc, ← List.flatMap_singleton' s, ← List.flatMap_singleton' t] at heq
  have hletters {s : Text} (hs : mark ∉ s) : ∀ c ∈ s, c ≠ mark := fun c hc hmark => hs (hmark ▸ hc)
  obtain ⟨hst, hrest⟩ := hchar.flatMap (hletters hs) (hletters ht) (hstops r) (hstops r') heq
  exact ⟨hst, (List.cons.inj hrest).2⟩

theorem joinWith_cons (sep t : Text) (ts : List Text) : joinWith sep (t :: ts) = t ++ ts.flatMap (sep ++ ·) := by
  induction ts generalizing t with
  | nil => simp [joinWith]
  | cons u us ih =>
    rw [joinWith, List.intercalate_cons_cons, List.flatMap_cons, List.append_assoc, List.append_assoc]
    exact congrArg (fun rest => t ++ (sep ++ rest)) (ih u)

theorem SelfDelimiting.joinWith (h : SelfDelimiting P write) {first mark : Char} (hfirst : first ≠ mark) (more : Text)
    (hmark : ∀ r, Stops P write (mark :: r)) :
    SelfDelimiting (fun as : List α => ∀ a ∈ as, P a) fun as => Text.joinWith (first :: more) (as.map write) ++ [mark] := by
  intro as bs has hbs r s heq
  dsimp only at heq
  rw [List.append_assoc, List.append_assoc, List.singleton_append, List.singleton_append] at heq
  cases as with
  | nil =>
    cases bs with
    | nil => exact ⟨rfl, (List.cons.inj heq).2⟩
    | cons b bs =>
      rw [List.map_cons, joinWith_cons, List.append_assoc] at heq
      exact absurd heq.symm (hmark r b (hbs b List.mem_cons_self) _)
  | cons a as =>
    cases bs with
    | nil =>
      rw [List.map_cons, joinWith_cons, List.append_assoc] at heq
      exact absurd heq (hmark s a (has a List.mem_cons_self) _)
    | cons b bs =>
      obtain ⟨ha, has⟩ := List.forall_mem_cons.mp has
      obtain ⟨hb, hbs⟩ := List.forall_mem_cons.mp hbs
      have hstops (r : Text) : Stops P (fun a => (first :: more) ++ write a) (mark :: r) :=
        stops_of_head (fun _ _ => rfl) hfirst r
      rw [List.map_cons, List.map_cons, joinWith_cons, joinWith_cons, List.append_assoc, List.append_assoc,
        List.flatMap_map, List.flatMap_map] at heq
      obtain ⟨hab, heq⟩ := h ha hb heq
      obtain ⟨htail, hend⟩ := (h.prepend (first :: more)).flatMap has hbs (hstops r) (hstops s) heq
      exact ⟨hab ▸ htail ▸ rfl, (List.cons.inj hend).2⟩

end Yuml.Text
