import Yuml.Proofs.Xml.Names
import Yuml.Proofs.Xml.Reader
namespace Yuml.Xml

namespace Expansion

variable {α β : Type} {P : α → Prop} {Q : β → Prop}

def Gives (P : α → Prop) (x : Expansion α) : Prop :=
  ∀ left a left', x.run left = some (a, left') → P a

namespace Gives

theorem pure {a : α} (h : P a) : Gives P (Pure.pure a : Expansion α) := by
  rintro left _ _ ⟨⟩
  exact h

theorem failure : Gives P (Alternative.failure : Expansion α) := by
  rintro left _ _ ⟨⟩

theorem bind {x : Expansion α} {f : α → Expansion β} (hx : Gives P x) (hf : ∀ a, P a → Gives Q (f a)) :
    Gives Q (x >>= f) := by
  intro left b left' h
  obtain ⟨⟨a, middle⟩, ha, hb⟩ := Option.bind_eq_some_iff.mp h
  exact hf a (hx left a middle ha) middle b left' hb

theorem step {x : Expansion α} {f : α → Expansion β} (hf : ∀ a, Gives Q (f a)) : Gives Q (x >>= f) := by
  intro left b left' h
  obtain ⟨⟨a, middle⟩, -, hb⟩ := Option.bind_eq_some_iff.mp h
  exact hf a middle b left' hb

theorem lift {x : Option α} (h : ∀ a, x = some a → P a) : Gives P (liftM x : Expansion α) := by
  intro left a left' hrun
  cases x with
  | none => cases hrun
  | some b =>
    cases hrun
    exact h _ rfl

theorem mapM {f : α → Expansion β} {xs : List α} (hf : ∀ x ∈ xs, Gives Q (f x)) :
    Gives (fun ys => ∀ y ∈ ys, Q y) (xs.mapM f) := by
  induction xs with
  | nil => exact pure (List.forall_mem_nil Q)
  | cons x xs ih =>
    obtain ⟨hx, hxs⟩ := List.forall_mem_cons.mp hf
    rw [List.mapM_cons]
    exact bind hx fun y hy => bind (ih hxs) fun ys hys => pure (List.forall_mem_cons.mpr ⟨hy, hys⟩)

theorem foldlM {f : β → α → Expansion β} {xs : List α} (hf : ∀ b, Q b → ∀ x ∈ xs, Gives Q (f b x)) {b : β} (hb : Q b) :
    Gives Q (xs.foldlM f b) := by
  induction xs generalizing b with
  | nil => exact pure hb
  | cons x xs ih =>
    rw [List.foldlM_cons]
    exact bind (hf b hb x List.mem_cons_self) fun c hc => ih (fun d hd y hy => hf d hd y (List.mem_cons_of_mem _ hy)) hc

end Gives

end Expansion

open Expansion

namespace Doctype

def Named (d : Doctype) : Prop :=
  ∀ r ∈ d.rules, IsNameRead r.name

theorem addEntity_named {d : Doctype} (h : d.Named) (name : Text) (text : Option Text) : (d.addEntity name text).Named := by
  unfold addEntity
  split
  · exact h
  · exact h

theorem addRule_named {d : Doctype} (h : d.Named) {r : AttributeRule} (hr : IsNameRead r.name) : (d.addRule r).Named := by
  unfold addRule
  split
  · exact h
  · exact List.forall_mem_append.mpr ⟨h, List.forall_mem_singleton.mpr hr⟩

theorem settle_named (d : Doctype) {r : AttributeRule} (h : IsNameRead r.name) :
    Gives (fun r => IsNameRead r.name) (d.settle r) := by
  unfold settle
  split
  · exact .pure h
  · exact .step fun _ => .step fun _ => .pure h

theorem declare_named {d : Doctype} (h : d.Named) {declaration : Declaration} (hd : declaration.Named) :
    Gives Named (d.declare declaration) := by
  unfold declare
  split
  · exact .pure h
  · cases declaration with
    | entity name value =>
      refine .step fun _ => .pure ?_
      split
      · exact h
      · exact addEntity_named h _ _
    | parameter name value => exact .step fun _ => .pure h
    | attributes rules =>
      refine .foldlM (fun d h r hr => ?_) h
      exact .bind (settle_named d (hd r hr)) fun _ hr => .pure (addRule_named h hr)
    | other => exact .pure h

theorem subset_named {fuel : Nat} {d : Doctype} (h : d.Named) (s : Text) :
    Gives (fun r => r.1.Named) (d.subset fuel s) := by
  induction fuel generalizing d s with
  | zero => exact .failure
  | succ fuel ih =>
    rw [subset]
    split
    · exact .pure h
    · exact .step fun _ => .step fun _ => ih (d := { d with isInterrupted := true }) h _
    · exact .step fun _ => ih h _
    · exact .step fun _ => ih h _
    · refine .bind (.lift fun r hr => takeDeclaration?_named (r := r.2) hr) fun r hr => ?_
      exact .bind (declare_named h hr) fun d hd => ih hd _
    · exact .failure

theorem take_named {d : Doctype} (h : d.Named) (s : Text) : Gives (fun r => r.1.Named) (d.take s) := by
  unfold take
  split
  · exact .pure h
  · refine .step fun _ => .step fun _ => ?_
    dsimp only
    split
    · next x xs _ =>
      let d' : Doctype := { d with hasExternal := !xs.isEmpty }
      have hd' : d'.Named := h
      refine .step fun _ => .step fun _ => ?_
      split
      · exact .bind (P := fun r => r.1.Named) (subset_named hd' _) fun _ hd => .step fun _ => .pure hd
      · exact .bind (P := fun r => r.1.Named) (.pure hd') fun _ hd => .step fun _ => .pure hd
    · exact .failure

theorem defaults_named {d : Doctype} (h : d.Named) (element : Text) : ∀ p ∈ d.defaults element, IsNameRead p.1 := by
  intro p hp
  obtain ⟨r, hr, hp⟩ := List.mem_filterMap.mp hp
  obtain ⟨value, -, rfl⟩ := Option.map_eq_some_iff.mp hp
  exact h r (List.mem_of_mem_filter hr)

theorem attributes_named {d : Doctype} (h : d.Named) (depth : Nat) (opened : List Text) (element : Text)
    {given : List (Text × List Piece)} (hgiven : ∀ p ∈ given, IsNameRead p.1) :
    Gives (fun a => ∀ p ∈ a, IsNameRead p.1) (d.attributes depth opened element given) := by
  unfold attributes
  refine .bind (P := fun known => ∀ p ∈ known, IsNameRead p.1) (.mapM fun p hp => ?_) fun known hknown => .pure ?_
  · exact .step fun _ => .pure (hgiven p hp)
  · exact List.forall_mem_append.mpr ⟨hknown, fun p hp => defaults_named h element p (List.mem_of_mem_filter hp)⟩

theorem cons_named {e : Event Text} {es : List (Event Text)} (he : e.Named) (hes : ∀ e ∈ es, e.Named) :
    ∀ f ∈ Event.cons e es, f.Named := by
  fun_cases Event.cons e es with
  | case1 s t es => exact List.forall_mem_cons.mpr ⟨trivial, (List.forall_mem_cons.mp hes).2⟩
  | case2 => exact hes
  | case3 => exact List.forall_mem_cons.mpr ⟨he, hes⟩

theorem content_named {d : Doctype} (hd : d.Named) (depth : Nat) (opened : List Text) {events : RawEvents}
    (h : ∀ e ∈ events, e.Named) : Gives (fun es => ∀ e ∈ es, e.Named) (d.content depth opened events) := by
  induction depth generalizing opened events with
  | zero => exact .failure
  | succ depth ih =>
    rw [content]
    refine .bind (P := fun ess => ∀ es ∈ ess, ∀ e ∈ es, e.Named) (.mapM fun e he => ?_) fun ess hess => .pure ?_
    · cases e with
      | opening name given =>
        obtain ⟨hname, hgiven⟩ := h _ he
        refine .bind (attributes_named hd _ _ _ hgiven) fun a ha => .pure ?_
        exact List.forall_mem_singleton.mpr ⟨hname, ha⟩
      | closing name => exact .pure (List.forall_mem_singleton.mpr trivial)
      | text pieces =>
        refine .bind (P := fun ess => ∀ es ∈ ess, ∀ e ∈ es, e.Named) (.mapM fun p _ => ?_) fun ess hess => .pure ?_
        · cases p with
          | plain c | numbered c => exact .pure (List.forall_mem_singleton.mpr trivial)
          | named name =>
            dsimp only
            split
            · exact .pure (List.forall_mem_singleton.mpr trivial)
            · exact .step fun _ => .bind (.lift fun _ hes => contentOf?_named hes) fun _ hes => ih _ hes
        · exact List.forall_mem_flatten.mpr hess
    · exact List.foldrRecOn (motive := fun es => ∀ e ∈ es, e.Named) ess.flatten Event.cons (List.forall_mem_nil Event.Named)
        fun es hes e he => cons_named (List.forall_mem_flatten.mpr hess e he) hes

end Doctype

end Yuml.Xml
