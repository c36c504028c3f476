import Yuml.Icon.Inlining
import Yuml.Proofs.Xml.Elements

namespace Yuml.IconLibrary

open Xml

structure Composes (Q : {α : Type} → Reporting α → Prop) : Prop where
  ok : ∀ {α : Type} (a : α), Q (pure a : Reporting α)
  reported : ∀ warnings, Q (report warnings)
  bind : ∀ {α β : Type} {x : Reporting α} {f : α → Reporting β}, Q x → (∀ a, Q (f a)) → Q (x >>= f)

namespace Composes

variable {Q : {α : Type} → Reporting α → Prop} (hQ : Composes Q) (icons : IconLibrary) (ink : Text)

def Inlines (Q : {α : Type} → Reporting α → Prop) (icons : IconLibrary) (ink : Text)
    (tags : List (Name × List (Name × Text))) : Prop :=
  ∀ t ∈ tags, ∀ icon, (icons.answer t.1 t.2).1 = some icon →
    Q (ExceptT.mk (pure (inline icon t.2 ink)) : Reporting Tree)

include hQ

mutual

theorem replaceInside :
    ∀ t : Tree, Inlines Q icons ink (Item.startTags t) → Q (replaceInside icons ink t)
  | .text s, _ => by
    rw [IconLibrary.replaceInside]
    exact hQ.ok _
  | .element name attributes children, h => by
    rw [IconLibrary.replaceInside]
    exact hQ.bind (replaceAll false children fun t ht => h t (List.mem_cons_of_mem _ ht))
      fun _ => hQ.ok _

theorem replaceAll (drop : Bool) :
    ∀ ts : List Tree, Inlines Q icons ink (Item.startTagsAll ts) → Q (replaceAll icons ink drop ts)
  | [], _ => by
    rw [IconLibrary.replaceAll]
    exact hQ.ok _
  | .text s :: is, h => by
    rw [IconLibrary.replaceAll]
    exact hQ.bind (replaceAll false is h) fun _ => hQ.ok _
  | .element name attributes children :: is, h => by
    have hinside : Inlines Q icons ink (Item.startTagsAll children) := fun t ht =>
      h t (List.mem_cons_of_mem _ (List.mem_append_left _ ht))
    have hrest : Inlines Q icons ink (Item.startTagsAll is) := fun t ht => h t (List.mem_append_right _ ht)
    rw [IconLibrary.replaceAll]
    refine hQ.bind (hQ.reported _) fun _ => ?_
    change Q (match (answer icons name attributes).1 with | none => _ | some icon => _)
    cases hicon : (answer icons name attributes).1 with
    | none =>
      exact hQ.bind (replaceAll false children hinside) fun _ =>
        hQ.bind (replaceAll false is hrest) fun _ => hQ.ok _
    | some icon =>
      exact hQ.bind (h (name, attributes) List.mem_cons_self icon hicon) fun _ =>
        hQ.bind (replaceAll false children hinside) fun _ =>
          hQ.bind (replaceAll true is hrest) fun _ => hQ.ok _

end

theorem replaceTree {t : Tree} (h : Inlines Q icons ink (Item.startTags t))
    (houtermost : ∀ name attributes children, t = .element name attributes children →
      (icons.answer name attributes).1.isSome → Q (throw .outermostPlaceholder : Reporting Tree)) :
    Q (replaceTree icons ink t) := by
  unfold IconLibrary.replaceTree
  cases t with
  | text s => exact replaceInside hQ icons ink _ h
  | element name attributes children =>
    refine hQ.bind (hQ.reported _) fun _ => ?_
    change Q (if (answer icons name attributes).1.isSome then _ else _)
    split
    · next hsome => exact houtermost name attributes children rfl hsome
    · exact replaceInside hQ icons ink _ h

theorem process (isDark : Bool) (svg : Text)
    (h : ∀ t, readTree? svg = some t → Q (IconLibrary.replaceTree icons (Theme.choose isDark).ink t))
    (hmalformed : Text.occursIn placeholderMark svg → readTree? svg = none →
      Q (throw .malformedXml : Reporting Text)) :
    Q (icons.process isDark svg) := by
  unfold IconLibrary.process
  split
  · next hmark =>
    split
    · next hnone => exact hmalformed hmark hnone
    · next t ht => exact hQ.bind (h t ht) fun _ => hQ.ok _
  · exact hQ.ok _

end Composes

def OnlyReports {α : Type} (x : Reporting α) : Prop :=
  ∃ r more, ∀ earlier, x.run.run earlier = (r, earlier ++ more)

namespace OnlyReports

variable {α β : Type}

theorem result (r : Except Failure α) : OnlyReports (ExceptT.mk (pure r) : Reporting α) :=
  ⟨r, [], fun earlier => by rw [List.append_nil]; rfl⟩

theorem ok (a : α) : OnlyReports (pure a : Reporting α) :=
  result (.ok a)

theorem error (e : Failure) : OnlyReports (throw e : Reporting α) :=
  result (.error e)

theorem reported (warnings : List Text) : OnlyReports (report warnings) :=
  ⟨.ok (), warnings, fun _ => rfl⟩

theorem bind {x : Reporting α} {f : α → Reporting β} (hx : OnlyReports x)
    (hf : ∀ a, OnlyReports (f a)) : OnlyReports (x >>= f) := by
  obtain ⟨r, more, hr⟩ := hx
  have hrun (earlier : List Text) : (x >>= f).run.run earlier =
      match r with
      | .ok a => (f a).run.run (earlier ++ more)
      | .error e => (.error e, earlier ++ more) := by
    rw [ExceptT.run_bind, StateT.run_bind, hr]
    cases r <;> rfl
  cases r with
  | error e => exact ⟨.error e, more, hrun⟩
  | ok a =>
    obtain ⟨r, more', hr'⟩ := hf a
    exact ⟨r, more ++ more', fun earlier => by rw [hrun, ← List.append_assoc]; exact hr' _⟩

theorem composes : Composes OnlyReports :=
  ⟨ok, reported, bind⟩

end OnlyReports

theorem onlyReports_process (icons : IconLibrary) (isDark : Bool) (svg : Text) :
    OnlyReports (icons.process isDark svg) := by
  refine OnlyReports.composes.process icons isDark svg (fun t _ => ?_) fun _ _ => .error _
  exact OnlyReports.composes.replaceTree icons _ (fun _ _ _ _ => .result _) fun _ _ _ _ _ => .error _

end Yuml.IconLibrary
