import Yuml.Proofs.Icon.Bundled
import Yuml.Proofs.Icon.Reports
import Yuml.Proofs.Layered.Layout
import Yuml.Proofs.Sequence.Chart
import Yuml.Render

namespace Yuml

def Failure.concernsKind : Failure → Bool
  | missingKind | invalidKind _ => true
  | _ => false

def SparesKind {α : Type} (x : Except Failure α) : Prop :=
  ∀ e, x = .error e → e.concernsKind = false

namespace SparesKind

variable {α β : Type}

theorem ok (a : α) : SparesKind (.ok a) :=
  fun _ h => nomatch h

theorem error {e : Failure} (h : e.concernsKind = false) : SparesKind (.error e : Except Failure α) := by
  rintro e' ⟨⟩
  exact h

theorem bind {x : Except Failure α} {f : α → Except Failure β} (hx : SparesKind x)
    (hf : ∀ a, SparesKind (f a)) : SparesKind (x >>= f) := by
  cases x with
  | error e => exact error (hx e rfl)
  | ok a => exact hf a

theorem mapM {f : α → Except Failure β} (hf : ∀ a, SparesKind (f a)) (xs : List α) :
    SparesKind (xs.mapM f) := by
  induction xs with
  | nil => exact ok _
  | cons x xs ih =>
    rw [List.mapM_cons]
    exact bind (hf x) fun _ => bind ih fun _ => ok _

end SparesKind

open SparesKind

theorem sparesKind_readFloat (s : Text) : SparesKind (Value.readFloat s) := by
  unfold Value.readFloat
  split
  · exact ok _
  · exact error rfl

theorem sparesKind_toFloat (v : Value) : SparesKind v.toFloat := by
  unfold Value.toFloat Value.wholeFloat
  split
  · exact ok _
  · dsimp only
    split
    · exact ok _
    · exact error rfl
  · exact ok _
  · exact sparesKind_readFloat _
  · exact error rfl

section Drawing

theorem sparesKind_gaps (engine : Value) : SparesKind (Layered.Layout.gaps engine) := by
  have hgap (entries : List (Value × Value)) (name : Text) (otherwise : Float) :
      SparesKind (Layered.Layout.gapOption entries name otherwise) := by
    unfold Layered.Layout.gapOption
    split
    · exact ok _
    · exact sparesKind_toFloat _
  unfold Layered.Layout.gaps
  split
  · exact bind (hgap _ _ _) fun _ => bind (hgap _ _ _) fun _ => ok _
  · split
    · exact error rfl
    · exact ok _

theorem sparesKind_wrap (d : Document) (isDark : Bool) (overrides : Value) :
    SparesKind (d.wrap isDark overrides) := by
  have hfor (entries : List (Value × Value)) (name : Text) :
      SparesKind (Header.overridesFor entries name) := by
    unfold Header.overridesFor
    split
    · exact ok _
    · exact ok _
    · split
      · exact error rfl
      · exact ok _
  unfold Document.wrap Header.override
  refine bind ?_ fun _ => ok _
  split
  · exact bind (hfor _ _) fun _ => bind (hfor _ _) fun _ => bind (hfor _ _) fun _ => ok _
  · split
    · exact error rfl
    · exact ok _

theorem sparesKind_check (options : Value) : SparesKind (RenderOptions.check options) := by
  have hone (entries : List (Value × Value)) (name only : Text) {refusal : Value → Failure}
      (h : ∀ v, (refusal v).concernsKind = false) :
      SparesKind (RenderOptions.checkOne entries name only refusal) := by
    unfold RenderOptions.checkOne
    split
    · exact ok _
    · split
      · exact ok _
      · exact error (h _)
  unfold RenderOptions.check
  split
  · exact bind (hone _ _ _ fun _ => rfl) fun _ => hone _ _ _ fun _ => rfl
  · split
    · exact error rfl
    · exact ok _

theorem sparesKind_ofHeader (header : Option Header) : SparesKind (Style.ofHeader header) := by
  unfold Style.ofHeader
  refine bind (sparesKind_readFloat _) fun nodeSize => ?_
  dsimp only
  split
  · exact bind (sparesKind_readFloat _) fun _ => ok _
  · exact ok _

theorem sparesKind_paint (d : Document) (engine : Value) : SparesKind (d.paint engine) := by
  have hplace (l : Layered.Layout Float) (n : Node) :
      SparesKind (Layered.placeOf l.nodes n.id) := by
    unfold Layered.placeOf
    split
    · exact ok _
    · exact error rfl
  have hlayout (rankGap nodeGap : Float) (s : Layered.Sketch Float) :
      SparesKind (Layered.Layout.ofSketch s rankGap nodeGap) := by
    obtain ⟨l, hl, -⟩ := Layered.Layout.ofSketch_ok s rankGap nodeGap
    rw [hl]
    exact ok l
  unfold Document.paint Document.picture Layered.Layout.ofDocument Document.pictureOf
  refine bind (bind (sparesKind_ofHeader _) fun s => bind ?_ fun l => ?_) fun _ => ok _
  · exact bind (sparesKind_ofHeader _) fun _ => bind (sparesKind_gaps _) fun _ => hlayout _ _ _
  · exact bind (SparesKind.mapM (fun n => bind (hplace l n) fun _ => ok _) _) fun _ => ok _

end Drawing

section Reporting

open IconLibrary

def ReportsSpareKind {α : Type} (x : Reporting α) : Prop :=
  ∀ earlier, SparesKind (x.run.run earlier).1

namespace ReportsSpareKind

variable {α β : Type}

theorem result {r : Except Failure α} (h : SparesKind r) :
    ReportsSpareKind (ExceptT.mk (pure r) : Reporting α) :=
  fun _ => h

theorem bind {x : Reporting α} {f : α → Reporting β} (hx : ReportsSpareKind x)
    (hf : ∀ a, ReportsSpareKind (f a)) : ReportsSpareKind (x >>= f) := by
  intro earlier
  have hrun : (x >>= f).run.run earlier = match x.run.run earlier with
      | (.ok a, later) => (f a).run.run later
      | (.error e, later) => (.error e, later) := by
    rw [ExceptT.run_bind, StateT.run_bind]
    rcases x.run.run earlier with ⟨e | a, later⟩ <;> rfl
  have hspares := hx earlier
  rw [hrun]
  revert hspares
  rcases x.run.run earlier with ⟨e | a, later⟩
  · exact fun hspares => .error (hspares e rfl)
  · exact fun _ => hf a later

theorem composes : Composes ReportsSpareKind :=
  ⟨fun a => result (.ok a), fun _ _ => .ok (), bind⟩

end ReportsSpareKind

theorem sparesKind_inline (icon : Icon) (attributes : List (Xml.Name × Text)) (ink : Text) :
    SparesKind (IconLibrary.inline icon attributes ink) := by
  have hscale (given : Option Text) (own : Float) : SparesKind (scaleTo given own) := by
    unfold scaleTo
    refine .bind (sparesKind_readFloat _) fun _ => ?_
    split
    · exact .error rfl
    · exact .ok _
  unfold IconLibrary.inline
  exact .bind (sparesKind_readFloat _) fun _ => .bind (sparesKind_readFloat _) fun _ =>
    .bind (hscale _ _) fun _ => .bind (hscale _ _) fun _ => .ok _

theorem reportsSpareKind_process (icons : IconLibrary) (isDark : Bool) (svg : Text) :
    ReportsSpareKind (icons.process isDark svg) := by
  have hcomposes := ReportsSpareKind.composes
  refine hcomposes.process icons isDark svg (fun t _ => ?_) fun _ _ => .result (.error rfl)
  exact hcomposes.replaceTree icons _ (fun _ _ _ _ => .result (sparesKind_inline _ _ _))
    fun _ _ _ _ _ => .result (.error rfl)

theorem reportsSpareKind_document (d : Document) (isDark : Bool) (overrides engine options : Value) :
    ReportsSpareKind (d.render isDark overrides engine options) := by
  obtain ⟨icon, hicons, -⟩ := bundled_ok
  have hpainted : SparesKind (d.painted isDark overrides engine options) :=
    .bind (sparesKind_wrap _ _ _) fun _ => .bind (sparesKind_check _) fun _ => sparesKind_paint _ _
  unfold Document.render
  rw [hicons]
  exact .bind (.result hpainted) fun _ => .bind (.result (.ok _)) fun _ =>
    reportsSpareKind_process _ _ _

theorem sparesKind_script (s : List (List Notation.Token)) (isDark : Bool) :
    SparesKind ((Sequence.Script.ofTokens s).paint isDark) := by
  obtain ⟨chart, hchart, -⟩ := Sequence.Chart.ofScript_ok (Sequence.lettering (Theme.choose isDark)).size
    fun m hm => Sequence.Script.ends_mem_names s hm
  unfold Sequence.Script.paint
  dsimp only
  rw [hchart]
  exact .ok _

theorem reportsSpareKind_instructions (s : Settings) (instructions : List Text) (engine options : Value) :
    ReportsSpareKind (renderInstructions s instructions engine options) := by
  unfold renderInstructions
  split
  · exact reportsSpareKind_document _ _ _ _ _
  · exact .result (sparesKind_script _ _)

end Reporting

end Yuml
