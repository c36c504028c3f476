import Yuml.Proofs.Options.Precedence
import Yuml.Proofs.Render.Failures
import Yuml.Proofs.Render.Statements

namespace Yuml

namespace Draft

inductive Settles (d : Draft) : Except Failure Settings → Prop
  | known (k : DiagramKind) (h : d.kind.kind? = some k) :
      Settles d (.ok ⟨d.direction, k, d.isDark, d.overrides, d.generate⟩)
  | missing (h : d.kind = .none) : Settles d (.error .missingKind)
  | unknown (h : d.kind ≠ .none) (h' : d.kind.kind? = none) : Settles d (.error (.invalidKind d.kind))

theorem settles (d : Draft) : d.Settles d.settle := by
  have hsettle : d.settle =
      d.resolveKind.map fun k => ⟨d.direction, k, d.isDark, d.overrides, d.generate⟩ := by
    unfold settle
    cases d.resolveKind <;> rfl
  rw [hsettle]
  unfold resolveKind
  split
  · next h => exact .missing h
  · next k h => exact .known k (by rw [h]; rfl)
  · next s h =>
    cases hname : DiagramKind.ofName? s with
    | some k => exact .known k (by rw [h]; exact hname)
    | none => exact .unknown (by rw [h]; exact Value.noConfusion) (by rw [h]; exact hname)
  · next hnone hkind htext =>
    refine .unknown hnone ?_
    unfold Value.kind?
    split
    · next k h => exact absurd h (hkind k)
    · next s h => exact absurd h (htext s)
    · rfl

end Draft

namespace Collector

section

variable {c : Collector} (hsome : c.instructions ≠ []) (engine options : Value) (earlier : List Warning)

include hsome

theorem render_of_settled {s : Settings} (h : c.draft.settle = .ok s) :
    ((c.render engine options).run.run earlier).1 =
      ((renderInstructions s c.instructions engine options).run.run []).1 := by
  have hrun : (c.render engine options).run.run earlier =
      (renderInstructions s c.instructions engine options).run.run earlier := by
    unfold render
    rw [if_neg (by simpa using hsome), h]
    rfl
  obtain ⟨r, more, hr⟩ := onlyReports_instructions s c.instructions engine options
  rw [hrun]
  exact (congrArg Prod.fst (hr earlier)).trans (congrArg Prod.fst (hr [])).symm

theorem render_of_unsettled {e : Failure} (h : c.draft.settle = .error e) :
    ((c.render engine options).run.run earlier).1 = .error e := by
  unfold render
  rw [if_neg (by simpa using hsome), h]
  rfl

end

theorem render_cases (c : Collector) (engine options : Value) (earlier : List Warning) :
    (c.instructions = [] → ((c.render engine options).run.run earlier).1 = .ok emptyDocument) ∧
      (c.instructions ≠ [] →
        (((c.render engine options).run.run earlier).1 = .error .missingKind ↔ c.draft.kind = .none) ∧
        (∀ v, ((c.render engine options).run.run earlier).1 = .error (.invalidKind v) ↔
          v = c.draft.kind ∧ c.draft.kind ≠ .none ∧ c.draft.kind.kind? = none) ∧
        ∀ k, c.draft.kind.kind? = some k → ((c.render engine options).run.run earlier).1 =
          ((renderInstructions
            ⟨c.draft.direction, k, c.draft.isDark, c.draft.overrides, c.draft.generate⟩
            c.instructions engine options).run.run []).1) := by
  constructor
  · intro h
    unfold render
    rw [if_pos (by rw [h]; rfl)]
    rfl
  · intro h
    have hsettles := c.draft.settles
    generalize hsettle : c.draft.settle = settled at hsettles
    cases hsettles with
    | known k hk =>
      rw [render_of_settled h engine options earlier hsettle]
      have hspares := reportsSpareKind_instructions
        ⟨c.draft.direction, k, c.draft.isDark, c.draft.overrides, c.draft.generate⟩ c.instructions engine options []
      refine ⟨⟨fun hmissing => (nomatch hspares _ hmissing), fun hnone => ?_⟩,
        fun v => ⟨fun hinvalid => (nomatch hspares _ hinvalid), fun hunknown => ?_⟩, fun k' hk' => ?_⟩
      · rw [hnone] at hk
        cases hk
      · rw [hunknown.2.2] at hk
        cases hk
      · obtain rfl := Option.some.inj (hk.symm.trans hk')
        rfl
    | missing hnone =>
      rw [render_of_unsettled h engine options earlier hsettle]
      refine ⟨⟨fun _ => hnone, fun _ => rfl⟩, fun v => ⟨fun h => (nomatch h), fun h => absurd hnone h.2.1⟩, ?_⟩
      intro k hk
      rw [hnone] at hk
      cases hk
    | unknown hsome hunknown =>
      rw [render_of_unsettled h engine options earlier hsettle]
      refine ⟨⟨fun h => (nomatch h), fun h => absurd h hsome⟩, fun v => ⟨?_, ?_⟩, ?_⟩
      · intro h
        cases h
        exact ⟨rfl, hsome, hunknown⟩
      · rintro ⟨rfl, -, -⟩
        rfl
      · intro k hk
        rw [hunknown] at hk
        cases hk

end Collector

theorem render_settles (input : Source.Input) (lines : List Text) (hread : input.lines = (lines, none))
    (engine options : Value) :
    (∀ draft : Draft × List Warning,
      let kind := ((lastKind? lines).map Value.kind).getD draft.1.kind
      let direction := (lastDirection? lines).getD draft.1.direction
      let result := (render input draft engine options).1
      (instructionsIn lines = [] → result = .ok emptyDocument) ∧
        (instructionsIn lines ≠ [] →
          (result = .error .missingKind ↔ kind = .none) ∧
          (∀ v, result = .error (.invalidKind v) ↔ v = kind ∧ kind ≠ .none ∧ kind.kind? = none) ∧
          ∀ k, kind.kind? = some k → ∃ s : Settings, s.kind = k ∧ s.direction = direction ∧
            s.isDark = draft.1.isDark ∧ s.overrides = draft.1.overrides ∧
            result = ((renderInstructions s (instructionsIn lines) engine options).run.run []).1)) ∧
      ∀ asked : List (Text × Value),
        (Draft.ofOptions asked).1.direction =
            (asked.filterMap Draft.directionIn?).getLast?.getD .topDown ∧
          (Draft.ofOptions asked).1.kind =
            ((asked.filterMap Draft.kindIn?).getLast?.map Value.named).getD (.kind .classes) ∧
          (Draft.ofOptions asked).1.kind ≠ .none := by
  refine ⟨fun draft => ?_, fun asked => ?_⟩
  · let c : Collector := ⟨draft.1, [], draft.2⟩
    obtain ⟨hinstructions, generate, hdraft⟩ := c.after_takeAll lines
    obtain ⟨hempty, hother⟩ := (c.takeAll lines).render_cases engine options (c.takeAll lines).warnings
    have hrender : (render input draft engine options).1 =
        (((c.takeAll lines).render engine options).run.run (c.takeAll lines).warnings).1 := by
      unfold render
      rw [hread]
    rw [hinstructions, List.nil_append] at hempty hother
    rw [← hrender] at hempty hother
    rw [hdraft] at hother
    intro kind direction result
    refine ⟨hempty, fun h => ⟨(hother h).1, (hother h).2.1, fun k hk => ?_⟩⟩
    exact ⟨_, rfl, rfl, rfl, rfl, (hother h).2.2 k hk⟩
  · obtain ⟨hdirection, hkind⟩ := Draft.setAll_direction_kind {} asked
    exact ⟨hdirection, hkind, Draft.kind_ofOptions_ne_none asked⟩

theorem render_settles_unknown_kind :
    let s : Text := "// {type:fancy}\n[a]->[b]\n// {direction:leftToRight}"
    let asked : List (Text × Value) := [("dir", .text "rl"), ("type", .text "odd"), ("diagram_type", .text [])]
    (lastKind? (Source.lines s)).isNone ∧ lastDirection? (Source.lines s) = some .leftToRight ∧
      (Draft.ofOptions asked).1.direction = .rightToLeft ∧
      (render (.buffer (.text s)) (Draft.ofOptions asked) .none .none).1 =
        .error (.invalidKind (.text "odd")) := by
  intro s asked
  have hnoKind : lastKind? (Source.lines s) = none := by decide +kernel
  have hsome : instructionsIn (Source.lines s) ≠ [] := by decide +kernel
  have hdirection : lastDirection? (Source.lines s) = some .leftToRight := by decide +kernel
  have hkind : (Draft.ofOptions asked).1.kind = .text "odd" := rfl
  have hunknown : Value.kind? (.text "odd") = none := by decide
  obtain ⟨hrender, -⟩ := render_settles (.buffer (.text s)) (Source.lines s) rfl .none .none
  obtain ⟨-, hinvalid, -⟩ := (hrender (Draft.ofOptions asked)).2 hsome
  rw [hnoKind] at hinvalid
  have hresult := (hinvalid (.text "odd")).mpr ⟨hkind.symm, hkind ▸ Value.noConfusion, hkind ▸ hunknown⟩
  exact ⟨by rw [hnoKind]; rfl, hdirection, rfl, hresult⟩

end Yuml
