import Yuml.Proofs.Icon.Reports
import Yuml.Proofs.Source.Collecting
import Yuml.Render

namespace Yuml

open IconLibrary

theorem onlyReports_document (d : Document) (isDark : Bool) (overrides engine options : Value) :
    OnlyReports (d.render isDark overrides engine options) :=
  .bind (.result _) fun _ => .bind (.result _) fun _ => onlyReports_process _ _ _

theorem onlyReports_instructions (s : Settings) (instructions : List Text) (engine options : Value) :
    OnlyReports (renderInstructions s instructions engine options) := by
  unfold renderInstructions
  split
  · exact onlyReports_document _ _ _ _ _
  · exact .result _

theorem onlyReports_collector (c : Collector) (engine options : Value) :
    OnlyReports (c.render engine options) := by
  unfold Collector.render
  split
  · exact .ok _
  · exact .bind (.result _) fun s => onlyReports_instructions s _ _ _

theorem settle_generate (d : Draft) (generate : Value) :
    { d with generate }.settle = d.settle.map fun s => { s with generate } := by
  have hkind : { d with generate }.resolveKind = d.resolveKind := rfl
  unfold Draft.settle
  rw [hkind]
  cases d.resolveKind <;> rfl

theorem render_generate (c : Collector) (generate : Value) (engine options : Value) :
    { c with draft := { c.draft with generate } }.render engine options = c.render engine options := by
  simp only [Collector.render, settle_generate]
  cases c.draft.settle <;> rfl

theorem render_after {c c₁ c₂ : Collector} {ls ms : List Text} (h₁ : c.After c₁ ls) (h₂ : c.After c₂ ms)
    (hinstructions : instructionsIn ls = instructionsIn ms) (hkind : lastKind? ls = lastKind? ms)
    (hdirection : lastDirection? ls = lastDirection? ms) (engine options : Value) :
    c₁.render engine options = c₂.render engine options := by
  obtain ⟨hi₁, generate₁, hd₁⟩ := h₁
  obtain ⟨hi₂, generate₂, hd₂⟩ := h₂
  rw [← render_generate c₁ .none, ← render_generate c₂ .none, hd₁, hd₂, hkind, hdirection]
  unfold Collector.render
  rw [hi₁, hi₂, hinstructions]

theorem render_eq_of_same_statements (s t : Text)
    (hinstructions : instructionsIn (Source.lines s) = instructionsIn (Source.lines t))
    (hkind : lastKind? (Source.lines s) = lastKind? (Source.lines t))
    (hdirection : lastDirection? (Source.lines s) = lastDirection? (Source.lines t))
    (draft : Draft × List Warning) (engine options : Value) :
    (render (.buffer (.text s)) draft engine options).1 =
      (render (.buffer (.text t)) draft engine options).1 := by
  let c : Collector := ⟨draft.1, [], draft.2⟩
  have hrender := render_after (c.after_takeAll (Source.lines s)) (c.after_takeAll (Source.lines t))
    hinstructions hkind hdirection engine options
  obtain ⟨r, more, hr⟩ := onlyReports_collector (c.takeAll (Source.lines t)) engine options
  change (((c.takeAll (Source.lines s)).render engine options).run.run _).1 =
    (((c.takeAll (Source.lines t)).render engine options).run.run _).1
  rw [hrender, hr, hr]

theorem render_eq_of_same_statements_rearranged :
    let s : Text := "[a]->[b]\n// {type:class}"
    let t : Text := "// {type:state}\r\n// {type:class}\r\n\r\n//{type:state}\r // {direction:up}\r" ++
      " [a]->[b]\t\n// note\n// {generate:true}"
    instructionsIn (Source.lines s) = instructionsIn (Source.lines t) ∧
      lastKind? (Source.lines s) = lastKind? (Source.lines t) ∧
      lastDirection? (Source.lines s) = lastDirection? (Source.lines t) ∧
      (render (.buffer (.text s)) ({}, []) .none .none).1 =
        (render (.buffer (.text t)) ({}, []) .none .none).1 := by
  intro s t
  have hinstructions : instructionsIn (Source.lines s) = instructionsIn (Source.lines t) := by
    decide +kernel
  have hkind : lastKind? (Source.lines s) = lastKind? (Source.lines t) := by decide +kernel
  have hdirection : lastDirection? (Source.lines s) = lastDirection? (Source.lines t) := by
    decide +kernel
  exact ⟨hinstructions, hkind, hdirection,
    render_eq_of_same_statements s t hinstructions hkind hdirection ({}, []) .none .none⟩

end Yuml
