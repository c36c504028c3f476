import Yuml.Proofs.Outcome
import Yuml.Proofs.Sequence.Script
import Yuml.Sequence.Chart

namespace Yuml.Sequence

open Number Scalar

variable {α : Type} [Scalar α]

theorem participants_columnsFrom (size x : α) (ps : List Participant) :
    (columnsFrom size x ps).1.map (·.participant) = ps := by
  induction ps generalizing x with
  | nil => rfl
  | cons p ps ih =>
    rw [columnsFrom, List.map_cons, ih]

theorem centreOf_ok {columns : List (Column α)} {name : Text}
    (h : name ∈ columns.map (·.participant.name)) :
    ∃ c ∈ columns, c.participant.name = name ∧ centreOf columns name = .ok c.centre := by
  obtain ⟨c, hc, hname, hfound⟩ := List.exists_find?_key (fun _ => decide_eq_true_iff) h
  exact ⟨c, hc, hname, by rw [centreOf, hfound]⟩

theorem callsFrom_ok {columns : List (Column α)} (y : α) {messages : List Message}
    (h : ∀ m ∈ messages, m.sender ∈ columns.map (·.participant.name) ∧
      m.receiver ∈ columns.map (·.participant.name)) :
    ∃ calls, callsFrom columns y messages = .ok calls ∧ calls.map (·.message) = messages ∧
      ∀ c ∈ calls, centreOf columns c.message.sender = .ok c.start ∧
        centreOf columns c.message.receiver = .ok c.stop := by
  induction messages generalizing y with
  | nil => exact ⟨[], rfl, rfl, fun c hc => nomatch hc⟩
  | cons m ms ih =>
    obtain ⟨hsender, hreceiver⟩ := h m List.mem_cons_self
    obtain ⟨s, -, -, hs⟩ := centreOf_ok hsender
    obtain ⟨r, -, -, hr⟩ := centreOf_ok hreceiver
    obtain ⟨calls, hcalls, hmessages, hends⟩ := ih (y + callStep (s.centre == r.centre))
      fun m' hm' => h m' (List.mem_cons_of_mem _ hm')
    refine ⟨⟨m, s.centre == r.centre, s.centre, r.centre, y⟩ :: calls, ?_, ?_, ?_⟩
    · simp only [callsFrom, hs, hr, hcalls, bind, Except.bind, pure, Except.pure]
    · rw [List.map_cons, hmessages]
    · exact List.forall_mem_cons.mpr ⟨⟨hs, hr⟩, hends⟩

theorem Chart.ofScript_ok (size : α) {s : Script}
    (h : ∀ m ∈ s.messages, m.sender ∈ s.names ∧ m.receiver ∈ s.names) :
    ∃ c, Chart.ofScript size s = .ok c ∧ c.columns.map (·.participant) = s.participants ∧
      c.calls.map (·.message) = s.messages ∧
      ∀ call ∈ c.calls, centreOf c.columns call.message.sender = .ok call.start ∧
        centreOf c.columns call.message.receiver = .ok call.stop := by
  have hparticipants := participants_columnsFrom size margin s.participants
  have hnames : (columnsFrom size margin s.participants).1.map (·.participant.name) = s.names := by
    rw [Script.names, ← hparticipants, List.map_map, hparticipants]
    rfl
  obtain ⟨calls, hcalls, hmessages, hends⟩ := callsFrom_ok (firstCall size) (hnames.symm ▸ h)
  have hchart : Chart.ofScript size s = .ok ⟨(columnsFrom size margin s.participants).1, calls,
      bottomOf size s.messages,
      larger ((columnsFrom size margin s.participants).2 - columnGap + margin) (margin * 2.0) + loopReach,
      bottomOf size s.messages + margin⟩ := by
    simp only [ofScript, hcalls, bind, Except.bind, pure, Except.pure]
  exact ⟨_, hchart, hparticipants, hmessages, hends⟩

end Yuml.Sequence
