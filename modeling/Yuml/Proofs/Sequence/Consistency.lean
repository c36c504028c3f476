import Mathlib.Tactic.Linarith
import Mathlib.Tactic.Ring
import Yuml.Proofs.EndToEnd
import Yuml.Proofs.Number.Exact
import Yuml.Proofs.Sequence.Chart

namespace Yuml.Sequence

open Number Scalar
open Layered (Point)

theorem margin_exact : (margin : Rat) = 10 := by
  norm_num [margin]

theorem columnGap_exact : (columnGap : Rat) = 40 := by
  norm_num [columnGap]

theorem minBoxWidth_exact : (minBoxWidth : Rat) = 60 := by
  norm_num [minBoxWidth]

theorem messageStep_exact : (messageStep : Rat) = 30 := by
  norm_num [messageStep]

theorem loopReach_exact : (loopReach : Rat) = 30 := by
  norm_num [loopReach]

theorem boxHeight_pos {size : Rat} (h : 0 ≤ size) : 0 < boxHeight size := by
  have hline : 0 ≤ lineHeight size := mul_nonneg h (by norm_num)
  have hpad : (0 : Rat) < 2.0 * padY := by norm_num [padY]
  exact add_pos_of_nonneg_of_pos hline hpad

section Columns

variable (size x : Rat) (ps : List Participant)

theorem endToEnd_columnsFrom :
    EndToEnd (·.x) (fun c => c.x + (c.width + columnGap)) x (columnsFrom size x ps).1
      (columnsFrom size x ps).2 := by
  induction ps generalizing x with
  | nil => rfl
  | cons p ps ih => exact ⟨rfl, ih _⟩

theorem width_columnsFrom : ∀ c ∈ (columnsFrom size x ps).1,
    c.width = max minBoxWidth ((blockSize size c.participant.name).1 + 2.0 * padX) := by
  induction ps generalizing x with
  | nil => exact List.forall_mem_nil _
  | cons p ps ih => exact List.forall_mem_cons.mpr ⟨Scalar.larger_eq_max _ _, ih _⟩

variable {size x} {ps}

theorem width_pos_columnsFrom : ∀ c ∈ (columnsFrom size x ps).1, 0 < c.width := by
  intro c hc
  rw [width_columnsFrom size x ps c hc, minBoxWidth_exact]
  exact lt_max_of_lt_left (by norm_num)

theorem le_columnsFrom : ∀ c ∈ (columnsFrom size x ps).1, c.x ≤ c.x + (c.width + columnGap) := by
  intro c hc
  have hwidth := width_pos_columnsFrom c hc
  rw [columnGap_exact]
  linarith

theorem centre_eq (c : Column Rat) : c.centre = c.x + c.width / 2 := by
  rw [Column.centre, Scalar.decimal_two]

theorem centres_columnsFrom : (columnsFrom size x ps).1.Pairwise fun b c => b.centre < c.centre := by
  refine ((endToEnd_columnsFrom size x ps).pairwise le_columnsFrom).imp_of_mem fun {b c} hb hc h => ?_
  have hbwidth := width_pos_columnsFrom b hb
  have hcwidth := width_pos_columnsFrom c hc
  rw [columnGap_exact] at h
  rw [centre_eq, centre_eq]
  linarith

end Columns

section Calls

variable {columns : List (Column Rat)} {y : Rat} {messages : List Message} {calls : List (Call Rat)}

theorem callsFrom_eq_ok (h : callsFrom columns y messages = .ok calls) :
    (calls.map (·.message) = messages ∧ ∀ c ∈ calls, centreOf columns c.message.sender = .ok c.start ∧
      centreOf columns c.message.receiver = .ok c.stop ∧ c.isLoop = (c.start == c.stop)) ∧
    EndToEnd (·.y) (fun c => c.y + callStep c.isLoop) y calls
      (calls.foldl (fun y c => y + callStep c.isLoop) y) := by
  induction messages generalizing y calls with
  | nil =>
    cases h
    exact ⟨⟨rfl, List.forall_mem_nil _⟩, rfl⟩
  | cons m ms ih =>
    obtain ⟨start, hstart, h⟩ := Except.bind_eq_ok.mp h
    obtain ⟨stop, hstop, h⟩ := Except.bind_eq_ok.mp h
    obtain ⟨more, hmore, h⟩ := Except.bind_eq_ok.mp h
    cases h
    obtain ⟨⟨hmessages, hends⟩, hlaid⟩ := ih hmore
    refine ⟨⟨?_, List.forall_mem_cons.mpr ⟨⟨hstart, hstop, rfl⟩, hends⟩⟩, rfl, hlaid⟩
    rw [List.map_cons, hmessages]

theorem callStep_true : (callStep true : Rat) = 45 := by
  norm_num [callStep, messageStep, loopReach]

theorem callStep_false : (callStep false : Rat) = 30 := by
  norm_num [callStep, messageStep]

theorem callStep_pos (isLoop : Bool) : (0 : Rat) < callStep isLoop := by
  cases isLoop
  · norm_num [callStep_false]
  · norm_num [callStep_true]

theorem le_callStep (c : Call Rat) : c.y ≤ c.y + callStep c.isLoop :=
  le_add_of_nonneg_right (callStep_pos _).le

theorem ofNat_succ (n : Nat) : (ofNat (n + 1) : Rat) = ofNat n + 1 :=
  Nat.cast_succ n

theorem foldl_callStep (ms : List Message) (y : Rat) :
    ms.foldl (fun y m => y + callStep (decide (m.sender = m.receiver))) y =
      ms.foldl (fun b m => if m.sender = m.receiver then b + loopReach / 2.0 else b)
        (y + ofNat ms.length * messageStep) := by
  induction ms generalizing y with
  | nil => simp [Scalar.ofNat]
  | cons m ms ih =>
    rw [List.foldl_cons, List.foldl_cons, ih, List.length_cons, ofNat_succ, messageStep_exact, loopReach_exact]
    congr 1
    by_cases h : m.sender = m.receiver
    · rw [decide_eq_true h, if_pos h, callStep_true, Scalar.decimal_two]
      ring
    · rw [decide_eq_false h, if_neg h, callStep_false]
      ring

theorem bottomOf_eq {ms : List Message} (h : ms ≠ []) (size : Rat) :
    bottomOf size ms =
      ms.foldl (fun y m => y + callStep (decide (m.sender = m.receiver))) (firstCall size) := by
  obtain ⟨m, ms, rfl⟩ := List.exists_cons_of_ne_nil h
  rw [foldl_callStep, bottomOf, List.length_cons, Nat.add_sub_cancel, ofNat_succ, add_mul, one_mul, ← add_assoc]

theorem y_waypoints {c : Call Rat} {p : Point Rat} (hp : p ∈ c.waypoints) :
    c.y ≤ p.y ∧ p.y < c.y + callStep c.isLoop := by
  cases hloop : c.isLoop with
  | true =>
    simp only [Call.waypoints, hloop, if_true, loopReach_exact, Scalar.decimal_two, List.mem_cons, List.not_mem_nil,
      or_false] at hp
    rw [callStep_true]
    rcases hp with rfl | rfl | rfl | rfl <;> constructor <;> dsimp only <;> linarith
  | false =>
    simp only [Call.waypoints, hloop, Bool.false_eq_true, if_false, List.mem_cons, List.not_mem_nil, or_false] at hp
    rw [callStep_false]
    rcases hp with rfl | rfl <;> constructor <;> dsimp only <;> linarith

theorem x_waypoints {c : Call Rat} {p : Point Rat} (hp : p ∈ c.waypoints) :
    p.x = c.start ∨ p.x = c.stop ∨ p.x = c.start + loopReach := by
  unfold Call.waypoints at hp
  split at hp <;> simp only [List.mem_cons, List.not_mem_nil, or_false] at hp
  · rcases hp with rfl | rfl | rfl | rfl <;> simp
  · rcases hp with rfl | rfl <;> simp

end Calls

def Chart.Holds (c : Chart Rat) (p : Point Rat) : Prop :=
  (0 ≤ p.x ∧ p.x ≤ c.width) ∧ 0 ≤ p.y ∧ p.y ≤ c.height

/-- A chart as it should be: the boxes stand side by side and hold their names, the lifelines are
apart, a call is drawn as a loop when it goes from a participant to itself, the calls come one below
the other between the boxes and the end of the lifelines, and nothing leaves the canvas. -/
structure Chart.Consistent (size : Rat) (s : Script) (c : Chart Rat) : Prop where
  participants : c.columns.map (·.participant) = s.participants
  messages : c.calls.map (·.message) = s.messages
  boxes_spaced : c.columns.IsChain fun a b => b.x = a.x + (a.width + columnGap)
  boxes_apart : c.columns.Pairwise fun a b => a.x + a.width + columnGap ≤ b.x
  boxes_wide : ∀ a ∈ c.columns,
    minBoxWidth ≤ a.width ∧ (blockSize size a.participant.name).1 + 2.0 * padX ≤ a.width
  lifelines_apart : ∀ a ∈ c.columns, ∀ b ∈ c.columns, a.centre = b.centre → a.participant = b.participant
  ends : ∀ call ∈ c.calls, ∃ a ∈ c.columns, ∃ b ∈ c.columns,
    a.participant.name = call.message.sender ∧ call.start = a.centre ∧
    b.participant.name = call.message.receiver ∧ call.stop = b.centre
  loops : ∀ call ∈ c.calls, call.isLoop = true ↔ call.message.sender = call.message.receiver
  spans_apart : c.calls.Pairwise fun a b => ∀ p ∈ a.waypoints, ∀ q ∈ b.waypoints, p.y < q.y
  spans_between : ∀ call ∈ c.calls, ∀ p ∈ call.waypoints, margin + boxHeight size < p.y ∧ p.y < c.bottom
  first_call : ∀ call ∈ c.calls.head?, call.y = margin + boxHeight size + messageStep
  calls_spaced : c.calls.IsChain fun a b => b.y = a.y + callStep a.isLoop
  bottom : ∀ call ∈ c.calls.getLast?, c.bottom = call.y + callStep call.isLoop
  boxes_inside : ∀ a ∈ c.columns,
    c.Holds ⟨a.x, margin⟩ ∧ c.Holds ⟨a.x + a.width, margin + boxHeight size⟩
  lifelines_inside : ∀ a ∈ c.columns, margin + boxHeight size ≤ c.bottom ∧
    c.Holds ⟨a.centre, margin + boxHeight size⟩ ∧ c.Holds ⟨a.centre, c.bottom⟩
  calls_inside : ∀ call ∈ c.calls, ∀ p ∈ call.waypoints, c.Holds p

section OfScript

variable {size : Rat} {s : Script} {c : Chart Rat}

theorem Chart.ofScript_eq_ok (h : Chart.ofScript size s = .ok c) :
    c.columns = (columnsFrom size margin s.participants).1 ∧
      callsFrom c.columns (firstCall size) s.messages = .ok c.calls ∧ c.bottom = bottomOf size s.messages ∧
      c.width = max ((columnsFrom size margin s.participants).2 - columnGap + margin) (margin * 2) + loopReach ∧
      c.height = c.bottom + margin := by
  obtain ⟨calls, hcalls, h⟩ := Except.bind_eq_ok.mp h
  cases h
  refine ⟨rfl, hcalls, rfl, ?_, rfl⟩
  rw [← Scalar.decimal_two, ← Scalar.larger_eq_max]

theorem exists_of_centreOf {columns : List (Column Rat)} {name : Text} {x : Rat}
    (h : centreOf columns name = .ok x) : ∃ a ∈ columns, a.participant.name = name ∧ x = a.centre := by
  unfold centreOf at h
  split at h
  · next a ha =>
    cases h
    exact ⟨a, List.mem_of_find?_eq_some ha, by simpa using List.find?_some ha, rfl⟩
  · cases h

theorem centre_inj {columns : List (Column Rat)} (h : columns.Pairwise fun a b => a.centre < b.centre)
    {a b : Column Rat} (ha : a ∈ columns) (hb : b ∈ columns) (hab : a.centre = b.centre) : a = b := by
  have hnodup : (columns.map Column.centre).Nodup := List.pairwise_map.mpr (h.imp ne_of_lt)
  exact List.inj_on_of_nodup_map hnodup ha hb hab

theorem centre_eq_iff {columns : List (Column Rat)} (hcentres : columns.Pairwise fun a b => a.centre < b.centre)
    (hnames : (columns.map (·.participant.name)).Nodup) {m n : Text} {x y : Rat}
    (hx : centreOf columns m = .ok x) (hy : centreOf columns n = .ok y) : x = y ↔ m = n := by
  obtain ⟨a, ha, rfl, rfl⟩ := exists_of_centreOf hx
  obtain ⟨b, hb, rfl, rfl⟩ := exists_of_centreOf hy
  constructor
  · intro h
    rw [centre_inj hcentres ha hb h]
  · intro h
    rw [List.inj_on_of_nodup_map hnames ha hb h]

theorem reach_eq {calls : List (Call Rat)}
    (h : ∀ c ∈ calls, c.isLoop = decide (c.message.sender = c.message.receiver)) (y : Rat) :
    calls.foldl (fun y c => y + callStep c.isLoop) y =
      (calls.map (·.message)).foldl (fun y m => y + callStep (decide (m.sender = m.receiver))) y := by
  rw [List.foldl_map]
  exact List.foldl_ext _ _ _ fun y c hc => by rw [h c hc]

theorem firstCall_le_bottomOf (size : Rat) (ms : List Message) : firstCall size ≤ bottomOf size ms := by
  have hstart : firstCall size ≤ firstCall size + ofNat (ms.length - 1) * messageStep + messageStep := by
    have hcount : (0 : Rat) ≤ ofNat (ms.length - 1) := Nat.cast_nonneg _
    rw [messageStep_exact]
    linarith
  refine List.foldlRecOn ms _ hstart fun b hb m _ => ?_
  rw [loopReach_exact, Scalar.decimal_two]
  split
  · linarith
  · exact hb

variable (hc : Chart.ofScript size s = .ok c)

include hc

theorem names_ofScript : c.columns.map (·.participant.name) = s.names := by
  have hparticipants := participants_columnsFrom size margin s.participants
  rw [← (Chart.ofScript_eq_ok hc).1] at hparticipants
  rw [Script.names, ← hparticipants, List.map_map]
  rfl

theorem centres_ofScript : c.columns.Pairwise fun a b => a.centre < b.centre :=
  (Chart.ofScript_eq_ok hc).1 ▸ centres_columnsFrom

theorem box_within : ∀ a ∈ c.columns, 0 ≤ a.x ∧ 0 < a.width ∧ a.x + a.width + loopReach ≤ c.width := by
  obtain ⟨hcolumns, -, -, hwidth, -⟩ := Chart.ofScript_eq_ok hc
  rw [hcolumns, hwidth]
  intro a ha
  obtain ⟨hleft, hright⟩ := ((endToEnd_columnsFrom size margin s.participants).within le_columnsFrom).2 a ha
  have hmax := le_max_left ((columnsFrom size margin s.participants).2 - columnGap + margin) (margin * 2)
  have hmargin := margin_exact
  exact ⟨by linarith, width_pos_columnsFrom a ha, by linarith⟩

theorem centre_within : ∀ a ∈ c.columns, 0 ≤ a.centre ∧ a.centre + loopReach ≤ c.width := by
  intro a ha
  obtain ⟨hleft, hwidth, hright⟩ := box_within hc a ha
  rw [centre_eq]
  constructor <;> linarith

theorem ends_ofScript : ∀ call ∈ c.calls, ∃ a ∈ c.columns, ∃ b ∈ c.columns,
    a.participant.name = call.message.sender ∧ call.start = a.centre ∧
    b.participant.name = call.message.receiver ∧ call.stop = b.centre := by
  intro call hcall
  obtain ⟨⟨-, hends⟩, -⟩ := callsFrom_eq_ok (Chart.ofScript_eq_ok hc).2.1
  obtain ⟨hstart, hstop, -⟩ := hends call hcall
  obtain ⟨a, ha, hsender, hstart⟩ := exists_of_centreOf hstart
  obtain ⟨b, hb, hreceiver, hstop⟩ := exists_of_centreOf hstop
  exact ⟨a, ha, b, hb, hsender, hstart, hreceiver, hstop⟩

theorem waypoint_within : ∀ call ∈ c.calls, ∀ p ∈ call.waypoints, 0 ≤ p.x ∧ p.x ≤ c.width := by
  intro call hcall p hp
  obtain ⟨a, ha, b, hb, -, hstart, -, hstop⟩ := ends_ofScript hc call hcall
  obtain ⟨hleft, hright⟩ := centre_within hc a ha
  obtain ⟨hleft', hright'⟩ := centre_within hc b hb
  have hreach : (0 : Rat) ≤ loopReach := by norm_num [loopReach]
  rcases x_waypoints hp with h | h | h <;> rw [h] <;> constructor <;> linarith

theorem boxes_above_bottom : margin + boxHeight size ≤ c.bottom := by
  have hstart := firstCall_le_bottomOf size s.messages
  rw [firstCall, messageStep_exact, ← (Chart.ofScript_eq_ok hc).2.2.1] at hstart
  linarith

theorem loops_ofScript (hnames : s.names.Nodup) :
    ∀ call ∈ c.calls, call.isLoop = decide (call.message.sender = call.message.receiver) := by
  intro call hcall
  obtain ⟨⟨-, hends⟩, -⟩ := callsFrom_eq_ok (Chart.ofScript_eq_ok hc).2.1
  obtain ⟨hstart, hstop, hloop⟩ := hends call hcall
  rw [hloop, Bool.eq_iff_iff, beq_iff_eq, decide_eq_true_eq]
  exact centre_eq_iff (centres_ofScript hc) (names_ofScript hc ▸ hnames) hstart hstop

theorem bottom_ofScript (hnames : s.names.Nodup) :
    ∀ call ∈ c.calls.getLast?, c.bottom = call.y + callStep call.isLoop := by
  obtain ⟨-, hcalls, hbottom, -⟩ := Chart.ofScript_eq_ok hc
  obtain ⟨⟨hmessages, -⟩, hlaid⟩ := callsFrom_eq_ok hcalls
  intro call hcall
  have hne : s.messages ≠ [] := by
    rw [← hmessages]
    exact mt List.map_eq_nil_iff.mp (List.ne_nil_of_mem (List.mem_of_getLast? hcall))
  rw [hbottom, bottomOf_eq hne, ← hmessages, ← reach_eq (loops_ofScript hc hnames)]
  exact hlaid.stop_of_getLast? call hcall

theorem spans_ofScript (hnames : s.names.Nodup) : ∀ call ∈ c.calls, ∀ p ∈ call.waypoints,
    margin + boxHeight size < p.y ∧ p.y < c.bottom := by
  obtain ⟨-, hlaid⟩ := callsFrom_eq_ok (Chart.ofScript_eq_ok hc).2.1
  intro call hcall p hp
  obtain ⟨last, hlast⟩ := Option.isSome_iff_exists.mp (List.getLast?_isSome.mpr (List.ne_nil_of_mem hcall))
  obtain ⟨hfirst, hreach⟩ := (hlaid.within fun d _ => le_callStep d).2 call hcall
  rw [hlaid.stop_of_getLast? last hlast, ← bottom_ofScript hc hnames last hlast] at hreach
  obtain ⟨habove, hbelow⟩ := y_waypoints hp
  rw [firstCall, messageStep_exact] at hfirst
  constructor <;> linarith

theorem consistent_ofScript (hsize : 0 ≤ size) (hnames : s.names.Nodup) : c.Consistent size s := by
  obtain ⟨hcolumns, hcalls, -, -, hheight⟩ := Chart.ofScript_eq_ok hc
  obtain ⟨⟨hmessages, -⟩, hlaid⟩ := callsFrom_eq_ok hcalls
  have hboxes := endToEnd_columnsFrom size margin s.participants
  have hwide := width_columnsFrom size margin s.participants
  have happart := hboxes.pairwise le_columnsFrom
  have hparticipants := participants_columnsFrom size margin s.participants
  rw [← hcolumns] at hboxes hwide happart hparticipants
  have hspans := spans_ofScript hc hnames
  have hbottom := boxes_above_bottom hc
  have hmargin := margin_exact
  have hboxHeight := boxHeight_pos hsize
  have hreach : (0 : Rat) ≤ loopReach := by norm_num [loopReach]
  refine {
    participants := hparticipants
    messages := hmessages
    boxes_spaced := hboxes.isChain
    boxes_apart := happart.imp fun h => by linarith
    boxes_wide := fun a ha => by rw [hwide a ha]; exact ⟨le_max_left _ _, le_max_right _ _⟩
    lifelines_apart := fun a ha b hb h =>
      congrArg Column.participant (centre_inj (centres_ofScript hc) ha hb h)
    ends := ends_ofScript hc
    loops := fun call hcall => by rw [loops_ofScript hc hnames call hcall, decide_eq_true_eq]
    spans_apart := ?_
    spans_between := hspans
    first_call := hlaid.start_of_head?
    calls_spaced := hlaid.isChain
    bottom := bottom_ofScript hc hnames
    boxes_inside := fun a ha => ?_
    lifelines_inside := fun a ha => ⟨hbottom, ?_⟩
    calls_inside := fun call hcall p hp => ⟨waypoint_within hc call hcall p hp, ?_⟩ }
  · refine (hlaid.pairwise fun d _ => le_callStep d).imp fun h p hp q hq => ?_
    exact (y_waypoints hp).2.trans_le (h.trans (y_waypoints hq).1)
  · obtain ⟨hleft, hwidth, hright⟩ := box_within hc a ha
    refine ⟨⟨⟨?_, ?_⟩, ?_, ?_⟩, ⟨?_, ?_⟩, ?_, ?_⟩ <;> dsimp only <;> linarith
  · obtain ⟨hleft, hright⟩ := centre_within hc a ha
    refine ⟨⟨⟨?_, ?_⟩, ?_, ?_⟩, ⟨?_, ?_⟩, ?_, ?_⟩ <;> dsimp only <;> linarith
  · obtain ⟨habove, hbelow⟩ := hspans call hcall p hp
    constructor <;> linarith

end OfScript

theorem Chart.ofScript_consistent {size : Rat} (hsize : 0 ≤ size) {s : Script} (hnames : s.names.Nodup)
    (hknown : ∀ m ∈ s.messages, m.sender ∈ s.names ∧ m.receiver ∈ s.names) :
    ∃ c, Chart.ofScript size s = .ok c ∧ c.Consistent size s := by
  obtain ⟨c, hc, -⟩ := Chart.ofScript_ok size hknown
  exact ⟨c, hc, consistent_ofScript hc hsize hnames⟩

def errand : Script where
  participants := [⟨"Me".toList, none⟩, ⟨"Somebody else".toList, none⟩]
  messages := [⟨"Me".toList, "Somebody else".toList, "ask".toList, .synchronous⟩,
    ⟨"Somebody else".toList, "Somebody else".toList, "look".toList, .synchronous⟩,
    ⟨"Somebody else".toList, "Somebody else".toList, [], .synchronous⟩,
    ⟨"Somebody else".toList, "Me".toList, "answer".toList, .reply⟩]

theorem Chart.ofScript_consistent_errand : (0 : Rat) ≤ 10 ∧ errand.names.Nodup ∧
    (∀ m ∈ errand.messages, m.sender ∈ errand.names ∧ m.receiver ∈ errand.names) ∧
    ∃ c, Chart.ofScript 10 errand = .ok c ∧ c.Consistent 10 errand := by
  have hsize : (0 : Rat) ≤ 10 := by norm_num
  have hnames : errand.names.Nodup := by decide
  have hknown : ∀ m ∈ errand.messages, m.sender ∈ errand.names ∧ m.receiver ∈ errand.names := by decide
  exact ⟨hsize, hnames, hknown, ofScript_consistent hsize hnames hknown⟩

end Yuml.Sequence
