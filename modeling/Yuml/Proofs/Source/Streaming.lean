import Mathlib.Data.List.Induction
import Yuml.Proofs.Source.Lines
import Yuml.Proofs.Text.Utf8
import Yuml.Render

namespace Yuml.Source

def Stream.ofBytes (chunks : List (List UInt8)) : Stream :=
  ⟨chunks.map .bytes, none⟩

def Stream.ofTexts (chunks : List Text) : Stream :=
  ⟨chunks.map .text, none⟩

def Carry.feedAll (k : Carry) : List Chunk → Except Utf8.Malformed (List Text × Carry)
  | [] => .ok ([], k)
  | c :: cs => do
    let (done, k') ← k.feed c
    let (more, k'') ← k'.feedAll cs
    return (done ++ more, k'')

def Carry.after (s : Text) (bytes : Utf8.State) : Carry :=
  ⟨(splitLast s).2, bytes⟩

theorem Carry.feedAll_cons_ok {k k₁ : Carry} {c : Chunk} {cs : List Chunk} {done : List Text}
    {r : List Text × Carry} (hc : k.feed c = .ok (done, k₁)) (hcs : k₁.feedAll cs = .ok r) :
    k.feedAll (c :: cs) = .ok (done ++ r.1, r.2) := by
  simp only [feedAll, hc, hcs, bind, Except.bind, pure, Except.pure]

theorem readFrom_append {k k' : Carry} {cs : List Chunk} {done : List Text}
    (hne : ∀ c ∈ cs, c.isEmpty = false) (h : k.feedAll cs = .ok (done, k'))
    (failure : Option Text) (rest : List Chunk) :
    readFrom k failure (cs ++ rest) =
      (done ++ (readFrom k' failure rest).1, (readFrom k' failure rest).2) := by
  induction cs generalizing k done with
  | nil =>
    cases h
    rfl
  | cons c cs ih =>
    have hc : c.isEmpty = false := hne c (by simp)
    obtain ⟨⟨first, k₁⟩, hf, h⟩ := Except.bind_eq_ok.mp h
    obtain ⟨⟨more, k₂⟩, hr, h⟩ := Except.bind_eq_ok.mp h
    cases h
    have hrest := ih (fun d hd => hne d (List.mem_cons_of_mem _ hd)) hr
    simp only [List.cons_append, readFrom, hc, hf, hrest, Bool.false_eq_true, if_false,
      List.append_assoc]

theorem Carry.feedAll_texts (s : Text) (bytes : Utf8.State) (chunks : List Text) :
    (after s bytes).feedAll (chunks.map .text) =
      .ok ((splitLast ((splitLast s).2 ++ chunks.flatten)).1, after (s ++ chunks.flatten) bytes) := by
  induction chunks generalizing s with
  | nil => simp [feedAll, splitLast_of_oneLine (splitLast_oneLine s)]
  | cons c cs ih =>
    have hc : (after s bytes).feed (.text c) =
        .ok ((splitLast ((splitLast s).2 ++ c)).1, after (s ++ c) bytes) := by
      simp only [feed, after, splitLast_append s c]
    rw [List.map_cons, feedAll_cons_ok hc (ih (s ++ c)), List.flatten_cons, ← List.append_assoc,
      ← List.append_assoc, splitLast_append ((splitLast s).2 ++ c), splitLast_append s c]

theorem Carry.feedAll_bytes {s t : Text} {st st' : Utf8.State} {position : Nat}
    {chunks : List (List UInt8)}
    (h : Utf8.decodeFrom st position chunks.flatten = .ok (t, st')) :
    (after s st).feedAll (chunks.map .bytes) =
      .ok ((splitLast ((splitLast s).2 ++ t)).1, after (s ++ t) st') := by
  induction chunks generalizing s t st position with
  | nil =>
    cases h
    simp [feedAll, splitLast_of_oneLine (splitLast_oneLine s)]
  | cons c cs ih =>
    rw [List.flatten_cons] at h
    cases hc : Utf8.decodeFrom st position c with
    | error e => simp [Utf8.decodeFrom_append_of_error hc] at h
    | ok r =>
      obtain ⟨u, st₁⟩ := r
      rw [Utf8.decodeFrom_append hc] at h
      obtain ⟨⟨v, st₂⟩, hcs, hv⟩ := Except.map_eq_ok.mp h
      cases hv
      have hfeed : (after s st).feed (.bytes c) =
          .ok ((splitLast ((splitLast s).2 ++ u)).1, after (s ++ u) st₁) := by
        have hu : Utf8.feed st c = .ok (u, st₁) := (Utf8.decodeFrom_ok_iff _ _).mp hc
        simp only [feed, after, hu, bind, Except.bind, pure, Except.pure, splitLast_append s u]
      rw [List.map_cons, feedAll_cons_ok hfeed (ih hcs), ← List.append_assoc, ← List.append_assoc,
        splitLast_append ((splitLast s).2 ++ u), splitLast_append s u]

theorem Carry.feedAll_bytes_empty {t : Text} {st : Utf8.State} {chunks : List (List UInt8)}
    (h : Utf8.decodeFrom .ready 0 chunks.flatten = .ok (t, st)) :
    empty.feedAll (chunks.map .bytes) = .ok ((splitLast t).1, after t st) :=
  feedAll_bytes (s := []) h

theorem exists_refused_chunk {st : Utf8.State} {position : Nat} {chunks : List (List UInt8)}
    {e : Utf8.Malformed} (h : Utf8.decodeFrom st position chunks.flatten = .error e) :
    ∃ before c behind t st' e', chunks = before ++ c :: behind ∧
      Utf8.decodeFrom st position before.flatten = .ok (t, st') ∧ Utf8.feed st' c = .error e' := by
  induction chunks using List.reverseRecOn with
  | nil => cases h
  | append_singleton cs c ih =>
    cases hcs : Utf8.decodeFrom st position cs.flatten with
    | error e' =>
      have hall : Utf8.decodeFrom st position (cs ++ [c]).flatten = .error e' := by
        rw [List.flatten_append, Utf8.decodeFrom_append_of_error hcs]
      obtain rfl : e' = e := by rw [hall] at h; cases h; rfl
      obtain ⟨before, d, behind, t, st', e'', rfl, ht, hd⟩ := ih hcs
      exact ⟨before, d, behind ++ [c], t, st', e'', by simp, ht, hd⟩
    | ok r =>
      obtain ⟨t, st'⟩ := r
      rw [List.flatten_append, Utf8.decodeFrom_append hcs, List.flatten_singleton] at h
      have hc := Except.map_eq_error.mp h
      rw [← Nat.zero_add (_ - _), Utf8.decodeFrom_add] at hc
      obtain ⟨e', hfeed, -⟩ := Except.mapError_eq_error.mp hc
      exact ⟨cs, c, [], t, st', e', rfl, hcs, hfeed⟩

theorem readFrom_refused {k : Carry} {c : Chunk} {e : Utf8.Malformed} (hne : c.isEmpty = false)
    (h : k.feed c = .error e) (failure : Option Text) (rest : List Chunk) :
    readFrom k failure (c :: rest) = ([], some (.malformed e)) := by
  simp only [readFrom, hne, h, Bool.false_eq_true, if_false]

theorem bytes_isEmpty_false {chunks : List (List UInt8)} (h : ∀ c ∈ chunks, c ≠ []) :
    ∀ c ∈ chunks.map Buffer.bytes, Chunk.isEmpty c = false := by
  simpa [Chunk.isEmpty] using h

theorem texts_isEmpty_false {chunks : List Text} (h : ∀ c ∈ chunks, c ≠ []) :
    ∀ c ∈ chunks.map Buffer.text, Chunk.isEmpty c = false := by
  simpa [Chunk.isEmpty] using h

theorem lines_eq_of_feedAll {cs : List Chunk} {t : Text} (hne : ∀ c ∈ cs, c.isEmpty = false)
    (h : Carry.empty.feedAll cs = .ok ((splitLast t).1, .after t .ready)) :
    Stream.lines ⟨cs, none⟩ = (lines t, none) := by
  have hrun := readFrom_append hne h none []
  have hend : readFrom (.after t .ready) none [] = (lines (splitLast t).2, none) := rfl
  have ht := lines_append t []
  rw [List.append_nil, List.append_nil] at ht
  rw [List.append_nil, hend, ← ht] at hrun
  exact hrun

theorem lines_ofTexts {chunks : List Text} (h : ∀ c ∈ chunks, c ≠ []) :
    (Stream.ofTexts chunks).lines = (lines chunks.flatten, none) :=
  lines_eq_of_feedAll (texts_isEmpty_false h) (Carry.feedAll_texts [] .ready chunks)

theorem lines_ofBytes {chunks : List (List UInt8)} (h : ∀ c ∈ chunks, c ≠ []) {t : Text}
    (ht : Utf8.decode chunks.flatten = .ok t) : (Stream.ofBytes chunks).lines = (lines t, none) :=
  lines_eq_of_feedAll (bytes_isEmpty_false h) (Carry.feedAll_bytes_empty (Utf8.decode_eq_ok_iff.mp ht))

theorem lines_of_refused_chunk {before behind : List (List UInt8)} {c : List UInt8} {t : Text}
    {st : Utf8.State} {e : Utf8.Malformed} (h : ∀ d ∈ before ++ c :: behind, d ≠ [])
    (ht : Utf8.decodeFrom .ready 0 before.flatten = .ok (t, st)) (hc : Utf8.feed st c = .error e)
    (failure : Option Text) :
    Stream.lines ⟨(before ++ c :: behind).map .bytes, failure⟩ = ((splitLast t).1, some (.malformed e)) := by
  have hempty := bytes_isEmpty_false h
  rw [List.map_append, List.map_cons] at hempty ⊢
  have hfeed : (Carry.after t st).feed (.bytes c) = .error e := by
    simp only [Carry.feed, Carry.after, hc, bind, Except.bind]
  have hrun := readFrom_append (fun d hd => hempty d (List.mem_append_left _ hd)) (Carry.feedAll_bytes_empty ht) failure
    (.bytes c :: behind.map .bytes)
  rw [readFrom_refused (hempty _ (by simp)) hfeed, List.append_nil] at hrun
  exact hrun

theorem lines_of_unfinished {chunks : List (List UInt8)} (h : ∀ c ∈ chunks, c ≠ []) {t : Text}
    {st : Utf8.State} (ht : Utf8.decodeFrom .ready 0 chunks.flatten = .ok (t, st)) {e : Utf8.Malformed}
    (he : Utf8.finish st 0 = .error e) :
    (Stream.ofBytes chunks).lines = ((splitLast t).1, some (.malformed e)) := by
  have hrun := readFrom_append (bytes_isEmpty_false h) (Carry.feedAll_bytes_empty ht) none []
  have hend : readFrom (.after t st) none [] = ([], some (.malformed e)) := by
    simp only [readFrom, readFrom.atEnd, Carry.finish, Carry.after, he, bind, Except.bind]
  rw [List.append_nil, hend, List.append_nil] at hrun
  exact hrun

theorem lines_ofBytes_malformed {chunks : List (List UInt8)} (h : ∀ c ∈ chunks, c ≠ [])
    {e : Utf8.Malformed} (he : Utf8.decode chunks.flatten = .error e) :
    ∃ e', (Stream.ofBytes chunks).lines.2 = some (.malformed e') := by
  cases hd : Utf8.decodeFrom .ready 0 chunks.flatten with
  | error e₁ =>
    obtain ⟨before, c, behind, t, st, e₂, rfl, ht, hfeed⟩ := exists_refused_chunk hd
    exact ⟨e₂, congrArg Prod.snd (lines_of_refused_chunk h ht hfeed none)⟩
  | ok r =>
    obtain ⟨t, st⟩ := r
    cases hst : Utf8.finish st 0 with
    | error e' => exact ⟨e', congrArg Prod.snd (lines_of_unfinished h hd hst)⟩
    | ok =>
      obtain rfl := Utf8.finish_eq_ok_iff.mp hst
      rw [← Utf8.decode_eq_ok_iff, he] at hd
      cases hd

theorem lines_bytes (bs : List UInt8) :
    (Input.buffer (.bytes bs)).lines = match Utf8.decode bs with
      | .ok t => (lines t, none)
      | .error e => ([], some (.malformed e)) := by
  simp only [Input.lines, Buffer.lines, Buffer.decode]
  cases Utf8.decode bs <;> rfl

end Yuml.Source

namespace Yuml

theorem render_congr {a b : Source.Input} (h : a.lines = b.lines) (draft : Draft × List Warning)
    (engine options : Value) : render a draft engine options = render b draft engine options := by
  simp only [render, h]

end Yuml

namespace Yuml.Source

theorem stream_agrees_with_buffer :
    (∀ chunks : List (List UInt8), (∀ c ∈ chunks, c ≠ []) →
      (∀ t, chunks.flatten = Utf8.encode t →
        (Stream.ofBytes chunks).lines = (lines t, none) ∧
        (Buffer.bytes chunks.flatten).lines = .ok (lines t) ∧
        ∀ draft engine options, render (.stream (.ofBytes chunks)) draft engine options =
          render (.buffer (.bytes chunks.flatten)) draft engine options) ∧
      ((∀ t, chunks.flatten ≠ Utf8.encode t) →
        (∃ e, (Stream.ofBytes chunks).lines.2 = some (.malformed e)) ∧
        ∃ e, (Buffer.bytes chunks.flatten).lines = .error e)) ∧
    ∀ chunks : List Text, (∀ c ∈ chunks, c ≠ []) →
      (Stream.ofTexts chunks).lines = (lines chunks.flatten, none) ∧
      (Buffer.text chunks.flatten).lines = .ok (lines chunks.flatten) ∧
      ∀ draft engine options, render (.stream (.ofTexts chunks)) draft engine options =
        render (.buffer (.text chunks.flatten)) draft engine options := by
  refine ⟨fun chunks h => ⟨fun t ht => ?_, fun ht => ?_⟩, fun chunks h => ?_⟩
  · have hdecode : Utf8.decode chunks.flatten = .ok t := Utf8.decode_eq_ok_iff_encode.mpr ht
    have hstream := lines_ofBytes h hdecode
    refine ⟨hstream, by simp [Buffer.lines, Buffer.decode, hdecode, Except.map], ?_⟩
    apply render_congr
    rw [lines_bytes, hdecode]
    exact hstream
  · cases hdecode : Utf8.decode chunks.flatten with
    | ok t => exact absurd (Utf8.decode_eq_ok_iff_encode.mp hdecode) (ht t)
    | error e =>
      exact ⟨lines_ofBytes_malformed h hdecode, e, by simp [Buffer.lines, Buffer.decode, hdecode, Except.map]⟩
  · have hstream := lines_ofTexts h
    exact ⟨hstream, rfl, render_congr hstream⟩

theorem stream_agrees_with_buffer_at_cuts :
    (Stream.ofBytes [[0xC3], [0xA9, 0x0D], [0x0A, 0x78]]).lines = (["é", "", "x"].map String.toList, none) ∧
    (∃ e, (Stream.ofBytes [[0xE2, 0x82], [0x41]]).lines.2 = some (.malformed e)) ∧
    (Stream.ofTexts [['x', '\r'], ['\n']]).lines = (["x", "", ""].map String.toList, none) := by
  have hbytes := stream_agrees_with_buffer.1
  refine ⟨?_, ?_, ?_⟩
  · exact ((hbytes [[0xC3], [0xA9, 0x0D], [0x0A, 0x78]] (by decide)).1 ['é', '\r', '\n', 'x'] (by decide)).1
  · refine ((hbytes [[0xE2, 0x82], [0x41]] (by decide)).2 fun t ht => ?_).1
    have hdecode := Utf8.decode_eq_ok_iff_encode.mpr ht
    simp [Utf8.decode, Utf8.decodeFrom, Utf8.step, Utf8.start, Utf8.Begun.next, Utf8.Begun.isSurrogate,
      bind, Except.bind] at hdecode
  · exact (stream_agrees_with_buffer.2 [['x', '\r'], ['\n']] (by decide)).1

end Yuml.Source
