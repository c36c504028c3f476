import Yuml.Proofs.Source.Streaming

namespace Yuml.Utf8

def feedAll (s : State) : List (List UInt8) → Except Malformed (Text × State)
  | [] => .ok ([], s)
  | c :: cs => do
    let (t, s') ← feed s c
    let (u, s'') ← feedAll s' cs
    return (t ++ u, s'')

theorem feedAll_eq_ok_iff {s : State} {chunks : List (List UInt8)} {r : Text × State} :
    feedAll s chunks = .ok r ↔ decodeFrom s 0 chunks.flatten = .ok r := by
  induction chunks generalizing s r with
  | nil => rfl
  | cons c cs ih =>
    rw [feedAll, List.flatten_cons, feed]
    cases hc : decodeFrom s 0 c with
    | error e => simp [decodeFrom_append_of_error hc, bind, Except.bind]
    | ok p =>
      obtain ⟨t, s'⟩ := p
      rw [decodeFrom_append hc, Except.map_eq_ok, Except.bind_eq_ok]
      constructor
      · rintro ⟨_, hp, h⟩
        cases hp
        obtain ⟨⟨u, s''⟩, hcs, h⟩ := Except.bind_eq_ok.mp h
        cases h
        exact ⟨(u, s''), (decodeFrom_ok_iff _ _).mp (ih.mp hcs), rfl⟩
      · rintro ⟨⟨u, s''⟩, hcs, rfl⟩
        exact ⟨(t, s'), rfl, Except.bind_eq_ok.mpr ⟨(u, s''), ih.mpr ((decodeFrom_ok_iff _ _).mp hcs), rfl⟩⟩

theorem decode_append_of_error {before rest : List UInt8} {t : Text} {s : State} {e : Malformed}
    (ht : decodeFrom .ready 0 before = .ok (t, s)) (he : decodeFrom s 0 rest = .error e) :
    decode (before ++ rest) = .error (e.moveBy (before.length - s.kept)) := by
  have hrest : decodeFrom s (before.length - s.kept) rest = .error (e.moveBy (before.length - s.kept)) := by
    have hmove := decodeFrom_add s 0 (before.length - s.kept) rest
    rwa [he, Nat.zero_add] at hmove
  have hzero : 0 + State.ready.kept + before.length - s.kept = before.length - s.kept := by
    simp [State.kept]
  rw [decode, decodeFrom_append ht, hzero, hrest]
  rfl

theorem decode_of_unfinished {bytes : List UInt8} {t : Text} {s : State} {e : Malformed}
    (ht : decodeFrom .ready 0 bytes = .ok (t, s)) (he : finish s 0 = .error e) :
    decode bytes = .error (e.moveBy (bytes.length - s.kept)) := by
  have hmove := finish_add s 0 (bytes.length - s.kept)
  rw [he, Nat.zero_add] at hmove
  rw [decode, ht]
  simp only [bind, Except.bind, hmove, Except.mapError]

end Yuml.Utf8

namespace Yuml.Source

/-- Why a stream breaks off when its decoder is in state `s` and these chunks are still to come:
the next read fails, the next chunk cannot be decoded, or the input ends within a character. -/
inductive Breaks (s : Utf8.State) : List (List UInt8) → Option Text → Failure → Prop
  | read (reason : Text) : Breaks s [] (some reason) (.unreadable reason)
  | chunk {c : List UInt8} {behind : List (List UInt8)} {failure : Option Text} {e : Utf8.Malformed}
      (h : Utf8.feed s c = .error e) : Breaks s (c :: behind) failure (.malformed e)
  | flush {e : Utf8.Malformed} (h : Utf8.finish s 0 = .error e) : Breaks s [] none (.malformed e)

variable {before rest : List (List UInt8)} {failure : Option Text} {t : Text} {s : Utf8.State} {f : Failure}

theorem lines_of_unreadable (h : ∀ c ∈ before, c ≠ [])
    (ht : Utf8.decodeFrom .ready 0 before.flatten = .ok (t, s)) (reason : Text) :
    Stream.lines ⟨before.map .bytes, some reason⟩ = ((splitLast t).1, some (.unreadable reason)) := by
  have hrun := readFrom_append (bytes_isEmpty_false h) (Carry.feedAll_bytes_empty ht) (some reason) []
  simp only [readFrom, List.append_nil] at hrun
  exact hrun

theorem Breaks.lines (h : ∀ c ∈ before ++ rest, c ≠ [])
    (ht : Utf8.decodeFrom .ready 0 before.flatten = .ok (t, s)) (hf : Breaks s rest failure f) :
    Stream.lines ⟨(before ++ rest).map .bytes, failure⟩ = ((splitLast t).1, some f) := by
  cases hf with
  | read reason =>
    rw [List.append_nil] at h ⊢
    exact lines_of_unreadable h ht reason
  | chunk hc => exact lines_of_refused_chunk h ht hc failure
  | flush he =>
    rw [List.append_nil] at h ⊢
    exact lines_of_unfinished h ht he

theorem Breaks.decode {e : Utf8.Malformed} (ht : Utf8.decodeFrom .ready 0 before.flatten = .ok (t, s))
    (hf : Breaks s rest failure (.malformed e)) :
    Utf8.decode (before ++ rest).flatten = .error (e.moveBy (before.flatten.length - s.kept)) := by
  rw [List.flatten_append]
  cases hf with
  | chunk hc => exact Utf8.decode_append_of_error ht (Utf8.decodeFrom_append_of_error hc _)
  | flush he =>
    rw [List.flatten_nil, List.append_nil]
    exact Utf8.decode_of_unfinished ht he

theorem exists_breaks {chunks : List (List UInt8)} (h : ∀ c ∈ chunks, c ≠ [])
    (hf : (Stream.lines ⟨chunks.map .bytes, failure⟩).2 = some f) :
    ∃ before rest t s, chunks = before ++ rest ∧
      Utf8.decodeFrom .ready 0 before.flatten = .ok (t, s) ∧ Breaks s rest failure f := by
  cases hd : Utf8.decodeFrom .ready 0 chunks.flatten with
  | error e =>
    obtain ⟨before, c, behind, t, s, e', rfl, ht, hc⟩ := exists_refused_chunk hd
    rw [lines_of_refused_chunk h ht hc failure] at hf
    cases hf
    exact ⟨before, c :: behind, t, s, rfl, ht, .chunk hc⟩
  | ok r =>
    obtain ⟨t, s⟩ := r
    refine ⟨chunks, [], t, s, by rw [List.append_nil], hd, ?_⟩
    cases failure with
    | some reason =>
      rw [lines_of_unreadable h hd reason] at hf
      cases hf
      exact .read reason
    | none =>
      cases he : Utf8.finish s 0 with
      | error e =>
        have hlines : Stream.lines ⟨chunks.map .bytes, none⟩ = _ := lines_of_unfinished h hd he
        rw [hlines] at hf
        cases hf
        exact .flush he
      | ok =>
        obtain rfl := Utf8.finish_eq_ok_iff.mp he
        have hlines : Stream.lines ⟨chunks.map .bytes, none⟩ = _ :=
          lines_ofBytes h (Utf8.decode_eq_ok_iff.mpr hd)
        rw [hlines] at hf
        cases hf

theorem lines_handed_over_before_failure (chunks : List (List UInt8)) (failure : Option Text)
    (h : ∀ c ∈ chunks, c ≠ []) :
    (∀ before rest t s f, chunks = before ++ rest → Utf8.feedAll .ready before = .ok (t, s) →
      Breaks s rest failure f →
      Stream.lines ⟨chunks.map .bytes, failure⟩ = ((lines t).dropLast, some f) ∧
      ∃ held, before.flatten = Utf8.encode t ++ held ∧ held.length = s.kept ∧
        ∀ e, f = .malformed e →
          (Buffer.bytes chunks.flatten).lines = .error (e.moveBy (Utf8.encode t).length)) ∧
    ∀ f, (Stream.lines ⟨chunks.map .bytes, failure⟩).2 = some f →
      ∃ before rest t s, chunks = before ++ rest ∧ Utf8.feedAll .ready before = .ok (t, s) ∧
        Breaks s rest failure f := by
  refine ⟨?_, fun f hf => ?_⟩
  · rintro before rest t s f rfl ht hf
    rw [Utf8.feedAll_eq_ok_iff] at ht
    obtain ⟨w, hw, -, hkept⟩ := Utf8.exists_held ht
    refine ⟨hf.lines h ht, w, hw, hkept, ?_⟩
    rintro e rfl
    have hlength : before.flatten.length - s.kept = (Utf8.encode t).length := by
      rw [hw, List.length_append, hkept, Nat.add_sub_cancel]
    rw [Buffer.lines, Buffer.decode, hf.decode ht, hlength]
    rfl
  · obtain ⟨before, rest, t, s, hchunks, ht, hf⟩ := exists_breaks h hf
    exact ⟨before, rest, t, s, hchunks, Utf8.feedAll_eq_ok_iff.mpr ht, hf⟩

theorem lines_handed_over_before_failure_in_character :
    (∀ c ∈ [[0x61, 0x0A, 0x62, 0xE2], [0x82], [0x41, 0x0A]], c ≠ ([] : List UInt8)) ∧
    Stream.lines ⟨[[0x61, 0x0A, 0x62, 0xE2], [0x82], [0x41, 0x0A]].map .bytes, none⟩ =
      ([['a']], some (.malformed ⟨.continuationByte, 0xE2, 0, 2⟩)) ∧
    (Buffer.bytes [0x61, 0x0A, 0x62, 0xE2, 0x82, 0x41, 0x0A]).lines =
      .error ⟨.continuationByte, 0xE2, 3, 2⟩ := by
  have hne : ∀ c ∈ [[0x61, 0x0A, 0x62, 0xE2], [0x82], [0x41, 0x0A]], c ≠ ([] : List UInt8) := by decide
  obtain ⟨hlines, _, -, -, hwhole⟩ := (lines_handed_over_before_failure _ none hne).1
    [[0x61, 0x0A, 0x62, 0xE2], [0x82]] [[0x41, 0x0A]] ['a', '\n', 'b'] _ _ rfl rfl (.chunk rfl)
  exact ⟨hne, hlines, hwhole _ rfl⟩

end Yuml.Source
