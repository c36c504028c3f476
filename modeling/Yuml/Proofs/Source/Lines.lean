import Yuml.Proofs.Outcome
import Yuml.Source.Lines

namespace Yuml.Text

variable {p : Char → Bool}

theorem pieces_ne_nil (s : Text) : pieces p s ≠ [] := by
  cases s with
  | nil => simp [pieces]
  | cons c cs =>
    simp only [pieces]
    split
    · simp
    · split <;> simp

theorem pieces_cons_sep {c : Char} (hc : p c = true) (s : Text) :
    pieces p (c :: s) = [] :: pieces p s := by
  simp [pieces, hc]

theorem pieces_cons_letter {c : Char} (hc : p c = false) {s w : Text} {ws : List Text}
    (hs : pieces p s = w :: ws) : pieces p (c :: s) = (c :: w) :: ws := by
  simp [pieces, hc, hs]

theorem pieces_append (s t : Text) :
    pieces p (s ++ t) = (pieces p s).dropLast ++ pieces p ((pieces p s).getLastD [] ++ t) := by
  induction s with
  | nil => simp [pieces]
  | cons c cs ih =>
    obtain ⟨w, ws, hw⟩ := List.exists_cons_of_ne_nil (pieces_ne_nil (p := p) cs)
    rw [hw] at ih
    cases hc : p c with
    | true => simp [pieces_cons_sep hc, hw, ih]
    | false =>
      cases ws with
      | nil =>
        obtain ⟨v, vs, hv⟩ := List.exists_cons_of_ne_nil (pieces_ne_nil (p := p) (w ++ t))
        have hcs : pieces p (cs ++ t) = v :: vs := by simpa [hv] using ih
        have hwt : pieces p (c :: (w ++ t)) = (c :: v) :: vs := pieces_cons_letter hc hv
        rw [List.cons_append, pieces_cons_letter hc hcs, pieces_cons_letter hc hw]
        simp [hwt]
      | cons v vs =>
        have hcs : pieces p (cs ++ t) = w :: ((v :: vs).dropLast ++
            pieces p ((v :: vs).getLastD [] ++ t)) := by simpa using ih
        rw [List.cons_append, pieces_cons_letter hc hcs, pieces_cons_letter hc hw]
        simp

theorem pieces_eq_singleton {s : Text} (h : ∀ c ∈ s, p c = false) : pieces p s = [s] := by
  induction s with
  | nil => rfl
  | cons c cs ih =>
    exact pieces_cons_letter (h c (by simp)) (ih fun d hd => h d (List.mem_cons_of_mem _ hd))

theorem not_sep_of_mem_pieces {s w : Text} (hw : w ∈ pieces p s) : ∀ c ∈ w, p c = false := by
  induction s generalizing w with
  | nil =>
    obtain rfl : w = [] := by simpa [pieces] using hw
    simp
  | cons c cs ih =>
    cases hc : p c with
    | true =>
      rw [pieces_cons_sep hc] at hw
      rcases List.mem_cons.mp hw with rfl | hw
      · simp
      · exact ih hw
    | false =>
      obtain ⟨v, vs, hv⟩ := List.exists_cons_of_ne_nil (pieces_ne_nil (p := p) cs)
      rw [pieces_cons_letter hc hv] at hw
      rw [hv] at ih
      rcases List.mem_cons.mp hw with rfl | hw
      · intro d hd
        rcases List.mem_cons.mp hd with rfl | hd
        · exact hc
        · exact ih (by simp) d hd
      · exact ih (List.mem_cons_of_mem _ hw)

end Yuml.Text

namespace Yuml.Source

def IsOneLine (s : Text) : Prop :=
  ∀ c ∈ s, isLineEnd c = false

theorem lines_append (s t : Text) :
    lines (s ++ t) = (splitLast s).1 ++ lines ((splitLast s).2 ++ t) :=
  Text.pieces_append s t

theorem lines_eq_splitLast (s : Text) : lines s = (splitLast s).1 ++ [(splitLast s).2] := by
  have h : lines s ≠ [] := Text.pieces_ne_nil s
  rw [splitLast, List.getLastD_eq_getLast?, List.getLast?_eq_some_getLast h]
  exact (List.dropLast_concat_getLast h).symm

theorem splitLast_oneLine (s : Text) : IsOneLine (splitLast s).2 := by
  have h : (splitLast s).2 ∈ lines s := by rw [lines_eq_splitLast]; simp
  exact Text.not_sep_of_mem_pieces h

theorem splitLast_of_oneLine {s : Text} (h : IsOneLine s) : splitLast s = ([], s) := by
  have hs : lines s = [s] := Text.pieces_eq_singleton h
  simp [splitLast, hs]

theorem splitLast_append (s t : Text) :
    splitLast (s ++ t) = ((splitLast s).1 ++ (splitLast ((splitLast s).2 ++ t)).1,
      (splitLast ((splitLast s).2 ++ t)).2) := by
  have h : lines ((splitLast s).2 ++ t) ≠ [] := Text.pieces_ne_nil _
  ext1
  · simp only [splitLast, lines_append s t]
    exact List.dropLast_append_of_ne_nil h
  · rw [splitLast, lines_append]
    simp only [splitLast, List.getLastD_eq_getLast?] at h ⊢
    rw [List.getLast?_append, List.getLast?_eq_some_getLast h]
    rfl

theorem oneLine_of_mem_lines {s l : Text} (h : l ∈ lines s) : IsOneLine l :=
  Text.not_sep_of_mem_pieces h

theorem oneLine_feed {k k' : Carry} {c : Chunk} {done : List Text} (h : k.feed c = .ok (done, k')) :
    ∀ l ∈ done, IsOneLine l := by
  have hdone (s : Text) : ∀ l ∈ (splitLast s).1, IsOneLine l := fun l hl =>
    oneLine_of_mem_lines ((List.dropLast_sublist _).subset hl)
  cases c with
  | text s =>
    cases h
    exact hdone _
  | bytes bs =>
    obtain ⟨_, -, h⟩ := Except.bind_eq_ok.mp h
    cases h
    exact hdone _

theorem oneLine_readFrom (k : Carry) (failure : Option Text) (chunks : List Chunk) :
    ∀ l ∈ (readFrom k failure chunks).1, IsOneLine l := by
  have hend (k : Carry) : ∀ l ∈ (readFrom.atEnd k).1, IsOneLine l := by
    unfold readFrom.atEnd
    split
    · exact fun _ hl => nomatch hl
    · next last hlast =>
      obtain ⟨_, -, hlines⟩ := Except.bind_eq_ok.mp hlast
      cases hlines
      exact fun l hl => oneLine_of_mem_lines hl
  induction chunks generalizing k with
  | nil =>
    cases failure with
    | some reason => exact fun _ hl => nomatch hl
    | none => exact hend k
  | cons c cs ih =>
    unfold readFrom
    split
    · exact hend k
    · split
      · exact fun _ hl => nomatch hl
      · next done k' hfeed => exact List.forall_mem_append.mpr ⟨oneLine_feed hfeed, ih k'⟩

theorem oneLine_input (input : Input) : ∀ l ∈ input.lines.1, IsOneLine l := by
  cases input with
  | stream s => exact oneLine_readFrom _ _ _
  | buffer b =>
    unfold Input.lines
    dsimp only
    split
    · next ls hls =>
      obtain ⟨s, -, rfl⟩ := Except.map_eq_ok.mp hls
      exact fun l hl => oneLine_of_mem_lines hl
    · exact fun _ hl => nomatch hl

end Yuml.Source
