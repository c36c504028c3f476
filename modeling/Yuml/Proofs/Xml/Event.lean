import Mathlib.Data.List.Basic
import Mathlib.Data.Option.Basic
import Yuml.Proofs.Xml.Character
import Yuml.Xml.Event
import Yuml.Xml.Writer

namespace Yuml.Xml

def textPiece (c : Char) : Piece :=
  if c = '&' then .named "amp"
  else if c = '<' then .named "lt"
  else if c = '>' then .named "gt"
  else .plain c

def valuePiece (c : Char) : Piece :=
  if c = '"' then .named "quot"
  else if c = '\r' ∨ c = '\n' ∨ c = '\t' then .numbered c
  else textPiece c

theorem piecesFrom?_skip (skipped s : Text) : piecesFrom? skipped.length (skipped ++ s) = piecesFrom? 0 s := by
  induction skipped with
  | nil => rfl
  | cons c cs ih => exact ih

theorem piecesFrom?_reference (body : Text) (hbody : ';' ∉ body) {p : Piece}
    (hp : Piece.ofReference? body = some p) (s : Text) :
    piecesFrom? 0 ('&' :: body ++ ';' :: s) = (piecesFrom? 0 s).map (p :: ·) := by
  have htake : (body ++ ';' :: s).takeWhile (· != ';') = body := by
    have hinside : ∀ c ∈ body, (c != ';') = true := by
      intro c hc
      simp only [bne_iff_ne, ne_eq]
      rintro rfl
      exact hbody hc
    rw [List.takeWhile_append_of_pos hinside]
    simp
  have hskip : piecesFrom? (body.length + 1) (body ++ ';' :: s) = piecesFrom? 0 s := by
    simpa using piecesFrom?_skip (body ++ [';']) s
  have hends : (body ++ ';' :: s).contains ';' = true := by simp
  rw [List.cons_append, piecesFrom?, if_pos rfl]
  simp only [htake, hskip, hp, hends]
  cases piecesFrom? 0 s <;> rfl

theorem piecesFrom?_plain {c : Char} (hc : c ≠ '&') (s : Text) :
    piecesFrom? 0 (c :: s) = (piecesFrom? 0 s).map (.plain c :: ·) := by
  rw [piecesFrom?, if_neg hc]

theorem piecesFrom?_escapeChar (c : Char) (s : Text) :
    piecesFrom? 0 (escapeChar c ++ s) = (piecesFrom? 0 s).map (textPiece c :: ·) := by
  unfold escapeChar textPiece
  split_ifs with hamp hlt hgt
  · exact piecesFrom?_reference "amp" (by decide) (by decide +kernel) s
  · exact piecesFrom?_reference "lt" (by decide) (by decide +kernel) s
  · exact piecesFrom?_reference "gt" (by decide) (by decide +kernel) s
  · exact piecesFrom?_plain hamp s

theorem piecesFrom?_escapeAttributeChar (c : Char) (s : Text) :
    piecesFrom? 0 (escapeAttributeChar c ++ s) = (piecesFrom? 0 s).map (valuePiece c :: ·) := by
  unfold escapeAttributeChar valuePiece
  by_cases hquot : c = '"'
  · rw [if_pos hquot, if_pos hquot]
    exact piecesFrom?_reference "quot" (by decide) (by decide +kernel) s
  rw [if_neg hquot, if_neg hquot]
  by_cases hreturn : c = '\r'
  · subst hreturn
    exact piecesFrom?_reference "#13" (by decide) (by decide +kernel) s
  by_cases hline : c = '\n'
  · subst hline
    exact piecesFrom?_reference "#10" (by decide) (by decide +kernel) s
  by_cases htab : c = '\t'
  · subst htab
    exact piecesFrom?_reference "#09" (by decide) (by decide +kernel) s
  simp only [hreturn, hline, htab, or_self, if_false]
  exact piecesFrom?_escapeChar c s

theorem pieces?_escape (s : Text) : pieces? (escape s) = some (s.map textPiece) := by
  induction s with
  | nil => rfl
  | cons c cs ih =>
    rw [pieces?] at ih ⊢
    rw [escape, List.flatMap_cons, piecesFrom?_escapeChar]
    exact congrArg (Option.map (textPiece c :: ·)) ih

theorem pieces?_escapeAttribute (s : Text) : pieces? (escapeAttribute s) = some (s.map valuePiece) := by
  induction s with
  | nil => rfl
  | cons c cs ih =>
    rw [pieces?] at ih ⊢
    rw [escapeAttribute, List.flatMap_cons, piecesFrom?_escapeAttributeChar]
    exact congrArg (Option.map (valuePiece c :: ·)) ih

theorem takePlainName?_append {name : Text} (h : isPlainName name = true) {c : Char}
    (hc : isNameChar c = false) (s : Text) : takePlainName? (name ++ c :: s) = some (name, c :: s) := by
  cases name with
  | nil => cases h
  | cons d ds =>
    rw [isPlainName, Bool.and_eq_true] at h
    have hds : ∀ e ∈ ds, isNameChar e = true := List.all_eq_true.mp h.2
    rw [List.cons_append, takePlainName?, if_pos h.1, List.takeWhile_append_of_pos hds,
      List.dropWhile_append_of_pos hds, List.takeWhile_cons_of_neg (by simp [hc]),
      List.dropWhile_cons_of_neg (by simp [hc]), List.append_nil]

theorem takeName?_append {name : Text} (h : isPlainName name = true) {c : Char}
    (hc : isNameChar c = false) (hcolon : c ≠ ':') (s : Text) :
    takeName? (name ++ c :: s) = some (name, c :: s) := by
  rw [takeName?, takePlainName?_append h hc]
  split
  · next heq => cases heq
  · next heq =>
    cases heq
    exact absurd rfl hcolon
  · next heq =>
    cases heq
    rfl

theorem quote_not_mem_escapeAttribute (s : Text) : '"' ∉ escapeAttribute s := by
  intro h
  obtain ⟨c, -, hc⟩ := List.mem_flatMap.mp h
  unfold escapeAttributeChar escapeChar at hc
  split_ifs at hc with hquote <;> revert hc
  on_goal 8 => exact fun hc => hquote (List.mem_singleton.mp hc).symm
  all_goals decide

theorem takeValue?_escapeAttribute (value s : Text) :
    takeValue? ('"' :: escapeAttribute value ++ '"' :: s) = some (value.map valuePiece, s) := by
  have hinside : ∀ c ∈ escapeAttribute value, (c != '"') = true := by
    intro c hc
    simp only [bne_iff_ne, ne_eq]
    rintro rfl
    exact quote_not_mem_escapeAttribute value hc
  rw [takeValue?, List.cons_append, takeQuoted?, if_pos (.inl rfl), List.dropWhile_append_of_pos hinside,
    List.takeWhile_append_of_pos hinside]
  simp [pieces?_escapeAttribute]

theorem name_ne_mark {name : Text} (h : isPlainName name = true) {c : Char} (hc : isNameStart c = false)
    {s t : Text} : name ++ s ≠ c :: t := by
  cases name with
  | nil => cases h
  | cons d ds =>
    rw [isPlainName, Bool.and_eq_true] at h
    rintro heq
    obtain ⟨rfl, -⟩ := List.cons.inj heq
    rw [h.1] at hc
    cases hc

theorem skipSpace_name {name : Text} (h : isPlainName name = true) (s : Text) :
    skipSpace (name ++ s) = name ++ s := by
  cases name with
  | nil => cases h
  | cons d ds =>
    rw [isPlainName, Bool.and_eq_true] at h
    exact List.dropWhile_cons_of_neg (by simp [not_isSpace_of_isNameChar (isNameChar_of_isNameStart h.1)])

theorem skipSpace_space (s : Text) : skipSpace (' ' :: s) = skipSpace s :=
  rfl

def writtenAttributes (a : Attributes) : List (Text × List Piece) :=
  a.map fun p => (p.1, p.2.map valuePiece)

theorem takeAttributes?_append {s rest : Text} {isEmpty : Bool}
    (hend : ∀ fuel read, takeAttributes? (fuel + 1) read s = some (read, isEmpty, rest))
    {a : Attributes} (hnames : ∀ p ∈ a, isPlainName p.1 = true) {fuel : Nat} (hfuel : a.length < fuel)
    (read : List (Text × List Piece)) (hnodup : (read.map (·.1) ++ a.map (·.1)).Nodup) :
    takeAttributes? fuel read (writeAttributes a ++ s) =
      some (read ++ writtenAttributes a, isEmpty, rest) := by
  induction a generalizing fuel read with
  | nil =>
    obtain ⟨n, rfl⟩ := Nat.exists_eq_succ_of_ne_zero (Nat.ne_of_gt hfuel)
    simpa [writeAttributes, writtenAttributes] using hend n read
  | cons p a ih =>
    obtain ⟨n, rfl⟩ := Nat.exists_eq_succ_of_ne_zero (Nat.ne_of_gt (Nat.zero_lt_of_lt hfuel))
    have hname := hnames p List.mem_cons_self
    have hnew : read.any (·.1 = p.1) = false := by
      rw [List.any_eq_false]
      intro q hq heq
      exact (List.nodup_append.mp hnodup).2.2 q.1 (List.mem_map_of_mem hq) p.1 List.mem_cons_self
        (of_decide_eq_true heq)
    have hrest := ih (fun q hq => hnames q (List.mem_cons_of_mem _ hq)) (Nat.lt_of_succ_lt_succ hfuel)
      (read ++ [(p.1, p.2.map valuePiece)]) (by simpa using hnodup)
    have hwritten : writeAttributes (p :: a) ++ s = ' ' :: (p.1 ++ '=' :: ('"' :: escapeAttribute p.2 ++
        '"' :: (writeAttributes a ++ s))) := by
      simp [writeAttributes]
    rw [hwritten, takeAttributes?, skipSpace_space, skipSpace_name hname]
    split
    · next heq => exact absurd heq (name_ne_mark hname (by decide))
    · next heq => exact absurd heq (name_ne_mark hname (by decide))
    · rw [takeName?_append hname (by decide) (by decide)]
      have hspace : (' ' :: (p.1 ++ '=' :: ('"' :: escapeAttribute p.2 ++ '"' :: (writeAttributes a ++ s)))).head?.any
          isSpace = true := rfl
      have hvalue := takeValue?_escapeAttribute p.2 (writeAttributes a ++ s)
      have hequals (t : Text) : Text.dropPrefix? "=".toList (skipSpace ('=' :: t)) = some t := rfl
      have hquote (t u : Text) : skipSpace ('"' :: t ++ u) = '"' :: t ++ u := rfl
      simp only [guard, hspace, if_true, Option.pure_def, Option.bind_eq_bind, Option.bind_some, hnew,
        Bool.not_false, hequals, hquote, hvalue]
      rw [hrest, List.append_assoc]
      rfl

structure Attributes.WellFormed (a : Attributes) : Prop where
  plain : ∀ p ∈ a, isPlainName p.1 = true
  nodup : (a.map (·.1)).Nodup
  legal : ∀ p ∈ a, Legal p.2

theorem takeName?_tag {name : Text} (h : isPlainName name = true) (a : Attributes) {c : Char}
    (hc : c = ' ' ∨ c = '>') (s : Text) :
    takeName? (name ++ (writeAttributes a ++ c :: s)) = some (name, writeAttributes a ++ c :: s) := by
  cases a with
  | nil =>
    rcases hc with rfl | rfl
    · exact takeName?_append h (by decide) (by decide) s
    · exact takeName?_append h (by decide) (by decide) s
  | cons p a =>
    have hspace : writeAttributes (p :: a) ++ c :: s =
        ' ' :: (p.1 ++ "=\"".toList ++ escapeAttribute p.2 ++ ['"'] ++ writeAttributes a ++ c :: s) := by
      simp [writeAttributes]
    rw [hspace]
    exact takeName?_append h (by decide) (by decide) _

theorem takeStartTag?_open {name : Text} (h : isPlainName name = true) {a : Attributes}
    (ha : Attributes.WellFormed a) {fuel : Nat} (hfuel : a.length < fuel) (s : Text) :
    takeStartTag? fuel (name ++ (writeAttributes a ++ '>' :: s)) =
      some ([.opening name (writtenAttributes a)], true, s) := by
  have hend (n : Nat) (read : List (Text × List Piece)) :
      takeAttributes? (n + 1) read ('>' :: s) = some (read, false, s) := rfl
  rw [takeStartTag?, takeName?_tag h a (.inr rfl)]
  simp only [Option.bind_eq_bind, Option.bind_some,
    takeAttributes?_append hend ha.plain hfuel [] (by simpa using ha.nodup)]
  rfl

theorem takeStartTag?_empty {name : Text} (h : isPlainName name = true) {a : Attributes}
    (ha : Attributes.WellFormed a) {fuel : Nat} (hfuel : a.length < fuel) (s : Text) :
    takeStartTag? fuel (name ++ (writeAttributes a ++ ' ' :: '/' :: '>' :: s)) =
      some ([.opening name (writtenAttributes a), .closing name], false, s) := by
  have hend (n : Nat) (read : List (Text × List Piece)) :
      takeAttributes? (n + 1) read (' ' :: '/' :: '>' :: s) = some (read, true, s) := rfl
  rw [takeStartTag?, takeName?_tag h a (.inl rfl)]
  simp only [Option.bind_eq_bind, Option.bind_some,
    takeAttributes?_append hend ha.plain hfuel [] (by simpa using ha.nodup)]
  rfl

theorem takeEndTag?_append {name : Text} (h : isPlainName name = true) (s : Text) :
    takeEndTag? (name ++ '>' :: s) = some (name, s) := by
  rw [takeEndTag?, takeName?_append h (by decide) (by decide)]
  rfl

end Yuml.Xml
