import Mathlib.Data.List.Basic
import Mathlib.Data.List.Chain
import Mathlib.Data.List.TakeWhile
import Yuml.Notation.Token

namespace Yuml.Notation

/-- How many braces are open after one more character. A closing brace where none is open is an ordinary character. -/
def braceStep (depth : Nat) (c : Char) : Nat :=
  if c = '{' then depth + 1 else if c = '}' then depth - 1 else depth

def braceDepth (s : Text) : Nat :=
  s.foldl braceStep 0

namespace Bracket

theorem closer_ne_brace (b : Bracket) : b.closer ≠ '{' ∧ b.closer ≠ '}' := by
  cases b <;> decide

theorem opened?_opener (b : Bracket) : opened? all b.opener = some b := by
  cases b <;> rfl

variable {bs : List Bracket} {b : Bracket} {c : Char}

theorem opened?_eq_none_iff : opened? bs c = none ↔ c ∉ bs.map opener := by
  simp [opened?]

theorem of_opened? (h : opened? bs c = some b) : b ∈ bs ∧ b.opener = c :=
  ⟨List.mem_of_find?_eq_some h, by simpa using List.find?_some h⟩

end Bracket

def readOn (bs : List Bracket) : Option (Bracket × Nat) → Char → Option (Bracket × Nat)
  | none, c => (Bracket.opened? bs c).map (·, 0)
  | some (b, depth), c => if c = b.closer ∧ depth = 0 then none else some (b, braceStep depth c)

def leftOpen? (bs : List Bracket) (line : Text) : Option Bracket :=
  (line.foldl (readOn bs) none).map (·.1)

theorem takeNode_cons (b : Bracket) (depth : Nat) (c : Char) (cs : Text) :
    takeNode b.closer depth (c :: cs) =
      if c = b.closer ∧ depth = 0 then ([], cs)
      else (c :: (takeNode b.closer (braceStep depth c) cs).1, (takeNode b.closer (braceStep depth c) cs).2) := by
  obtain ⟨hopen, hclose⟩ := b.closer_ne_brace
  rw [takeNode]
  by_cases hleft : c = '{'
  · have hstep : braceStep depth c = depth + 1 := if_pos hleft
    rw [if_pos hleft, if_neg fun h => hopen (h.1.symm.trans hleft), hstep]
  · rw [if_neg hleft]
    by_cases hright : c = '}'
    · have hstep : braceStep depth c = depth - 1 := by rw [braceStep, if_neg hleft, if_pos hright]
      have hne : ¬(c = b.closer ∧ depth = 0) := fun h => hclose (h.1.symm.trans hright)
      rw [if_neg hne, hstep]
      split
      · rfl
      · next hdepth =>
        have hzero : depth = 0 := by
          by_contra hpos
          exact hdepth ⟨hright, hpos⟩
        rw [hzero]
    · have hstep : braceStep depth c = depth := by rw [braceStep, if_neg hleft, if_neg hright]
      rw [if_neg fun h => hright h.1, hstep]

theorem takeNode_reads (bs : List Bracket) (b : Bracket) (depth : Nat) (s : Text) :
    (s = (takeNode b.closer depth s).1 ++ b.closer :: (takeNode b.closer depth s).2 ∧
      s.foldl (readOn bs) (some (b, depth)) = (takeNode b.closer depth s).2.foldl (readOn bs) none) ∨
    (s = (takeNode b.closer depth s).1 ∧ (takeNode b.closer depth s).2 = [] ∧
      ∃ d, s.foldl (readOn bs) (some (b, depth)) = some (b, d)) := by
  induction s generalizing depth with
  | nil => exact .inr ⟨rfl, rfl, depth, rfl⟩
  | cons c cs ih =>
    rw [takeNode_cons, List.foldl_cons, readOn]
    split
    · next h =>
      rw [h.1]
      exact .inl ⟨rfl, rfl⟩
    · refine (ih (braceStep depth c)).imp (fun h => ⟨?_, h.2⟩) fun h => ⟨?_, h.2⟩
      · exact congrArg (c :: ·) h.1
      · exact congrArg (c :: ·) h.1

theorem braceDepth_ne_zero_of_takeNode {b : Bracket} {depth : Nat} {s u v : Text}
    (h : (takeNode b.closer depth s).1 = u ++ b.closer :: v) : u.foldl braceStep depth ≠ 0 := by
  induction s generalizing depth u with
  | nil => cases u <;> cases h
  | cons c cs ih =>
    rw [takeNode_cons] at h
    by_cases hclosed : c = b.closer ∧ depth = 0
    · rw [if_pos hclosed] at h
      cases u <;> cases h
    · rw [if_neg hclosed] at h
      cases u with
      | nil =>
        obtain ⟨rfl, -⟩ := List.cons.inj h
        exact fun hdepth => hclosed ⟨rfl, hdepth⟩
      | cons d u =>
        obtain ⟨rfl, hrest⟩ := List.cons.inj h
        rw [List.foldl_cons]
        exact ih hrest

section Split

variable {bs : List Bracket} {between : Text} (hbetween : ∀ c ∈ between, Bracket.opened? bs c = none)

include hbetween

theorem split_of_plain : split bs between = gap between := by
  have hkept : ∀ c ∈ between, (Bracket.opened? bs c).isNone = true := fun c hc => by rw [hbetween c hc]; rfl
  rw [split]
  split
  · rw [List.takeWhile_eq_self_iff.mpr hkept]
  · next h =>
    rw [List.dropWhile_eq_nil_iff.mpr hkept] at h
    cases h

theorem foldl_readOn_plain : between.foldl (readOn bs) none = none := by
  induction between with
  | nil => rfl
  | cons c cs ih =>
    obtain ⟨hc, hcs⟩ := List.forall_mem_cons.mp hbetween
    rw [List.foldl_cons, readOn, hc]
    exact ih hcs

variable {c : Char} {b : Bracket} (hb : Bracket.opened? bs c = some b) (cs : Text)

include hb

theorem split_append :
    split bs (between ++ c :: cs) =
      gap between ++ .node ⟨b, (takeNode b.closer 0 cs).1⟩ :: split bs (takeNode b.closer 0 cs).2 := by
  have hkept : ∀ c ∈ between, (Bracket.opened? bs c).isNone = true := fun c hc => by rw [hbetween c hc]; rfl
  have hbefore : (between ++ c :: cs).takeWhile (fun c => (Bracket.opened? bs c).isNone) = between := by
    rw [List.takeWhile_append_of_pos hkept, List.takeWhile_cons_of_neg (by rw [hb]; exact Bool.false_ne_true),
      List.append_nil]
  have hafter : (between ++ c :: cs).dropWhile (fun c => (Bracket.opened? bs c).isNone) = c :: cs := by
    rw [List.dropWhile_append_of_pos hkept, List.dropWhile_cons_of_neg (by rw [hb]; exact Bool.false_ne_true)]
  rw [split, hbefore]
  split
  · next h =>
    rw [hafter] at h
    cases h
  · next h =>
    rw [hafter] at h
    cases h
    split
    · next hnone =>
      rw [hb] at hnone
      cases hnone
    · next hsome =>
      rw [hb] at hsome
      cases hsome
      rfl

theorem leftOpen?_append :
    (between ++ c :: cs =
        between ++ b.opener :: (takeNode b.closer 0 cs).1 ++ b.closer :: (takeNode b.closer 0 cs).2 ∧
      leftOpen? bs (between ++ c :: cs) = leftOpen? bs (takeNode b.closer 0 cs).2) ∨
    (between ++ c :: cs = between ++ b.opener :: (takeNode b.closer 0 cs).1 ∧ (takeNode b.closer 0 cs).2 = [] ∧
      leftOpen? bs (between ++ c :: cs) = some b) := by
  have hopened : (between ++ c :: cs).foldl (readOn bs) none = cs.foldl (readOn bs) (some (b, 0)) := by
    rw [List.foldl_append, foldl_readOn_plain hbetween, List.foldl_cons, readOn, hb]
    rfl
  obtain ⟨-, rfl⟩ := Bracket.of_opened? hb
  rw [leftOpen?, hopened, leftOpen?, List.append_assoc]
  refine (takeNode_reads bs b 0 cs).imp (fun ⟨hcs, hread⟩ => ⟨?_, ?_⟩) fun ⟨hcs, hrest, d, hread⟩ => ⟨?_, hrest, ?_⟩
  · exact congrArg (between ++ b.opener :: ·) hcs
  · rw [hread]
  · exact congrArg (between ++ b.opener :: ·) hcs
  · rw [hread]
    rfl

end Split

theorem split_induction (bs : List Bracket) {motive : Text → Prop}
    (plain : ∀ line, (∀ c ∈ line, Bracket.opened? bs c = none) → motive line)
    (node : ∀ between c b cs, (∀ c ∈ between, Bracket.opened? bs c = none) → Bracket.opened? bs c = some b →
      motive (takeNode b.closer 0 cs).2 → motive (between ++ c :: cs)) (line : Text) : motive line := by
  induction line using split.induct bs with
  | case1 line h =>
    exact plain line fun c hc => Option.isNone_iff_eq_none.mp (List.dropWhile_eq_nil_iff.mp h c hc)
  | case2 line c cs h hclosed =>
    have hstop := List.head?_dropWhile_not (fun c => (Bracket.opened? bs c).isNone) line
    simp [h, hclosed] at hstop
  | case3 line c cs h b hb hless ih =>
    have hline := List.takeWhile_append_dropWhile (p := fun c => (Bracket.opened? bs c).isNone) (l := line)
    rw [h] at hline
    rw [← hline]
    refine node _ c b cs (fun d hd => ?_) hb ih
    exact Option.isNone_iff_eq_none.mp (List.mem_takeWhile_imp (p := fun c => (Bracket.opened? bs c).isNone) hd)

theorem splitAt_openers (bs : List Bracket) (line : Text) :
    splitAt (bs.map Bracket.opener) line = .ok (split bs line) := by
  have hbrackets : (bs.map Bracket.opener).filterMap (Bracket.opened? Bracket.all) = bs := by
    rw [List.filterMap_map]
    exact (List.filterMap_congr fun b _ => b.opened?_opener).trans List.filterMap_some
  have hstrange : ((bs.map Bracket.opener).filter fun c => (Bracket.opened? Bracket.all c).isNone) = [] := by
    simp [Bracket.opened?_opener]
  simp only [splitAt, hbrackets, hstrange]
  split
  · next c hmet =>
    obtain ⟨t, -, ht⟩ := List.exists_of_findSome?_eq_some hmet
    cases t with
    | node n => cases ht
    | connector s => exact absurd (List.find?_some ht) Bool.false_ne_true
  · rfl

def Token.isNode : Token → Bool
  | node _ => true
  | connector _ => false

def Token.Closed (bs : List Bracket) : Token → Prop
  | node n => n.bracket ∈ bs ∧ ∀ u v, n.text = u ++ n.bracket.closer :: v → braceDepth u ≠ 0
  | connector s => s ≠ [] ∧ ∀ c ∈ s, c ∉ bs.map Bracket.opener

def Alternate (ts : List Token) : Prop :=
  ts.IsChain fun t u => t.isNode = true ∨ u.isNode = true

theorem print_gap (s : Text) : (gap s).flatMap Token.print = s := by
  cases s with
  | nil => rfl
  | cons c cs => exact List.append_nil _

theorem closed_gap {bs : List Bracket} {s : Text} (h : ∀ c ∈ s, Bracket.opened? bs c = none) :
    ∀ t ∈ gap s, t.Closed bs := by
  cases s with
  | nil => exact fun t ht => nomatch ht
  | cons c cs =>
    intro t ht
    obtain rfl := List.mem_singleton.mp ht
    exact ⟨List.cons_ne_nil c cs, fun d hd => Bracket.opened?_eq_none_iff.mp (h d hd)⟩

theorem alternate_gap (s : Text) : Alternate (gap s) := by
  cases s with
  | nil => exact .nil
  | cons c cs => exact .singleton _

theorem Alternate.gap_append {ts : List Token} (h : Alternate ts) (s : Text) (n : NodeToken) :
    Alternate (gap s ++ .node n :: ts) := by
  refine (alternate_gap s).append (h.cons fun _ _ => .inl rfl) ?_
  rintro t - _ ⟨⟩
  exact .inr rfl

section Tokens

variable (bs : List Bracket) (line : Text)

theorem print_split :
    (split bs line).flatMap Token.print = line ++ ((leftOpen? bs line).map Bracket.closer).toList := by
  induction line using split_induction bs with
  | plain line h =>
    have hread : leftOpen? bs line = none := by rw [leftOpen?, foldl_readOn_plain h]; rfl
    rw [split_of_plain h, print_gap, hread]
    exact (List.append_nil line).symm
  | node between c b cs hbetween hb ih =>
    rw [split_append hbetween hb cs, List.flatMap_append, print_gap, List.flatMap_cons, ih]
    rcases leftOpen?_append hbetween hb cs with ⟨hline, hread⟩ | ⟨hline, hrest, hread⟩
    · rw [hread, hline]
      simp [Token.print]
    · rw [hread, hline, hrest]
      simp [Token.print, leftOpen?]

theorem getLast?_split : ∀ b, leftOpen? bs line = some b → ∃ s, (split bs line).getLast? = some (.node ⟨b, s⟩) := by
  induction line using split_induction bs with
  | plain line h =>
    rw [leftOpen?, foldl_readOn_plain h]
    exact fun b hb => nomatch hb
  | node between c b cs hbetween hb ih =>
    rw [split_append hbetween hb cs]
    rcases leftOpen?_append hbetween hb cs with ⟨-, hread⟩ | ⟨-, hrest, hread⟩
    · intro b' hb'
      obtain ⟨s, hs⟩ := ih b' (hread ▸ hb')
      exact ⟨s, by simp [List.getLast?_cons, hs]⟩
    · rw [hread, hrest, split_of_plain (List.forall_mem_nil _)]
      rintro b' ⟨⟩
      exact ⟨_, List.getLast?_concat⟩

theorem closed_split : ∀ t ∈ split bs line, t.Closed bs := by
  induction line using split_induction bs with
  | plain line h =>
    rw [split_of_plain h]
    exact closed_gap h
  | node between c b cs hbetween hb ih =>
    rw [split_append hbetween hb cs]
    refine List.forall_mem_append.mpr ⟨closed_gap hbetween, List.forall_mem_cons.mpr ⟨?_, ih⟩⟩
    exact ⟨(Bracket.of_opened? hb).1, fun u v h => braceDepth_ne_zero_of_takeNode h⟩

theorem alternate_split : Alternate (split bs line) := by
  induction line using split_induction bs with
  | plain line h =>
    rw [split_of_plain h]
    exact alternate_gap line
  | node between c b cs hbetween hb ih =>
    rw [split_append hbetween hb cs]
    exact ih.gap_append between _

end Tokens

/-- What tokens keep of their line: written one after the other they are the line, and the closer of its last node where
the line leaves that open. -/
structure Lossless (bs : List Bracket) (line : Text) (ts : List Token) : Prop where
  print : ts.flatMap Token.print = line ++ ((leftOpen? bs line).map Bracket.closer).toList
  last : ∀ b, leftOpen? bs line = some b → ∃ s, ts.getLast? = some (.node ⟨b, s⟩)
  closed : ∀ t ∈ ts, t.Closed bs
  alternate : Alternate ts

theorem splitAt_lossless (bs : List Bracket) (line : Text) :
    ∃ ts, splitAt (bs.map Bracket.opener) line = .ok ts ∧ Lossless bs line ts :=
  ⟨split bs line, splitAt_openers bs line, print_split bs line, getLast?_split bs line, closed_split bs line,
    alternate_split bs line⟩

example : split [.bar, .square] "a\x7d|b\x7b|\x7d|->[c\x7b]".toList =
    [.connector "a\x7d".toList, .node ⟨.bar, "b\x7b|\x7d".toList⟩, .connector "->".toList,
      .node ⟨.square, "c\x7b]".toList⟩] ∧
    leftOpen? [.bar, .square] "a\x7d|b\x7b|\x7d|->[c\x7b]".toList = some .square := by
  decide +kernel

end Yuml.Notation
