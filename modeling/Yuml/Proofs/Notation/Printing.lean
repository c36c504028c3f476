import Yuml.Proofs.Notation.Splitting

namespace Yuml.Notation

def Token.Readable (openers : Text) : Token → Prop
  | node n =>
    n.bracket.opener ∈ openers ∧ braceDepth n.text = 0 ∧
      ∀ u v, n.text = u ++ n.bracket.closer :: v → braceDepth u ≠ 0
  | connector s => s ≠ [] ∧ ∀ c ∈ s, c ∉ openers

theorem takeNode_append {b : Bracket} {depth : Nat} {s : Text} (hdepth : s.foldl braceStep depth = 0)
    (hinside : ∀ u v, s = u ++ b.closer :: v → u.foldl braceStep depth ≠ 0) (rest : Text) :
    takeNode b.closer depth (s ++ b.closer :: rest) = (s, rest) := by
  induction s generalizing depth with
  | nil => rw [List.nil_append, takeNode_cons, if_pos ⟨rfl, hdepth⟩]
  | cons c cs ih =>
    have hgoes : ¬(c = b.closer ∧ depth = 0) := by
      rintro ⟨rfl, hzero⟩
      exact hinside [] cs rfl hzero
    have hcs : takeNode b.closer (braceStep depth c) (cs ++ b.closer :: rest) = (cs, rest) :=
      ih hdepth fun u v h => hinside (c :: u) v (congrArg (c :: ·) h)
    rw [List.cons_append, takeNode_cons, if_neg hgoes, hcs]

theorem foldl_takeNode (b : Bracket) (depth : Nat) (s : Text) :
    (takeNode b.closer depth s).1.foldl braceStep depth = 0 ∨ s = (takeNode b.closer depth s).1 := by
  induction s generalizing depth with
  | nil => exact .inr rfl
  | cons c cs ih =>
    rw [takeNode_cons]
    split
    · next h => exact .inl h.2
    · exact (ih (braceStep depth c)).imp_right (congrArg (c :: ·))

section Split

variable {bs : List Bracket}

theorem split_nil : split bs [] = [] :=
  split_of_plain (List.forall_mem_nil _)

theorem split_opener {c : Char} {b : Bracket} (hb : Bracket.opened? bs c = some b) (cs : Text) :
    split bs (c :: cs) = .node ⟨b, (takeNode b.closer 0 cs).1⟩ :: split bs (takeNode b.closer 0 cs).2 :=
  split_append (List.forall_mem_nil _) hb cs

theorem split_plain_append {s line : Text} (hs : ∀ c ∈ s, Bracket.opened? bs c = none)
    (hline : ∀ c ∈ line.head?, (Bracket.opened? bs c).isSome = true) :
    split bs (s ++ line) = gap s ++ split bs line := by
  cases line with
  | nil => rw [List.append_nil, split_of_plain hs, split_nil, List.append_nil]
  | cons c cs =>
    obtain ⟨b, hb⟩ := Option.isSome_iff_exists.mp (hline c rfl)
    rw [split_append hs hb, split_opener hb]

theorem not_node_mem_gap (s : Text) (n : NodeToken) : .node n ∉ gap s := by
  cases s with
  | nil => exact List.not_mem_nil
  | cons c cs => exact fun h => nomatch List.mem_singleton.mp h

theorem depth_of_mem_split {line : Text} (hline : leftOpen? bs line = none) :
    ∀ n, .node n ∈ split bs line → braceDepth n.text = 0 := by
  induction line using split_induction bs with
  | plain line h =>
    rw [split_of_plain h]
    exact fun n hn => absurd hn (not_node_mem_gap line n)
  | node between c b cs hbetween hb ih =>
    rw [split_append hbetween hb cs]
    rcases leftOpen?_append hbetween hb cs with ⟨hclosed, hread⟩ | ⟨-, -, hread⟩
    · have hdepth : braceDepth (takeNode b.closer 0 cs).1 = 0 := by
        refine (foldl_takeNode b 0 cs).resolve_right fun hall => ?_
        have hlength := congrArg List.length hclosed
        have hshort := congrArg List.length hall
        simp only [List.length_append, List.length_cons] at hlength
        omega
      intro n hn
      rcases List.mem_append.mp hn with hn | hn
      · exact absurd hn (not_node_mem_gap between n)
      · rcases List.mem_cons.mp hn with hn | hn
        · cases hn
          exact hdepth
        · exact ih (hread ▸ hline) n hn
    · cases hread.symm.trans hline

end Split

namespace Bracket

def among (openers : Text) : List Bracket :=
  openers.filterMap (opened? all)

variable {openers : Text}

theorem opener_injective {b b' : Bracket} (h : b.opener = b'.opener) : b = b' := by
  have hopened := congrArg (opened? all) h
  rw [opened?_opener, opened?_opener] at hopened
  exact Option.some.inj hopened

theorem mem_among {b : Bracket} : b ∈ among openers ↔ b.opener ∈ openers := by
  rw [among, List.mem_filterMap]
  constructor
  · rintro ⟨c, hc, hb⟩
    rwa [(of_opened? hb).2]
  · exact fun h => ⟨b.opener, h, opened?_opener b⟩

theorem opened?_among {b : Bracket} (h : b.opener ∈ openers) : opened? (among openers) b.opener = some b := by
  cases hopened : opened? (among openers) b.opener with
  | none => exact absurd (List.mem_map_of_mem (mem_among.mpr h)) (opened?_eq_none_iff.mp hopened)
  | some b' => rw [opener_injective (of_opened? hopened).2]

theorem opened?_among_of_not_mem {c : Char} (h : c ∉ openers) : opened? (among openers) c = none := by
  apply opened?_eq_none_iff.mpr
  intro hc
  obtain ⟨b, hb, rfl⟩ := List.mem_map.mp hc
  exact h (mem_among.mp hb)

end Bracket

variable {openers : Text} {ts : List Token}

theorem split_print (halternate : Alternate ts) (hts : ∀ t ∈ ts, t.Readable openers) :
    split (Bracket.among openers) (ts.flatMap Token.print) = ts := by
  induction ts with
  | nil => exact split_nil
  | cons t ts ih =>
    obtain ⟨ht, hmore⟩ := List.forall_mem_cons.mp hts
    have hrest := ih halternate.tail hmore
    cases t with
    | node n =>
      obtain ⟨hopener, hdepth, hinside⟩ := ht
      have hprint : (Token.node n :: ts).flatMap Token.print =
          n.bracket.opener :: (n.text ++ n.bracket.closer :: ts.flatMap Token.print) := by
        simp [Token.print]
      rw [hprint, split_opener (Bracket.opened?_among hopener), takeNode_append hdepth hinside, hrest]
    | connector s =>
      obtain ⟨hs, hplain⟩ := ht
      have hgap : gap s = [.connector s] := if_neg (mt List.isEmpty_iff.mp hs)
      rw [List.flatMap_cons, Token.print, split_plain_append, hrest, hgap]
      · rfl
      · exact fun c hc => Bracket.opened?_among_of_not_mem (hplain c hc)
      · -- the next token is a node, and its opener comes first
        cases ts with
        | nil => simp
        | cons u us =>
          cases u with
          | connector s' => exact absurd halternate.rel (by simp [Token.isNode])
          | node n =>
            rintro c ⟨⟩
            rw [Bracket.opened?_among (hmore _ List.mem_cons_self).1]
            rfl

theorem splitAt_eq_ok_iff {line : Text} :
    splitAt openers line = .ok ts ↔ split (Bracket.among openers) line = ts ∧
      ∀ s, .connector s ∈ ts → ∀ c ∈ s, c ∈ openers → (Bracket.opened? Bracket.all c).isSome = true := by
  have hstrange (c : Char) : (openers.filter fun c => (Bracket.opened? Bracket.all c).isNone).contains c = true ↔
      c ∈ openers ∧ (Bracket.opened? Bracket.all c).isNone = true := by
    rw [List.contains_iff_mem, List.mem_filter]
  unfold splitAt
  dsimp only
  split
  · next c hmet =>
    obtain ⟨t, ht, hfound⟩ := List.exists_of_findSome?_eq_some hmet
    refine ⟨nofun, fun ⟨hsplit, hplain⟩ => ?_⟩
    cases t with
    | node n => cases hfound
    | connector s =>
      obtain ⟨hopener, hnone⟩ := (hstrange c).mp (List.find?_some hfound)
      have hsome := hplain s (hsplit ▸ ht) c (List.mem_of_find?_eq_some hfound) hopener
      rw [Option.isNone_iff_eq_none.mp hnone] at hsome
      cases hsome
  · next hmet =>
    rw [Except.ok.injEq]
    refine ⟨fun hsplit => ⟨hsplit, fun s hs c hc hopener => ?_⟩, And.left⟩
    have hnone := List.findSome?_eq_none_iff.mp hmet (.connector s) (hsplit ▸ hs)
    have hknown := mt (hstrange c).mpr (List.find?_eq_none.mp hnone c hc)
    rw [← Option.not_isNone, Bool.not_eq_true', Bool.eq_false_iff]
    exact fun h => hknown ⟨hopener, h⟩

theorem readable_of_split (h : split (Bracket.among openers) (ts.flatMap Token.print) = ts)
    (hplain : ∀ s, .connector s ∈ ts → ∀ c ∈ s, c ∈ openers → (Bracket.opened? Bracket.all c).isSome = true) :
    ∀ t ∈ ts, t.Readable openers := by
  -- the printed line is as long as its tokens, so that it leaves no node open
  have hread : leftOpen? (Bracket.among openers) (ts.flatMap Token.print) = none := by
    have hprint := print_split (Bracket.among openers) (ts.flatMap Token.print)
    rw [h] at hprint
    cases hopen : leftOpen? (Bracket.among openers) (ts.flatMap Token.print) with
    | none => rfl
    | some b =>
      rw [hopen] at hprint
      exact absurd (List.self_eq_append_right.mp hprint) (List.cons_ne_nil _ _)
  intro t ht
  have hclosed := closed_split (Bracket.among openers) (ts.flatMap Token.print) t (h.symm ▸ ht)
  cases t with
  | node n =>
    exact ⟨Bracket.mem_among.mp hclosed.1, depth_of_mem_split hread n (h.symm ▸ ht), hclosed.2⟩
  | connector s =>
    refine ⟨hclosed.1, fun c hc hopener => ?_⟩
    obtain ⟨b, hb⟩ := Option.isSome_iff_exists.mp (hplain s ht c hc hopener)
    obtain ⟨-, rfl⟩ := Bracket.of_opened? hb
    exact hclosed.2 _ hc (List.mem_map_of_mem (Bracket.mem_among.mpr hopener))

theorem splitAt_print (openers : Text) (ts : List Token) :
    splitAt openers (ts.flatMap Token.print) = .ok ts ↔ Alternate ts ∧ ∀ t ∈ ts, t.Readable openers := by
  rw [splitAt_eq_ok_iff]
  constructor
  · rintro ⟨hsplit, hplain⟩
    exact ⟨hsplit ▸ alternate_split _ _, readable_of_split hsplit hplain⟩
  · rintro ⟨halternate, hts⟩
    exact ⟨split_print halternate hts, fun s hs c hc hopener => absurd hopener ((hts _ hs).2 c hc)⟩

example :
    let ts := [.connector "a\x7d".toList, .node ⟨.square, "b(\x7b|\x7b]\x7d]\x7d\x7dc>".toList⟩, .node ⟨.bar, []⟩,
      .connector "->".toList]
    ts.flatMap Token.print = "a\x7d[b(\x7b|\x7b]\x7d]\x7d\x7dc>]||->".toList ∧
      split (Bracket.among "[|%".toList) (ts.flatMap Token.print) = ts := by
  decide +kernel

end Yuml.Notation
