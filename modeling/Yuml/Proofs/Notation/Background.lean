import Yuml.Notation.Label
import Yuml.Proofs.Outcome
import Yuml.Proofs.Text.Basic
import Yuml.Proofs.Text.Runs
import Yuml.Proofs.Text.Trimmed

namespace Yuml.Notation

open Text (AllBlank isBlank)

theorem suffix?_eq_some_iff {s before colour : Text} :
    suffix? s = some (before, colour) ↔
      ∃ inside blanks, s = before ++ ('{' :: inside ++ '}' :: blanks) ∧ '{' ∉ inside ∧ background? inside = some colour ∧
        ∀ c ∈ blanks, Text.isBlank c = true := by
  constructor
  · intro h
    unfold suffix? at h
    split at h
    · next r hr =>
      split at h
      · next front hfront =>
        obtain ⟨c, hc, heq⟩ := Option.map_eq_some_iff.mp h
        cases heq
        have hs : s.reverse = s.reverse.takeWhile Text.isBlank ++ '}' :: r := by
          rw [← hr, List.takeWhile_append_dropWhile]
        have hsplit : r = r.takeWhile (· != '{') ++ '{' :: front := by
          rw [← hfront, List.takeWhile_append_dropWhile]
        have hother : '{' ∉ (r.takeWhile (· != '{')).reverse := by
          intro hmem
          have hne := List.mem_takeWhile_imp (List.mem_reverse.mp hmem)
          simp at hne
        have hblank : ∀ c ∈ (s.reverse.takeWhile Text.isBlank).reverse, Text.isBlank c = true :=
          fun c hmem => List.mem_takeWhile_imp (List.mem_reverse.mp hmem)
        refine ⟨_, _, ?_, hother, hc, hblank⟩
        have hline := congrArg List.reverse hs
        generalize s.reverse.takeWhile Text.isBlank = blanks at hline
        generalize r.takeWhile (· != '{') = inside at hsplit
        simpa [hsplit] using hline
      · cases h
    · cases h
  · rintro ⟨inside, blanks, rfl, hinside, hcolour, hblanks⟩
    have hback : (before ++ ('{' :: inside ++ '}' :: blanks)).reverse = blanks.reverse ++ '}' ::
        (inside.reverse ++ '{' :: before.reverse) := by simp
    have hblank : ∀ c ∈ blanks.reverse, Text.isBlank c = true := fun c hc => hblanks c (List.mem_reverse.mp hc)
    have hother : ∀ c ∈ inside.reverse, (c != '{') = true :=
      fun c hc => bne_iff_ne.mpr (ne_of_mem_of_not_mem (List.mem_reverse.mp hc) hinside)
    have hclosing : Text.isBlank '}' = false := by decide
    unfold suffix?
    rw [hback, List.dropWhile_append_of_pos hblank, List.dropWhile_cons_of_neg (by simp [hclosing])]
    simp [List.dropWhile_append_of_pos hother, List.takeWhile_append_of_pos hother, hcolour]

theorem suffix?_append {s before colour : Text} (h : suffix? s = some (before, colour)) (front : Text) {back : Text}
    (hback : ∀ c ∈ back, Text.isBlank c = true) : suffix? (front ++ s ++ back) = some (front ++ before, colour) := by
  obtain ⟨inside, blanks, rfl, hinside, hcolour, hblanks⟩ := suffix?_eq_some_iff.mp h
  apply suffix?_eq_some_iff.mpr
  refine ⟨inside, blanks ++ back, by simp, hinside, hcolour, ?_⟩
  exact List.forall_mem_append.mpr ⟨hblanks, hback⟩

theorem suffix?_trim {s before colour : Text} (h : suffix? s = some (before, colour)) :
    suffix? (Text.trim s) = some (before.dropWhile Text.isBlank, colour) := by
  obtain ⟨inside, blanks, rfl, hinside, hcolour, hblanks⟩ := suffix?_eq_some_iff.mp h
  have hopening : ('{' :: inside ++ ['}']).dropWhile Text.isBlank = '{' :: inside ++ ['}'] :=
    List.dropWhile_cons_of_neg (by decide)
  have hfront : (before ++ ('{' :: inside ++ ['}'])).dropWhile Text.isBlank =
      before.dropWhile Text.isBlank ++ ('{' :: inside) ++ ['}'] := by
    rw [List.dropWhile_append, hopening]
    split
    · next hempty => simp [List.isEmpty_iff.mp hempty]
    · simp
  have htrim : Text.trim (before ++ ('{' :: inside ++ '}' :: blanks)) =
      before.dropWhile Text.isBlank ++ ('{' :: inside) ++ ['}'] := by
    have hsplit : before ++ ('{' :: inside ++ '}' :: blanks) = before ++ ('{' :: inside ++ ['}']) ++ blanks := by simp
    rw [hsplit, Text.trim, Text.trimBy_append_right _ hblanks, Text.trimBy_eq_rdropWhile, hfront,
      List.rdropWhile_concat_neg _ _ _ (by decide)]
  apply suffix?_eq_some_iff.mpr
  exact ⟨inside, [], by rw [htrim, List.append_assoc], hinside, hcolour, List.forall_mem_nil _⟩

theorem splitStyle_trim (s : Text) : splitStyle (Text.trim s) = splitStyle s := by
  unfold splitStyle
  cases hsuffix : suffix? s with
  | some found =>
    obtain ⟨before, colour⟩ := found
    rw [suffix?_trim hsuffix]
    simp only [Text.trim, Text.trimBy_dropWhile]
  | none =>
    obtain ⟨front, back, hs, -, hback⟩ := Text.exists_trimBy Text.isBlank s
    have hnone : suffix? (Text.trim s) = none := by
      rw [Option.eq_none_iff_forall_ne_some]
      rintro ⟨before, colour⟩ hfound
      have hsome := suffix?_append hfound front hback
      rw [Text.trim, ← hs, hsuffix] at hsome
      cases hsome
    rw [hnone]
    simp only [Text.trim_trim]

theorem isColour_of_isBlank {c : Char} (h : isBlank c = true) : isColour c = false := by
  rw [isColour, Text.isWord_of_isBlank h, Bool.false_or, beq_eq_false_iff_ne]
  rintro rfl
  exact absurd h (by decide)

theorem skipBlanks_append {blanks s : Text} (h : AllBlank blanks) (hs : ∀ c ∈ s.head?, isBlank c = false) :
    skipBlanks (blanks ++ s) = s :=
  (Text.span_append h hs).2

def NamesColour (colour inside : Text) : Prop :=
  ∃ beforeName afterName beforeColour afterColour : Text,
    inside = beforeName ++ "bg".toList ++ afterName ++ [':'] ++ beforeColour ++ colour ++ afterColour ∧
    (∀ s ∈ [beforeName, afterName, beforeColour, afterColour], AllBlank s) ∧
    colour ≠ [] ∧ ∀ c ∈ colour, isColour c = true

def Suffixed (before colour s : Text) : Prop :=
  ∃ inside blanks : Text, s = before ++ ['{'] ++ inside ++ ['}'] ++ blanks ∧ NamesColour colour inside ∧ AllBlank blanks

section Background

variable {inside colour s before : Text}

theorem namesColour_of_background? (h : background? inside = some colour) : NamesColour colour inside := by
  obtain ⟨r, hname, h⟩ := Option.bind_eq_some_iff.mp h
  obtain ⟨r', hcolon, h⟩ := Option.bind_eq_some_iff.mp h
  obtain ⟨hfound, h⟩ := guard_bind_eq_some.mp h
  cases h
  rw [Text.dropPrefix?_eq_some_iff] at hname hcolon
  rw [Bool.and_eq_true, Bool.not_eq_true', List.isEmpty_eq_false_iff, List.isEmpty_iff] at hfound
  obtain ⟨hne, hafter⟩ := hfound
  have hsplit (t : Text) : t.takeWhile isBlank ++ skipBlanks t = t := List.takeWhile_append_dropWhile
  have hblank (t : Text) : AllBlank (t.takeWhile isBlank) := fun c hc => List.mem_takeWhile_imp hc
  refine ⟨inside.takeWhile isBlank, r.takeWhile isBlank, r'.takeWhile isBlank, (skipBlanks r').dropWhile isColour, ?_, ?_,
    hne, fun c hc => List.mem_takeWhile_imp hc⟩
  · calc inside
        = inside.takeWhile isBlank ++ ("bg".toList ++ (r.takeWhile isBlank ++ (":".toList ++ r'))) := by
          rw [← hcolon, hsplit, ← hname, hsplit]
      _ = _ := by
          nth_rewrite 1 [← hsplit r', ← List.takeWhile_append_dropWhile (p := isColour) (l := skipBlanks r')]
          simp
  · simp only [List.forall_mem_cons]
    exact ⟨hblank _, hblank _, hblank _, List.dropWhile_eq_nil_iff.mp hafter, List.forall_mem_nil _⟩

theorem background?_of_namesColour (h : NamesColour colour inside) : background? inside = some colour := by
  obtain ⟨beforeName, afterName, beforeColour, afterColour, rfl, hblanks, hne, hcolour⟩ := h
  simp only [List.forall_mem_cons] at hblanks
  obtain ⟨hbeforeName, hafterName, hbeforeColour, hafterColour, -⟩ := hblanks
  have hinside : beforeName ++ "bg".toList ++ afterName ++ [':'] ++ beforeColour ++ colour ++ afterColour =
      beforeName ++ ("bg".toList ++ (afterName ++ (":".toList ++ (beforeColour ++ (colour ++ afterColour))))) := by simp
  have hname (r : Text) : skipBlanks (beforeName ++ ("bg".toList ++ r)) = "bg".toList ++ r :=
    skipBlanks_append hbeforeName (by rintro c ⟨⟩; decide)
  have hcolon (r : Text) : skipBlanks (afterName ++ (":".toList ++ r)) = ":".toList ++ r :=
    skipBlanks_append hafterName (by rintro c ⟨⟩; decide)
  have hstart : skipBlanks (beforeColour ++ (colour ++ afterColour)) = colour ++ afterColour := by
    refine skipBlanks_append hbeforeColour ?_
    obtain ⟨d, ds, rfl⟩ := List.exists_cons_of_ne_nil hne
    rintro c ⟨⟩
    exact Bool.eq_false_iff.mpr fun hd => Bool.eq_false_iff.mp (isColour_of_isBlank hd) (hcolour d List.mem_cons_self)
  obtain ⟨htake, hdrop⟩ := Text.span_append hcolour fun c hc =>
    isColour_of_isBlank (hafterColour c (List.mem_of_mem_head? hc))
  have hend : skipBlanks afterColour = [] := List.dropWhile_eq_nil_iff.mpr hafterColour
  have hprefix (p r : Text) : Text.dropPrefix? p (p ++ r) = some r := Text.dropPrefix?_eq_some_iff.mpr rfl
  rw [hinside, background?, hname]
  simp only [Option.bind_eq_bind, Option.bind_some, hprefix, hcolon, hstart, htake, hdrop, hend, guard,
    List.isEmpty_eq_false_iff.mpr hne, List.isEmpty_nil, Bool.not_false, Bool.and_self, if_true, Option.pure_def]

theorem NamesColour.brace_not_mem (h : NamesColour colour inside) : '{' ∉ inside := by
  obtain ⟨beforeName, afterName, beforeColour, afterColour, rfl, hblanks, -, hcolour⟩ := h
  simp only [List.forall_mem_cons] at hblanks
  obtain ⟨hbeforeName, hafterName, hbeforeColour, hafterColour, -⟩ := hblanks
  have hblank {t : Text} (ht : AllBlank t) : '{' ∉ t := fun hmem => absurd (ht _ hmem) (by decide)
  have hother : '{' ∉ colour := fun hmem => absurd (hcolour _ hmem) (by decide)
  simp [hblank hbeforeName, hblank hafterName, hblank hbeforeColour, hblank hafterColour, hother]

theorem suffix?_eq_some_iff_suffixed : suffix? s = some (before, colour) ↔ Suffixed before colour s := by
  rw [suffix?_eq_some_iff]
  constructor
  · rintro ⟨inside, blanks, rfl, -, hcolour, hblanks⟩
    exact ⟨inside, blanks, by simp, namesColour_of_background? hcolour, hblanks⟩
  · rintro ⟨inside, blanks, rfl, hinside, hblanks⟩
    exact ⟨inside, blanks, by simp, hinside.brace_not_mem, background?_of_namesColour hinside, hblanks⟩

theorem splitStyle_of_suffixed (h : Suffixed before colour s) : splitStyle s = (Text.trim before, some colour) := by
  rw [splitStyle, suffix?_eq_some_iff_suffixed.mpr h]

theorem splitStyle_of_not_suffixed (h : ∀ before colour, ¬Suffixed before colour s) :
    splitStyle s = (Text.trim s, none) := by
  have hnone : suffix? s = none :=
    Option.eq_none_iff_forall_ne_some.mpr fun found hfound =>
      h found.1 found.2 (suffix?_eq_some_iff_suffixed.mp hfound)
  rw [splitStyle, hnone]

theorem Suffixed.unique {before' colour' : Text} (h : Suffixed before colour s) (h' : Suffixed before' colour' s) :
    before' = before ∧ colour' = colour := by
  have hsame := (suffix?_eq_some_iff_suffixed.mpr h').symm.trans (suffix?_eq_some_iff_suffixed.mpr h)
  exact Prod.mk.inj (Option.some.inj hsame)

end Background

theorem splitStyle_exact (s : Text) :
    (∀ colour, (splitStyle s).2 = some colour ↔ ∃ before, Suffixed before colour s) ∧
    (∀ before colour, Suffixed before colour s →
      splitStyle s = (Text.trim before, some colour) ∧
      (∀ before' colour', Suffixed before' colour' s → before' = before ∧ colour' = colour) ∧
      ∀ earlier colour', Suffixed earlier colour' before →
        splitStyle (Text.trim before) = (Text.trim earlier, some colour')) ∧
    ((∀ before colour, ¬Suffixed before colour s) → splitStyle s = (Text.trim s, none)) := by
  refine ⟨fun colour => ⟨fun h => ?_, ?_⟩, fun before colour h => ?_, splitStyle_of_not_suffixed⟩
  · cases hsuffix : suffix? s with
    | none =>
      rw [splitStyle, hsuffix] at h
      cases h
    | some found =>
      rw [splitStyle, hsuffix] at h
      cases h
      exact ⟨found.1, suffix?_eq_some_iff_suffixed.mp hsuffix⟩
  · rintro ⟨before, h⟩
    rw [splitStyle_of_suffixed h]
  · refine ⟨splitStyle_of_suffixed h, fun _ _ => h.unique, fun earlier colour' hearlier => ?_⟩
    rw [splitStyle_trim, splitStyle_of_suffixed hearlier]

theorem splitStyle_exact_doubled :
    Suffixed "Order \x7bbg:red\x7d " "#0f0" "Order \x7bbg:red\x7d \x7b bg\t:\u00A0#0f0\n\x7d \n" ∧
      Suffixed "Order " "red" "Order \x7bbg:red\x7d " ∧
      splitStyle "Order \x7bbg:red\x7d \x7b bg\t:\u00A0#0f0\n\x7d \n" = ("Order \x7bbg:red\x7d".toList, some "#0f0".toList) ∧
      splitStyle "Order \x7bbg:red\x7d" = ("Order".toList, some "red".toList) := by
  have hblank : ∀ s ∈ ["", " ", "\t", "\u00A0", "\n", " \n"].map String.toList, s.all Text.isBlank = true := by decide
  have hlast : Suffixed "Order \x7bbg:red\x7d " "#0f0" "Order \x7bbg:red\x7d \x7b bg\t:\u00A0#0f0\n\x7d \n" := by
    refine ⟨" bg\t:\u00A0#0f0\n", " \n", by decide, ⟨" ", "\t", "\u00A0", "\n", by decide, fun s hs => ?_, by decide, ?_⟩, ?_⟩
    · exact Text.allBlank_of_all (hblank s (by revert s; decide))
    · exact List.all_eq_true.mp (by decide)
    · exact Text.allBlank_of_all (by decide)
  have hfirst : Suffixed "Order " "red" "Order \x7bbg:red\x7d " := by
    refine ⟨"bg:red", " ", by decide, ⟨"", "", "", "", by decide, fun s hs => ?_, by decide, ?_⟩, ?_⟩
    · exact Text.allBlank_of_all (hblank s (by revert s; decide))
    · exact List.all_eq_true.mp (by decide)
    · exact Text.allBlank_of_all (by decide)
  obtain ⟨hread, -, hagain⟩ := (splitStyle_exact _).2.1 _ _ hlast
  exact ⟨hlast, hfirst, hread, hagain _ _ hfirst⟩

end Yuml.Notation
