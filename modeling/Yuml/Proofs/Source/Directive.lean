import Yuml.Proofs.Outcome
import Yuml.Proofs.Text.Basic
import Yuml.Proofs.Text.Runs
import Yuml.Source.Directive

namespace Yuml

namespace Directive

open Text

/-- The lines that give a directive: blanks may stand around the key and around the value, and some must stand before
the opening brace. -/
def Spells (d : Directive) (line : Text) : Prop :=
  ∃ start beforeKey afterKey beforeValue afterValue ending : Text,
    line = "//" ++ start ++ ['{'] ++ beforeKey ++ d.key ++ afterKey ++ [':'] ++ beforeValue ++ d.value ++ afterValue ++
      ['}'] ++ ending ∧
    start ≠ [] ∧ (∀ s ∈ [start, beforeKey, afterKey, beforeValue, afterValue], AllBlank s) ∧
    IsWordRun d.key ∧ IsWordRun d.value ∧ (ending = [] ∨ ending = ['\n'])

theorem takeWord?_append {before word after rest : Text} {c : Char} (hbefore : AllBlank before) (hword : IsWordRun word)
    (hafter : AllBlank after) (hblank : isBlank c = false) (hc : isWord c = false) :
    takeWord? (before ++ (word ++ (after ++ c :: rest))) = some (word, c :: rest) := by
  obtain ⟨hne, hword⟩ := hword
  have hstart : ∀ d ∈ (word ++ (after ++ c :: rest)).head?, isBlank d = false := by
    obtain ⟨e, es, rfl⟩ := List.exists_cons_of_ne_nil hne
    rintro d ⟨⟩
    exact Bool.eq_false_iff.mpr fun he => Bool.eq_false_iff.mp (isWord_of_isBlank he) (hword e List.mem_cons_self)
  have hstop : ∀ d ∈ (after ++ c :: rest).head?, isWord d = false := by
    cases after with
    | nil =>
      rintro d ⟨⟩
      exact hc
    | cons e es =>
      rintro d ⟨⟩
      exact isWord_of_isBlank (hafter e List.mem_cons_self)
  have hend : ∀ d ∈ (c :: rest).head?, isBlank d = false := by
    rintro d ⟨⟩
    exact hblank
  rw [takeWord?, (span_append hbefore hstart).2, (span_append hword hstop).1, (span_append hword hstop).2,
    (span_append hafter hend).2]
  exact if_neg (mt List.isEmpty_iff.mp hne)

theorem exists_of_takeWord? {s word rest : Text} (h : takeWord? s = some (word, rest)) :
    ∃ before after, s = before ++ (word ++ (after ++ rest)) ∧ AllBlank before ∧ IsWordRun word ∧ AllBlank after := by
  simp only [takeWord?, Option.ite_none_left_eq_some, Option.some.injEq, Prod.mk.injEq] at h
  obtain ⟨hne, rfl, rfl⟩ := h
  refine ⟨s.takeWhile isBlank, ((s.dropWhile isBlank).dropWhile isWord).takeWhile isBlank, ?_,
    fun c hc => List.mem_takeWhile_imp hc, ⟨mt List.isEmpty_iff.mpr hne, fun c hc => List.mem_takeWhile_imp hc⟩,
    fun c hc => List.mem_takeWhile_imp hc⟩
  rw [List.takeWhile_append_dropWhile, List.takeWhile_append_dropWhile, List.takeWhile_append_dropWhile]

theorem spells_of_parse? {line : Text} {d : Directive} (h : parse? line = some d) : d.Spells line := by
  obtain ⟨r, hslashes, h⟩ := Option.bind_eq_some_iff.mp h
  obtain ⟨hblank, h⟩ := guard_bind_eq_some.mp h
  obtain ⟨r₁, hopening, h⟩ := Option.bind_eq_some_iff.mp h
  obtain ⟨⟨key, r₂⟩, htakeKey, h⟩ := Option.bind_eq_some_iff.mp h
  obtain ⟨r₃, hcolon, h⟩ := Option.bind_eq_some_iff.mp h
  obtain ⟨⟨value, r₄⟩, htakeValue, h⟩ := Option.bind_eq_some_iff.mp h
  obtain ⟨ending, hclosing, h⟩ := Option.bind_eq_some_iff.mp h
  obtain ⟨hending, h⟩ := guard_bind_eq_some.mp h
  cases h
  rw [dropPrefix?_eq_some_iff] at hslashes hopening hcolon hclosing
  obtain ⟨beforeKey, afterKey, rfl, hbeforeKey, hkey, hafterKey⟩ := exists_of_takeWord? htakeKey
  obtain ⟨beforeValue, afterValue, rfl, hbeforeValue, hvalue, hafterValue⟩ := exists_of_takeWord? htakeValue
  subst hcolon hclosing
  have hstart : r.takeWhile isBlank ≠ [] := by
    cases r with
    | nil => cases hblank
    | cons c cs =>
      have hc : isBlank c = true := hblank
      rw [List.takeWhile_cons_of_pos hc]
      exact List.cons_ne_nil _ _
  refine ⟨r.takeWhile isBlank, beforeKey, afterKey, beforeValue, afterValue, ending, ?_, hstart, ?_, hkey, hvalue,
    hending⟩
  · rw [hslashes]
    nth_rewrite 1 [← List.takeWhile_append_dropWhile (p := isBlank) (l := r)]
    have hmark : ":".toList = [':'] := rfl
    simp only [hopening, hmark, List.append_assoc]
  · simp only [List.forall_mem_cons]
    exact ⟨fun c hc => List.mem_takeWhile_imp hc, hbeforeKey, hafterKey, hbeforeValue, hafterValue,
      List.forall_mem_nil _⟩

theorem parse?_of_spells {line : Text} {d : Directive} (h : d.Spells line) : parse? line = some d := by
  obtain ⟨start, beforeKey, afterKey, beforeValue, afterValue, ending, rfl, hne, hblanks, hkey, hvalue, hending⟩ := h
  simp only [List.forall_mem_cons] at hblanks
  obtain ⟨hstart, hbeforeKey, hafterKey, hbeforeValue, hafterValue, -⟩ := hblanks
  have hblank (r : Text) : (start ++ '{' :: r).head?.any isBlank = true := by
    obtain ⟨c, cs, rfl⟩ := List.exists_cons_of_ne_nil hne
    exact hstart c List.mem_cons_self
  have hopening (r : Text) : (start ++ '{' :: r).dropWhile isBlank = ['{'] ++ r := by
    refine (span_append hstart ?_).2
    rintro c ⟨⟩
    decide
  have htakeKey (r : Text) : takeWord? (beforeKey ++ (d.key ++ (afterKey ++ ':' :: r))) = some (d.key, ':' :: r) :=
    takeWord?_append hbeforeKey hkey hafterKey (by decide) (by decide)
  have htakeValue : takeWord? (beforeValue ++ (d.value ++ (afterValue ++ '}' :: ending))) = some (d.value, '}' :: ending) :=
    takeWord?_append hbeforeValue hvalue hafterValue (by decide) (by decide)
  have hline : "//" ++ start ++ ['{'] ++ beforeKey ++ d.key ++ afterKey ++ [':'] ++ beforeValue ++ d.value ++ afterValue ++
      ['}'] ++ ending = "//" ++ (start ++ '{' :: (beforeKey ++ (d.key ++ (afterKey ++ ':' :: (beforeValue ++ (d.value ++
      (afterValue ++ '}' :: ending))))))) := by simp
  have hdrop (p r : Text) : dropPrefix? p (p ++ r) = some r := dropPrefix?_eq_some_iff.mpr rfl
  have hcolon (r : Text) : dropPrefix? ":" (':' :: r) = some r := hdrop [':'] r
  have hclosing (r : Text) : dropPrefix? ['}'] ('}' :: r) = some r := hdrop ['}'] r
  rw [hline, parse?, hdrop]
  simp only [Option.bind_eq_bind, Option.bind_some, guard, hblank, if_true, Option.pure_def, hopening, hdrop, htakeKey,
    hcolon, htakeValue, hclosing, if_pos hending]

theorem parse?_exact (line : Text) :
    (∀ d, parse? line = some d ↔ d.Spells line ∧ ∀ d' : Directive, d'.Spells line → d' = d) ∧
      (parse? line = none ↔ ∀ d : Directive, ¬ d.Spells line) := by
  have hread (d : Directive) : parse? line = some d ↔ d.Spells line := ⟨spells_of_parse?, parse?_of_spells⟩
  refine ⟨fun d => ?_, ?_⟩
  · rw [← hread]
    refine ⟨fun h => ⟨h, fun d' hd' => ?_⟩, And.left⟩
    exact Option.some.inj ((parse?_of_spells hd').symm.trans h)
  · rw [Option.eq_none_iff_forall_ne_some]
    exact forall_congr' fun d => not_congr (hread d)

theorem parse?_exact_spread : (Directive.mk "type" "class").Spells "//\t\x7b type\u00A0:\nclass\x7d\n" ∧
    parse? "//\t\x7b type\u00A0:\nclass\x7d\n" = some ⟨"type", "class"⟩ := by
  have hspells : (Directive.mk "type" "class").Spells "//\t\x7b type\u00A0:\nclass\x7d\n" := by
    have hblanks : ∀ s ∈ ["\t", " ", "\u00A0", "\n", ""].map String.toList, s.all isBlank = true := by decide
    refine ⟨"\t", " ", "\u00A0", "\n", [], "\n", by decide, by decide, fun s hs => allBlank_of_all (hblanks s hs), ?_, ?_,
      .inr rfl⟩
    · exact ⟨by decide, List.all_eq_true.mp (by decide)⟩
    · exact ⟨by decide, List.all_eq_true.mp (by decide)⟩
  have hunique (d : Directive) (h : d.Spells "//\t\x7b type\u00A0:\nclass\x7d\n") : d = ⟨"type", "class"⟩ :=
    Option.some.inj ((parse?_of_spells h).symm.trans (parse?_of_spells hspells))
  exact ⟨hspells, ((parse?_exact _).1 _).mpr ⟨hspells, hunique⟩⟩

end Directive

end Yuml
