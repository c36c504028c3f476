import Mathlib.Data.Option.Basic
import Yuml.Proofs.Notation.Legible
import Yuml.Proofs.Notation.Reading
import Yuml.Proofs.Text.Trimmed

namespace Yuml.Notation

def Headed (word rest text : Text) : Prop :=
  ∃ name blanks, text = name ++ blanks ++ ':' :: rest ∧ name.map Char.toLower = word ∧
    ∀ c ∈ blanks, Text.isBlank c = true

def firstCompartment (text : Text) : Text :=
  (Text.trim (text.takeWhile (· != '|'))).map fun c => if c = ';' then '\n' else c

/-- What a node token stands for in a diagram of a kind: a role, and the text that tells it from others of the role. -/
inductive Denotes (k : DiagramKind) (t : NodeToken) : Role → Text → Prop
  | note {rest : Text} (hk : k ≠ .activity) (h : Headed "note" rest t.bare) : Denotes k t .note (Text.trim rest)
  | record (hk : k = .classes) (hnote : ∀ rest, ¬Headed "note" rest t.bare) :
      Denotes k t .thing (firstCompartment t.bare)
  | package (hk : k = .package) (hnote : ∀ rest, ¬Headed "note" rest t.bare) : Denotes k t .thing t.bare
  | actor (hk : k = .useCases) (hnote : ∀ rest, ¬Headed "note" rest t.bare) (ht : t.bracket = .square) :
      Denotes k t .actor t.bare
  | useCase (hk : k = .useCases) (hnote : ∀ rest, ¬Headed "note" rest t.bare) (ht : t.bracket ≠ .square) :
      Denotes k t .thing t.bare
  | component {rest : Text} (hk : k = .deployment) (h : Headed "component" rest t.bare)
      (hline : '\n' ∉ skipBlanks rest) : Denotes k t .component (Text.trim rest)
  | device (hk : k = .deployment) (hnote : ∀ rest, ¬Headed "note" rest t.bare)
      (hcomponent : ∀ rest, Headed "component" rest t.bare → '\n' ∈ skipBlanks rest) : Denotes k t .thing t.bare
  | decision (hk : k = .activity) (ht : t.bracket = .angle) : Denotes k t .decision t.bare
  | bar (hk : k = .activity) (ht : t.bracket = .bar) : Denotes k t .bar t.bare
  | start (hk : k = .state ∨ k = .activity ∧ t.bracket ≠ .angle ∧ t.bracket ≠ .bar) (h : t.bare = "start".toList) :
      Denotes k t .start []
  | final (hk : k = .state ∨ k = .activity ∧ t.bracket ≠ .angle ∧ t.bracket ≠ .bar) (h : t.bare = "end".toList) :
      Denotes k t .final []
  | step (hk : k = .state ∧ (∀ rest, ¬Headed "note" rest t.bare) ∨
        k = .activity ∧ t.bracket ≠ .angle ∧ t.bracket ≠ .bar)
      (hstart : t.bare ≠ "start".toList) (hend : t.bare ≠ "end".toList) : Denotes k t .thing t.bare

theorem trim_bare (t : NodeToken) : Text.trim t.bare = t.bare := by
  unfold NodeToken.bare splitStyle
  split
  · exact Text.trim_trim _
  · exact Text.trim_trim _

theorem trim_skipBlanks (s : Text) : Text.trim (skipBlanks s) = Text.trim s :=
  Text.trimBy_dropWhile Text.isBlank s

section Heading

variable {word rest s : Text}

theorem afterKeyword?_eq_some_iff {r : Text} :
    afterKeyword? word s = some r ↔ ∃ rest, Headed word rest s ∧ skipBlanks rest = r := by
  constructor
  · intro h
    obtain ⟨_, hword, h⟩ := Option.bind_eq_some_iff.mp h
    obtain ⟨rest, hcolon, h⟩ := Option.bind_eq_some_iff.mp h
    have hafter : skipBlanks (s.drop word.length) = ':' :: rest := Text.dropPrefix?_eq_some_iff.mp hcolon
    refine ⟨rest, ⟨s.take word.length, (s.drop word.length).takeWhile Text.isBlank, ?_,
      (Option.guard_eq_some' _).mp hword, fun c hc => List.mem_takeWhile_imp hc⟩, Option.some.inj h⟩
    rw [← hafter, skipBlanks, List.append_assoc, List.takeWhile_append_dropWhile, List.take_append_drop]
  · rintro ⟨rest, ⟨name, blanks, rfl, rfl, hblanks⟩, rfl⟩
    have hafter : skipBlanks (blanks ++ ':' :: rest) = ':' :: rest :=
      skipBlanks_append hblanks (by rintro c ⟨⟩; decide)
    have hword : (name ++ blanks ++ ':' :: rest).take (name.map Char.toLower).length = name := by simp
    have hrest : (name ++ blanks ++ ':' :: rest).drop (name.map Char.toLower).length = blanks ++ ':' :: rest := by simp
    rw [afterKeyword?, hword, hrest, hafter]
    simp [guard, Text.dropPrefix?]

theorem Headed.head? (h : Headed word rest s) (hword : word ≠ []) : s.head?.map Char.toLower = word.head? := by
  obtain ⟨name, blanks, rfl, rfl, -⟩ := h
  cases name with
  | nil => exact absurd rfl hword
  | cons c cs => rfl

theorem not_headed_note {c : Char} (hs : s.head?.map Char.toLower = some c) (hc : c ≠ 'n') : ¬Headed "note" rest s :=
  fun h => hc (Option.some.inj (hs.symm.trans (h.head? (by decide))))

theorem noteText?_bare {t : NodeToken} {name : Text} :
    noteText? t.bare = some name ↔ ∃ rest, Headed "note" rest t.bare ∧ Text.trim rest = name := by
  rw [noteText?, trim_bare, Option.map_eq_some_iff]
  constructor
  · rintro ⟨r, hr, rfl⟩
    obtain ⟨rest, hrest, rfl⟩ := afterKeyword?_eq_some_iff.mp hr
    exact ⟨rest, hrest, (trim_skipBlanks rest).symm⟩
  · rintro ⟨rest, hrest, rfl⟩
    exact ⟨_, afterKeyword?_eq_some_iff.mpr ⟨rest, hrest, rfl⟩, trim_skipBlanks rest⟩

theorem componentName?_eq_some_iff {name : Text} :
    componentName? s = some name ↔
      ∃ rest, Headed "component" rest s ∧ '\n' ∉ skipBlanks rest ∧ Text.trim rest = name := by
  constructor
  · intro h
    obtain ⟨r, hr, h⟩ := Option.bind_eq_some_iff.mp h
    obtain ⟨_, hline, h⟩ := Option.bind_eq_some_iff.mp h
    obtain ⟨rest, hrest, rfl⟩ := afterKeyword?_eq_some_iff.mp hr
    refine ⟨rest, hrest, ?_, (trim_skipBlanks rest).symm.trans (Option.some.inj h)⟩
    simpa using (Option.guard_eq_some' _).mp hline
  · rintro ⟨rest, hrest, hline, rfl⟩
    have hguard : (!(skipBlanks rest).contains '\n') = true := by simpa using hline
    rw [componentName?, afterKeyword?_eq_some_iff.mpr ⟨rest, hrest, rfl⟩]
    simp only [Option.bind_eq_bind, Option.bind_some, guard, if_pos hguard, Option.pure_def]
    rw [trim_skipBlanks]

end Heading

namespace Mention

variable {t : NodeToken} (read : Text → Option Text → Mention)

theorem orNote_of_headed {rest : Text} (h : Headed "note" rest t.bare) :
    orNote t read = ofNote (Text.trim rest) (splitStyle t.text).2 := by
  have hnote : noteText? (splitStyle t.text).1 = some (Text.trim rest) := noteText?_bare.mpr ⟨rest, h, rfl⟩
  unfold orNote
  dsimp only
  rw [hnote]

theorem orNote_of_not_headed (h : ∀ rest, ¬Headed "note" rest t.bare) :
    orNote t read = read t.bare (splitStyle t.text).2 := by
  have hnote : noteText? (splitStyle t.text).1 = none := by
    cases hname : noteText? (splitStyle t.text).1 with
    | none => rfl
    | some name =>
      obtain ⟨rest, hrest, -⟩ := noteText?_bare.mp hname
      exact absurd hrest (h rest)
  unfold orNote
  dsimp only
  rw [hnote]
  rfl

theorem ofActivity_of_round (hangle : t.bracket ≠ .angle) (hbar : t.bracket ≠ .bar) :
    ofActivity t =
      (startOrEnd? t.bare).getD ⟨.thing, t.bare, .rounded, t.bare, [], (splitStyle t.text).2⟩ := by
  unfold ofActivity
  dsimp only
  split
  · next h => exact absurd h hangle
  · next h => exact absurd h hbar
  · rfl

end Mention

variable {k : DiagramKind} {g : Grammar} {t : NodeToken} {role : Role} {name : Text}

theorem headD_compartmentsOf (text : Text) : (Mention.compartmentsOf text).headD [] = firstCompartment text := by
  obtain ⟨first, rest, hpieces⟩ := List.exists_cons_of_ne_nil (Text.pieces_ne_nil (p := (· == '|')) text)
  have hfirst := Text.head_pieces '|' text
  rw [hpieces] at hfirst
  rw [Mention.compartmentsOf, hpieces, List.map_cons, List.headD_cons, firstCompartment, ← hfirst]
  exact Text.replace_char ';' (Text.trim first) '\n'

theorem mention_of_step (hk : Grammar.ofKind? k = some g)
    (h : k = .state ∧ (∀ rest, ¬Headed "note" rest t.bare) ∨ k = .activity ∧ t.bracket ≠ .angle ∧ t.bracket ≠ .bar) :
    g.mention t =
      (Mention.startOrEnd? t.bare).getD ⟨.thing, t.bare, .rounded, t.bare, [], (splitStyle t.text).2⟩ := by
  rcases h with ⟨rfl, hnote⟩ | ⟨rfl, hangle, hbar⟩
  · cases hk
    change Mention.ofState t = _
    rw [Mention.ofState, Mention.orNote_of_not_headed _ hnote]
  · cases hk
    exact Mention.ofActivity_of_round hangle hbar

theorem key_of_denotes (hk : Grammar.ofKind? k = some g) (h : Denotes k t role name) :
    (g.mention t).key = (role, name) := by
  cases h with
  | note hactivity h =>
    cases k with
    | classes | useCases | state | deployment | package =>
      cases hk
      exact congrArg Mention.key (Mention.orNote_of_headed _ h)
    | activity => exact absurd rfl hactivity
    | sequence => cases hk
  | record hkind hnote =>
    cases hkind
    cases hk
    refine (congrArg Mention.key (Mention.orNote_of_not_headed _ hnote)).trans ?_
    exact congrArg (Prod.mk Role.thing) (headD_compartmentsOf t.bare)
  | package hkind hnote =>
    cases hkind
    cases hk
    exact congrArg Mention.key (Mention.orNote_of_not_headed _ hnote)
  | actor hkind hnote ht =>
    cases hkind
    cases hk
    refine (congrArg Mention.key (Mention.orNote_of_not_headed _ hnote)).trans ?_
    rw [if_pos ht]
    rfl
  | useCase hkind hnote ht =>
    cases hkind
    cases hk
    refine (congrArg Mention.key (Mention.orNote_of_not_headed _ hnote)).trans ?_
    rw [if_neg ht]
    rfl
  | @component rest hkind h hline =>
    cases hkind
    cases hk
    have hname := componentName?_eq_some_iff.mpr ⟨rest, h, hline, rfl⟩
    have hnote (rest' : Text) : ¬Headed "note" rest' t.bare := not_headed_note (h.head? (by decide)) (by decide)
    refine (congrArg Mention.key (Mention.orNote_of_not_headed _ hnote)).trans ?_
    rw [hname]
    rfl
  | device hkind hnote hcomponent =>
    cases hkind
    cases hk
    have hname : componentName? t.bare = none := by
      cases hname : componentName? t.bare with
      | none => rfl
      | some name =>
        obtain ⟨rest, hrest, hline, -⟩ := componentName?_eq_some_iff.mp hname
        exact absurd (hcomponent rest hrest) hline
    refine (congrArg Mention.key (Mention.orNote_of_not_headed _ hnote)).trans ?_
    rw [hname]
    rfl
  | decision hkind ht =>
    cases hkind
    cases hk
    change (Mention.ofActivity t).key = _
    rw [Mention.ofActivity, ht]
    rfl
  | bar hkind ht =>
    cases hkind
    cases hk
    change (Mention.ofActivity t).key = _
    rw [Mention.ofActivity, ht]
    rfl
  | start hkind h =>
    have hnote (rest : Text) : ¬Headed "note" rest t.bare := not_headed_note (h ▸ rfl) (show 's' ≠ 'n' by decide)
    rw [mention_of_step hk (hkind.imp_left (⟨·, hnote⟩)), Mention.startOrEnd?, if_pos h]
    rfl
  | final hkind h =>
    have hnote (rest : Text) : ¬Headed "note" rest t.bare := not_headed_note (h ▸ rfl) (show 'e' ≠ 'n' by decide)
    rw [mention_of_step hk (hkind.imp_left (⟨·, hnote⟩)), Mention.startOrEnd?, if_neg (h ▸ by decide), if_pos h]
    rfl
  | step hkind hstart hend =>
    rw [mention_of_step hk hkind, Mention.startOrEnd?, if_neg hstart, if_neg hend]
    rfl

theorem exists_denotes_step (h : k = .state ∧ (∀ rest, ¬Headed "note" rest t.bare) ∨
    k = .activity ∧ t.bracket ≠ .angle ∧ t.bracket ≠ .bar) : ∃ role name, Denotes k t role name := by
  by_cases hstart : t.bare = "start".toList
  · exact ⟨_, _, .start (h.imp_left And.left) hstart⟩
  · by_cases hend : t.bare = "end".toList
    · exact ⟨_, _, .final (h.imp_left And.left) hend⟩
    · exact ⟨_, _, .step h hstart hend⟩

theorem exists_denotes (hk : Grammar.ofKind? k = some g) (t : NodeToken) : ∃ role name, Denotes k t role name := by
  by_cases hactivity : k = .activity
  · by_cases hangle : t.bracket = .angle
    · exact ⟨_, _, .decision hactivity hangle⟩
    · by_cases hbar : t.bracket = .bar
      · exact ⟨_, _, .bar hactivity hbar⟩
      · exact exists_denotes_step (.inr ⟨hactivity, hangle, hbar⟩)
  · by_cases hheaded : ∃ rest, Headed "note" rest t.bare
    · obtain ⟨rest, hrest⟩ := hheaded
      exact ⟨_, _, .note hactivity hrest⟩
    · have hnote : ∀ rest, ¬Headed "note" rest t.bare := not_exists.mp hheaded
      cases k with
      | classes => exact ⟨_, _, .record rfl hnote⟩
      | useCases =>
        by_cases ht : t.bracket = .square
        · exact ⟨_, _, .actor rfl hnote ht⟩
        · exact ⟨_, _, .useCase rfl hnote ht⟩
      | activity => exact absurd rfl hactivity
      | state => exact exists_denotes_step (.inl ⟨rfl, hnote⟩)
      | deployment =>
        by_cases hcomponent : ∃ rest, Headed "component" rest t.bare ∧ '\n' ∉ skipBlanks rest
        · obtain ⟨rest, hrest, hline⟩ := hcomponent
          exact ⟨_, _, .component rfl hrest hline⟩
        · refine ⟨_, _, .device rfl hnote fun rest hrest => ?_⟩
          by_contra hline
          exact hcomponent ⟨rest, hrest, hline⟩
      | package => exact ⟨_, _, .package rfl hnote⟩
      | sequence => cases hk

theorem denotes_iff (hk : Grammar.ofKind? k = some g) : Denotes k t role name ↔ (g.mention t).key = (role, name) := by
  refine ⟨key_of_denotes hk, fun h => ?_⟩
  obtain ⟨role', name', h'⟩ := exists_denotes hk t
  obtain ⟨rfl, rfl⟩ := Prod.mk.inj ((key_of_denotes hk h').symm.trans h)
  exact h'

end Yuml.Notation
