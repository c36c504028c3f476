import Yuml.Proofs.Notation.Grammar
import Yuml.Proofs.Notation.Splitting
import Yuml.Proofs.Source.Lines
import Yuml.Proofs.Text.Basic

namespace Yuml.Notation

open Text (NoReturn)

def Token.inside : Token → Text
  | node n => n.text
  | connector s => s

theorem takeNode_subset (b : Bracket) (depth : Nat) (s : Text) :
    (takeNode b.closer depth s).1 ⊆ s ∧ (takeNode b.closer depth s).2 ⊆ s := by
  rcases takeNode_reads [] b depth s with ⟨hs, -⟩ | ⟨hs, hrest, -⟩
  · refine ⟨fun c hc => ?_, fun c hc => ?_⟩
    · rw [hs]
      exact List.mem_append_left _ hc
    · rw [hs]
      exact List.mem_append_right _ (List.mem_cons_of_mem _ hc)
  · rw [hrest]
    refine ⟨fun c hc => ?_, List.nil_subset s⟩
    rw [hs]
    exact hc

theorem inside_gap {s : Text} {t : Token} (h : t ∈ gap s) : t.inside = s := by
  unfold gap at h
  split at h
  · cases h
  · rw [List.mem_singleton.mp h]
    rfl

theorem inside_subset (bs : List Bracket) (line : Text) : ∀ t ∈ split bs line, t.inside ⊆ line := by
  induction line using split_induction bs with
  | plain line h =>
    rw [split_of_plain h]
    exact fun t ht => inside_gap ht ▸ List.Subset.refl line
  | node between c b cs hbetween hb ih =>
    have hcs : cs ⊆ between ++ c :: cs := fun d hd => List.mem_append_right _ (List.mem_cons_of_mem c hd)
    obtain ⟨hinside, hrest⟩ := takeNode_subset b 0 cs
    rw [split_append hbetween hb cs]
    refine List.forall_mem_append.mpr ⟨fun t ht => ?_, List.forall_mem_cons.mpr ⟨?_, fun t ht => ?_⟩⟩
    · rw [inside_gap ht]
      exact List.subset_append_left between _
    · exact List.Subset.trans hinside hcs
    · exact List.Subset.trans (ih t ht) (List.Subset.trans hrest hcs)

theorem inside_connector {before : Option NodeToken} {connector : Option Text} {ts : List Token} {l : Link}
    (h : l ∈ linksFrom before connector ts) : ∀ s ∈ l.connector, connector = some s ∨ .connector s ∈ ts := by
  induction ts generalizing before connector with
  | nil => cases h
  | cons t ts ih =>
    have hmore {b : Option NodeToken} (h : l ∈ linksFrom b none ts) : ∀ s ∈ l.connector,
        connector = some s ∨ .connector s ∈ t :: ts := fun s hs =>
      .inr (List.mem_cons_of_mem t ((ih h s hs).resolve_left fun hnone => nomatch hnone))
    cases t with
    | connector text =>
      intro s hs
      rcases ih h s hs with heq | hmem
      · cases heq
        exact .inr List.mem_cons_self
      · exact .inr (List.mem_cons_of_mem _ hmem)
    | node n =>
      cases before with
      | none => exact hmore h
      | some tail =>
        rcases List.mem_cons.mp h with rfl | h
        · exact fun s hs => .inl hs
        · exact hmore h

section Labels

variable {s : Text} (h : NoReturn s)

include h

theorem noReturn_splitStyle : NoReturn (splitStyle s).1 := by
  have hsuffix {before colour : Text} (hfound : suffix? s = some (before, colour)) : before ⊆ s := by
    obtain ⟨_, _, rfl, -⟩ := suffix?_eq_some_iff.mp hfound
    exact List.subset_append_left _ _
  unfold splitStyle
  split
  · next before colour hfound => exact (h.of_subset (hsuffix hfound)).trim
  · exact h.trim

theorem noReturn_afterKeyword (word : Text) : ∀ t ∈ afterKeyword? word s, NoReturn t := by
  intro t ht
  obtain ⟨_, -, ht⟩ := Option.bind_eq_some_iff.mp ht
  obtain ⟨r, hr, ht⟩ := Option.bind_eq_some_iff.mp ht
  cases ht
  have hdropped : r ⊆ s := fun c hc =>
    List.mem_of_mem_drop ((List.dropWhile_sublist _).subset (Text.dropPrefix?_subset hr hc))
  exact h.of_subset fun c hc => hdropped ((List.dropWhile_sublist _).subset hc)

theorem noReturn_noteText : ∀ t ∈ noteText? s, NoReturn t := by
  intro t ht
  obtain ⟨r, hr, rfl⟩ := Option.map_eq_some_iff.mp ht
  exact (noReturn_afterKeyword h.trim _ r hr).trim

theorem noReturn_componentName : ∀ t ∈ componentName? s, NoReturn t := by
  intro t ht
  obtain ⟨r, hr, ht⟩ := Option.bind_eq_some_iff.mp ht
  obtain ⟨_, -, ht⟩ := Option.bind_eq_some_iff.mp ht
  cases ht
  exact (noReturn_afterKeyword h _ r hr).trim

theorem noReturn_unbracket : NoReturn (unbracket s) := by
  unfold unbracket
  dsimp only
  split
  · exact h.trim
  · next rest hrest =>
    split
    · exact h.trim
    · next inside hinside =>
      exact (h.trim.of_subset (List.Subset.trans (Text.dropSuffix?_subset hinside) (Text.dropPrefix?_subset hrest))).trim

theorem noReturn_takePrefix (p : Text) : NoReturn (takePrefix p s).2 := by
  unfold takePrefix
  split
  · next rest hrest => exact h.of_subset (Text.dropPrefix?_subset hrest)
  · exact h

theorem noReturn_takeSuffix (q : Text) : NoReturn (takeSuffix q s).2 := by
  unfold takeSuffix
  split
  · next rest hrest => exact h.of_subset (Text.dropSuffix?_subset hrest)
  · exact h

end Labels

def NoReturns (label : Text) (fields : List Text) : Prop :=
  NoReturn label ∧ ∀ f ∈ fields, NoReturn f

namespace Mention

variable {t : NodeToken} (h : NoReturn t.text)

include h

theorem noReturns_orNote {read : Text → Option Text → Mention}
    (hread : ∀ text fill, NoReturn text → NoReturns (read text fill).label (read text fill).fields) :
    NoReturns (orNote t read).label (orNote t read).fields := by
  have htext := noReturn_splitStyle h
  unfold orNote
  dsimp only
  split
  · next name hname => exact ⟨noReturn_noteText htext name hname, fun _ hf => nomatch hf⟩
  · exact hread _ _ htext

omit h in
theorem noReturns_startOrEnd (text : Text) {m : Mention} (hm : NoReturns m.label m.fields) :
    NoReturns ((startOrEnd? text).getD m).label ((startOrEnd? text).getD m).fields := by
  unfold startOrEnd?
  split
  · exact ⟨List.not_mem_nil, fun _ hf => nomatch hf⟩
  · split
    · exact ⟨List.not_mem_nil, fun _ hf => nomatch hf⟩
    · exact hm

omit h in
theorem noReturns_only {text : Text} (h : NoReturn text) : NoReturns text [] :=
  ⟨h, fun _ hf => nomatch hf⟩

omit h in
theorem compartmentsOf_ne_nil (text : Text) : compartmentsOf text ≠ [] :=
  mt List.map_eq_nil_iff.mp (Text.pieces_ne_nil text)

theorem noReturns_ofClass : NoReturns (ofClass t).label (ofClass t).fields := by
  refine noReturns_orNote h fun text fill htext => ?_
  have hbreak : NoReturn "\n".toList := by decide
  have hparts : ∀ part ∈ compartmentsOf text, NoReturn part := by
    intro part hpart
    obtain ⟨piece, hpiece, rfl⟩ := List.mem_map.mp hpart
    exact (htext.of_subset (Text.pieces_subset hpiece)).trim.replace _ hbreak
  constructor
  · obtain ⟨first, rest, heq⟩ := List.exists_cons_of_ne_nil (compartmentsOf_ne_nil text)
    refine hparts _ ?_
    rw [heq]
    exact List.mem_cons_self
  · dsimp only
    split
    · exact hparts
    · exact fun _ hf => nomatch hf

end Mention

theorem Grammar.noReturns_mention {k : DiagramKind} {g : Grammar} (hk : ofKind? k = some g) {t : NodeToken}
    (h : NoReturn t.text) : NoReturns (g.mention t).label (g.mention t).fields := by
  have hnone : NoReturn [] := List.not_mem_nil
  cases k with
  | classes =>
    cases hk
    exact Mention.noReturns_ofClass h
  | useCases =>
    cases hk
    refine Mention.noReturns_orNote h fun text fill htext => ?_
    split
    · exact Mention.noReturns_only htext
    · exact Mention.noReturns_only htext
  | activity =>
    cases hk
    unfold activity Mention.ofActivity
    dsimp only
    split
    · exact Mention.noReturns_only hnone
    · exact Mention.noReturns_only hnone
    · exact Mention.noReturns_startOrEnd _ (Mention.noReturns_only (noReturn_splitStyle h))
  | state =>
    cases hk
    exact Mention.noReturns_orNote h fun text fill htext =>
      Mention.noReturns_startOrEnd _ (Mention.noReturns_only htext)
  | deployment =>
    cases hk
    refine Mention.noReturns_orNote h fun text fill htext => ?_
    split
    · next name hname => exact Mention.noReturns_only (noReturn_componentName htext name hname)
    · exact Mention.noReturns_only htext
  | package =>
    cases hk
    exact Mention.noReturns_orNote h fun text fill htext => Mention.noReturns_only htext
  | sequence => cases hk

def NoReturnsAlong (labels : List (Option Text)) : Prop :=
  ∀ label ∈ labels, ∀ s ∈ label, NoReturn s

namespace Connector

def labels (c : Connector) : List (Option Text) :=
  [c.label, c.headLabel, c.tailLabel]

theorem along_middle {label : Option Text} (h : ∀ s ∈ label, NoReturn s) : NoReturnsAlong [label, none, none] := by
  have hnone : ∀ s ∈ (none : Option Text), NoReturn s := fun _ hs => nomatch hs
  unfold NoReturnsAlong
  exact List.forall_mem_cons.mpr ⟨h, List.forall_mem_cons.mpr ⟨hnone, List.forall_mem_singleton.mpr hnone⟩⟩

section

variable {s : Text} (h : NoReturn s)

include h

theorem noReturns_ofLine : NoReturnsAlong (ofLine s).labels := by
  have hspace : NoReturn " ".toList := by decide
  have hbody := noReturn_takeSuffix (noReturn_takePrefix h.trim "<".toList) ">".toList
  have hbare := ((hbody.replace "-.-".toList hspace).replace "-.".toList hspace).replace ".-".toList hspace
  unfold ofLine
  dsimp only [labels]
  exact along_middle (noReturn_unbracket (hbare.trimBy _).trim).nonEmpty?

theorem noReturns_ofTransition : NoReturnsAlong (ofTransition s).labels := by
  have hbody := noReturn_takeSuffix h.trim ">".toList
  unfold ofTransition
  dsimp only [labels]
  exact along_middle (noReturn_unbracket (hbody.trimBy _).trim).nonEmpty?

theorem noReturns_ofUseCase : NoReturnsAlong (ofUseCase s).labels := by
  have hnone : ∀ s ∈ (none : Option Text), NoReturn s := fun _ hs => nomatch hs
  have hextend : ∀ s ∈ some extendLabel, NoReturn s := by
    rintro s ⟨⟩
    exact (by decide : '\r' ∉ extendLabel)
  have hinclude : ∀ s ∈ some includeLabel, NoReturn s := by
    rintro s ⟨⟩
    exact (by decide : '\r' ∉ includeLabel)
  unfold ofUseCase
  dsimp only
  split
  · exact along_middle hnone
  · split
    · exact along_middle hextend
    · split
      · exact along_middle hinclude
      · exact along_middle (h.trim.trimBy _).nonEmpty?

theorem noReturn_takeMarker (markers : List (Text × Arrow)) {drop : Text → Text → Option Text}
    (hdrop : ∀ m r, drop m s = some r → r ⊆ s) :
    NoReturn ((markers.findSome? fun p => (drop p.1 s).map (p.2, ·)).getD (Arrow.none, s)).2 := by
  cases hfound : markers.findSome? fun p => (drop p.1 s).map (p.2, ·) with
  | none => exact h
  | some q =>
    obtain ⟨p, -, hq⟩ := List.exists_of_findSome?_eq_some hfound
    obtain ⟨r, hr, rfl⟩ := Option.map_eq_some_iff.mp hq
    exact h.of_subset (hdrop p.1 r hr)

theorem noReturn_takeTail : NoReturn (takeTail s).2 :=
  noReturn_takeMarker h tailMarkers fun _ _ hr => Text.dropPrefix?_subset hr

theorem noReturn_takeHead : NoReturn (takeHead s).2 :=
  noReturn_takeMarker h headMarkers fun _ _ hr => Text.dropSuffix?_subset hr

theorem noReturns_ofAssociation : NoReturnsAlong (ofAssociation s).labels := by
  have hbody := noReturn_takeHead (noReturn_takeTail h.trim)
  have hnone : ∀ t ∈ (none : Option Text), NoReturn t := fun _ hs => nomatch hs
  have hleft (sep : Text) : NoReturn (Text.breakOn sep (takeHead (takeTail (Text.trim s)).2).2).1 :=
    hbody.of_subset (Text.breakOn_subset sep _).1
  have hright (sep : Text) : NoReturn ((Text.breakOn sep (takeHead (takeTail (Text.trim s)).2).2).2.getD []) := by
    cases hrest : (Text.breakOn sep (takeHead (takeTail (Text.trim s)).2).2).2 with
    | none => exact List.not_mem_nil
    | some r => exact hbody.of_subset ((Text.breakOn_subset sep _).2 r hrest)
  unfold ofAssociation NoReturnsAlong
  dsimp only [labels]
  exact List.forall_mem_cons.mpr ⟨hnone, List.forall_mem_cons.mpr ⟨(hright _).trim.nonEmpty?,
    List.forall_mem_singleton.mpr (hleft _).trim.nonEmpty?⟩⟩

end

theorem noReturns_given (headArrow : Arrow) {read : Text → Connector}
    (hread : ∀ s, NoReturn s → NoReturnsAlong (read s).labels) {s : Option Text} (h : ∀ t ∈ s, NoReturn t) :
    NoReturnsAlong (given { headArrow } read s).labels := by
  have hblank : NoReturnsAlong [none, none, none] := along_middle fun _ hs => nomatch hs
  unfold given
  split
  · exact hblank
  · exact hblank
  · exact hread _ (h _ rfl)

end Connector

theorem Grammar.noReturns_connect {k : DiagramKind} {g : Grammar} (hk : ofKind? k = some g) {s : Option Text}
    (h : ∀ t ∈ s, NoReturn t) : NoReturnsAlong (g.connect s).labels := by
  have huse : NoReturnsAlong (Connector.useCase s).labels := by
    refine Connector.noReturns_ofUseCase ?_
    cases s with
    | none => exact List.not_mem_nil
    | some t => exact h t rfl
  have hline : NoReturnsAlong (Connector.line s).labels :=
    Connector.noReturns_given .none (fun _ => Connector.noReturns_ofLine) h
  have htransition : NoReturnsAlong (Connector.transition s).labels :=
    Connector.noReturns_given .vee (fun _ => Connector.noReturns_ofTransition) h
  cases k with
  | classes =>
    cases hk
    exact Connector.noReturns_given .none (fun _ => Connector.noReturns_ofAssociation) h
  | useCases =>
    cases hk
    exact huse
  | activity =>
    cases hk
    exact htransition
  | state =>
    cases hk
    exact htransition
  | deployment =>
    cases hk
    exact hline
  | package =>
    cases hk
    exact hline
  | sequence => cases hk

structure ShowsNoReturn (d : Document) : Prop where
  nodes : ∀ n ∈ d.nodes, NoReturns n.label n.fields
  edges : ∀ e ∈ d.edges, NoReturnsAlong [e.label, e.headLabel, e.tailLabel]

theorem Grammar.showsNoReturn_parse {k : DiagramKind} {g : Grammar} (hk : ofKind? k = some g) (direction : Direction)
    {instructions : List Text} (h : ∀ s ∈ instructions, NoReturn s) : ShowsNoReturn (g.parse direction instructions) := by
  have htoken : ∀ ts ∈ instructions.map (split g.brackets), ∀ t ∈ ts, NoReturn t.inside := by
    intro ts hts t ht
    obtain ⟨s, hs, rfl⟩ := List.mem_map.mp hts
    exact (h s hs).of_subset (inside_subset _ s t ht)
  have hnode : ∀ t ∈ (instructions.map (split g.brackets)).flatMap Notation.nodes, NoReturn t.text := by
    intro t ht
    obtain ⟨ts, hts, ht⟩ := List.mem_flatMap.mp ht
    obtain ⟨token, hmem, heq⟩ := List.mem_filterMap.mp ht
    cases token with
    | node n =>
      cases heq
      exact htoken ts hts _ hmem
    | connector s => cases heq
  constructor
  · refine g.forall_nodes_ofTokens direction (fun t ht _ => noReturns_mention hk (hnode t ht)) fun t ht n hn => ?_
    refine ⟨hn.1, ?_⟩
    unfold Mention.complete
    dsimp only
    split
    · exact (noReturns_mention hk (hnode t ht)).2
    · exact hn.2
  · intro e he
    rw [parse, (g.ofTokens_spec direction _).2] at he
    obtain ⟨l, hl, rfl⟩ := List.mem_map.mp he
    obtain ⟨ts, hts, hl⟩ := List.mem_flatMap.mp hl
    refine noReturns_connect hk fun s hs => ?_
    exact htoken ts hts _ ((inside_connector hl s hs).resolve_left fun hnone => nomatch hnone)

theorem noReturn_idAmong (firsts : List Mention) (m : Mention) : NoReturn (idAmong firsts m) := by
  intro hmem
  rcases List.mem_cons.mp hmem with heq | hdigit
  · exact absurd heq (by decide)
  · exact absurd (Text.isDigit_of_mem_ofNat hdigit) (by decide)

theorem Grammar.noReturn_ends (g : Grammar) (direction : Direction) (lines : List (List Token)) :
    ∀ e ∈ (g.ofTokens direction lines).edges, NoReturn e.tail ∧ NoReturn e.head := by
  intro e he
  rw [(g.ofTokens_spec direction lines).2] at he
  obtain ⟨l, -, rfl⟩ := List.mem_map.mp he
  exact ⟨noReturn_idAmong _ _, noReturn_idAmong _ _⟩

end Yuml.Notation
