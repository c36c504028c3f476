import Yuml.Proofs.Document.Dot
import Yuml.Proofs.Notation.Gathering
import Yuml.Proofs.Text.Basic

namespace Yuml.Notation

namespace Mention

structure Legible (m : Mention) : Prop where
  fields : m.fields = [] ∨ m.shape = .record ∧ ∃ second rest, m.fields = m.label :: second :: rest
  undivided : m.shape = .record → '|' ∉ m.label ∧ ∀ f ∈ m.fields, '|' ∉ f

variable {m : Mention}

theorem Legible.toNode (h : m.Legible) (hfill : m.fill ≠ some []) (id : Text) : (m.toNode id).Legible where
  fields := h.fields
  undivided hrecord := by
    obtain ⟨hlabel, hfields⟩ := h.undivided hrecord
    unfold Node.compartments
    split
    · exact List.forall_mem_singleton.mpr hlabel
    · exact hfields
  fill := hfill

theorem legible_plain (hfields : m.fields = []) (hshape : m.shape ≠ .record) : m.Legible :=
  ⟨.inl hfields, fun h => absurd h hshape⟩

theorem orNote_of {P : Mention → Prop} {t : NodeToken} {read : Text → Option Text → Mention}
    (hnote : ∀ name fill, P (ofNote name fill)) (hread : ∀ text fill, P (read text fill)) : P (orNote t read) := by
  unfold orNote
  dsimp only
  split
  · exact hnote _ _
  · exact hread _ _

theorem legible_orNote (t : NodeToken) {read : Text → Option Text → Mention}
    (hread : ∀ text fill, (read text fill).Legible) : (orNote t read).Legible :=
  orNote_of (P := Legible) (fun _ _ => legible_plain rfl nofun) hread

theorem legible_startOrEnd (text : Text) (h : m.Legible) : ((startOrEnd? text).getD m).Legible := by
  unfold startOrEnd?
  split
  · exact legible_plain rfl nofun
  · split
    · exact legible_plain rfl nofun
    · exact h

theorem not_bar_mem_replace {s : Text} (h : '|' ∉ s) : '|' ∉ Text.replace ";" "\n" s := by
  intro hbar
  rcases List.mem_append.mp (Text.replaceFrom_subset _ _ 0 s hbar) with hs | hbreak
  · exact h hs
  · exact absurd hbreak (by decide)

theorem legible_ofClass (t : NodeToken) : (ofClass t).Legible := by
  refine legible_orNote t fun text fill => ?_
  have hparts : ∀ part ∈ compartmentsOf text, '|' ∉ part := by
    intro part hpart
    obtain ⟨piece, hpiece, rfl⟩ := List.mem_map.mp hpart
    refine not_bar_mem_replace fun hbar => ?_
    exact absurd (Text.not_sep_of_mem_pieces hpiece '|' (Text.trimBy_subset _ _ hbar)) (by decide)
  dsimp only
  cases hsplit : compartmentsOf text with
  | nil => exact ⟨.inl rfl, fun _ => ⟨List.not_mem_nil, List.forall_mem_nil _⟩⟩
  | cons name rest =>
    rw [hsplit] at hparts
    cases rest with
    | nil => exact ⟨.inl rfl, fun _ => ⟨hparts name List.mem_cons_self, List.forall_mem_nil _⟩⟩
    | cons second rest =>
      exact ⟨.inr ⟨rfl, second, rest, rfl⟩, fun _ => ⟨hparts name List.mem_cons_self, hparts⟩⟩

end Mention

namespace Grammar

theorem legible_mention {k : DiagramKind} {g : Grammar} (hk : ofKind? k = some g) (t : NodeToken) :
    (g.mention t).Legible := by
  cases k with
  | classes =>
    cases hk
    exact Mention.legible_ofClass t
  | useCases =>
    cases hk
    change (Mention.ofUseCase t).Legible
    refine Mention.legible_orNote t fun text fill => ?_
    split
    · exact Mention.legible_plain rfl nofun
    · exact Mention.legible_plain rfl nofun
  | activity =>
    cases hk
    unfold activity Mention.ofActivity
    dsimp only
    split
    · exact Mention.legible_plain rfl nofun
    · exact Mention.legible_plain rfl nofun
    · exact Mention.legible_startOrEnd _ (Mention.legible_plain rfl nofun)
  | state =>
    cases hk
    change (Mention.ofState t).Legible
    refine Mention.legible_orNote t fun text fill => ?_
    exact Mention.legible_startOrEnd _ (Mention.legible_plain rfl nofun)
  | deployment =>
    cases hk
    change (Mention.ofDeployment t).Legible
    refine Mention.legible_orNote t fun text fill => ?_
    split
    · exact Mention.legible_plain rfl nofun
    · exact Mention.legible_plain rfl nofun
  | package =>
    cases hk
    change (Mention.ofPackage t).Legible
    exact Mention.legible_orNote t fun text fill => Mention.legible_plain rfl nofun
  | sequence => cases hk

theorem record_of_completes {k : DiagramKind} {g : Grammar} (hk : ofKind? k = some g) (hcompletes : g.completes = true)
    {t : NodeToken} (hrole : (g.mention t).role = .thing) :
    (g.mention t).shape = .record ∧ (g.mention t).label = (g.mention t).name := by
  cases k with
  | classes =>
    cases hk
    revert hrole
    unfold classes Mention.ofClass
    exact Mention.orNote_of (P := fun m => m.role = .thing → m.shape = .record ∧ m.label = m.name)
      (fun _ _ hnote => nomatch hnote) fun _ _ _ => ⟨rfl, rfl⟩
  | sequence => cases hk
  | useCases | activity | state | deployment | package =>
    cases hk
    cases hcompletes

theorem merge_of_alike {g : Grammar} {known m : Mention} (hknown : known.Legible) (hm : m.Legible)
    (halike : g.completes = true → m.role = .thing → known.shape = m.shape ∧ known.label = m.label) :
    (g.merge known m).Legible ∧ (g.merge known m).shape = known.shape ∧ (g.merge known m).label = known.label := by
  unfold merge
  split
  · next h =>
    obtain ⟨hcompletes, hrole⟩ := Bool.and_eq_true_iff.mp h
    obtain ⟨hshape, hlabel⟩ := halike hcompletes (beq_iff_eq.mp hrole)
    refine ⟨?_, rfl, rfl⟩
    by_cases hnone : known.fields = []
    · have hfields := hm.fields
      have hundivided := hm.undivided
      rw [← hshape, ← hlabel] at hfields hundivided
      constructor <;> simpa [hnone]
    · constructor
      · simpa [hnone] using hknown.fields
      · simpa [hnone] using hknown.undivided
  · exact ⟨hknown, rfl, rfl⟩

theorem legible_gathered {k : DiagramKind} {g : Grammar} (hk : ofKind? k = some g) (ts : List NodeToken) (t : NodeToken) :
    (g.gathered (ts.map g.mention) (g.mention t)).Legible := by
  refine (List.foldlRecOn (motive := fun known => known.Legible ∧ known.shape = (g.mention t).shape ∧
    known.label = (g.mention t).label) _ g.merge ⟨legible_mention hk t, rfl, rfl⟩ fun known h m hm => ?_).1
  obtain ⟨hknown, hshape, hlabel⟩ := h
  obtain ⟨hm, hkey⟩ := List.mem_filter.mp hm
  obtain ⟨u, -, rfl⟩ := List.mem_map.mp hm
  obtain ⟨hrole, hname⟩ := Prod.mk.inj (of_decide_eq_true hkey)
  -- a record that is completed has the same name as the mention that completes it, so the same label
  have halike (hcompletes : g.completes = true) (hthing : (g.mention u).role = .thing) :
      known.shape = (g.mention u).shape ∧ known.label = (g.mention u).label := by
    obtain ⟨hrecord, hnamed⟩ := record_of_completes hk hcompletes hthing
    obtain ⟨hrecord', hnamed'⟩ := record_of_completes hk hcompletes (hrole ▸ hthing)
    exact ⟨hshape.trans (hrecord'.trans hrecord.symm), hlabel.trans (hnamed'.trans (hname.symm.trans hnamed.symm))⟩
  obtain ⟨hmerged, hshape', hlabel'⟩ := merge_of_alike hknown (legible_mention hk u) halike
  exact ⟨hmerged, hshape'.trans hshape, hlabel'.trans hlabel⟩

theorem legible_nodes {k : DiagramKind} {g : Grammar} (hk : ofKind? k = some g) (direction : Direction)
    (lines : List (List Token)) : ∀ n ∈ (g.ofTokens direction lines).nodes, n.Legible := by
  have hfill : ∀ n ∈ (g.ofTokens direction lines).nodes, n.fill ≠ some [] := by
    refine g.forall_nodes_ofTokens direction (fun t _ _ => fill_ne_nil hk t) fun t _ n hn heq => ?_
    rcases Option.or_eq_some_iff.mp heq with hold | ⟨-, hgiven⟩
    · exact hn hold
    · exact fill_ne_nil hk t hgiven
  intro n hn
  have hfilled := hfill n hn
  rw [g.nodes_ofTokens] at hn
  obtain ⟨p, hp, rfl⟩ := List.mem_map.mp hn
  obtain ⟨t, -, ht⟩ := List.mem_map.mp (mem_of_mem_firstMentions (List.fst_mem_of_mem_zipIdx hp))
  rw [← ht] at hfilled ⊢
  exact (legible_gathered hk _ t).toNode hfilled _

end Grammar

theorem nonEmpty?_ne_nil (s : Text) : Text.nonEmpty? s ≠ some [] := by
  unfold Text.nonEmpty?
  split
  · exact nofun
  · next h => exact fun heq => h (Option.some.inj heq ▸ rfl)

structure Connector.Legible (c : Connector) : Prop where
  label : c.label ≠ some []
  headLabel : c.headLabel ≠ some []
  tailLabel : c.tailLabel ≠ some []

namespace Connector

theorem legible_ofUseCase (s : Text) : (ofUseCase s).Legible := by
  unfold ofUseCase
  dsimp only
  split
  · exact ⟨nofun, nofun, nofun⟩
  · split
    · exact ⟨by decide, nofun, nofun⟩
    · split
      · exact ⟨by decide, nofun, nofun⟩
      · exact ⟨nonEmpty?_ne_nil _, nofun, nofun⟩

theorem legible_ofLine (s : Text) : (ofLine s).Legible := by
  unfold ofLine
  refine ⟨?_, nofun, nofun⟩
  dsimp only
  exact nonEmpty?_ne_nil _

theorem legible_ofTransition (s : Text) : (ofTransition s).Legible := by
  unfold ofTransition
  refine ⟨?_, nofun, nofun⟩
  dsimp only
  exact nonEmpty?_ne_nil _

theorem legible_ofAssociation (s : Text) : (ofAssociation s).Legible := by
  unfold ofAssociation
  dsimp only
  exact ⟨nofun, nonEmpty?_ne_nil _, nonEmpty?_ne_nil _⟩

theorem legible_given (headArrow : Arrow) {read : Text → Connector} (hread : ∀ s, (read s).Legible) (s : Option Text) :
    (given { headArrow } read s).Legible := by
  unfold given
  split
  · exact ⟨nofun, nofun, nofun⟩
  · exact ⟨nofun, nofun, nofun⟩
  · exact hread _

end Connector

namespace Grammar

theorem legible_connect {k : DiagramKind} {g : Grammar} (hk : ofKind? k = some g) (s : Option Text) :
    (g.connect s).Legible := by
  cases k with
  | classes =>
    cases hk
    exact Connector.legible_given .none Connector.legible_ofAssociation s
  | useCases =>
    cases hk
    exact Connector.legible_ofUseCase _
  | activity | state =>
    cases hk
    exact Connector.legible_given .vee Connector.legible_ofTransition s
  | deployment | package =>
    cases hk
    exact Connector.legible_given .none Connector.legible_ofLine s
  | sequence => cases hk

theorem bare_resolve (g : Grammar) {r : Registry Mention.Key} (h : r.document.Bare) (t : NodeToken) :
    (g.resolve r t).1.document.Bare := by
  rw [document_resolve]
  exact ⟨h.attributes, h.header⟩

theorem bare_connectLink (g : Grammar) {r : Registry Mention.Key} (h : r.document.Bare) (l : Link) :
    (g.connectLink r l).document.Bare := by
  have hends := g.bare_resolve (g.bare_resolve h l.tail) l.head
  exact ⟨hends.attributes, hends.header⟩

theorem bare_ofTokens (g : Grammar) (direction : Direction) (lines : List (List Token)) :
    (g.ofTokens direction lines).Bare := by
  let Kept (r : Registry Mention.Key) : Prop := r.document.Bare
  refine List.foldlRecOn (motive := Kept) lines g.takeTokens ⟨rfl, rfl⟩ fun r hr ts _ => ?_
  have hnodes : Kept ((nodes ts).foldl (fun r t => (g.resolve r t).1) r) :=
    List.foldlRecOn (motive := Kept) (nodes ts) _ hr fun _ hr t _ => g.bare_resolve hr t
  exact List.foldlRecOn (motive := Kept) (links ts) g.connectLink hnodes fun _ hr l _ => g.bare_connectLink hr l

theorem legible_parse {k : DiagramKind} {g : Grammar} (hk : ofKind? k = some g) (direction : Direction)
    (instructions : List Text) : (g.parse direction instructions).Legible := by
  refine ⟨g.bare_ofTokens direction _, legible_nodes hk direction _, fun e he => ?_⟩
  rw [parse, (g.ofTokens_spec direction _).2] at he
  obtain ⟨l, -, rfl⟩ := List.mem_map.mp he
  obtain ⟨hlabel, hheadLabel, htailLabel⟩ := legible_connect hk l.connector
  exact ⟨hlabel, hheadLabel, htailLabel⟩

theorem print_parse_inj {k k' : DiagramKind} {g g' : Grammar} (hk : ofKind? k = some g) (hk' : ofKind? k' = some g')
    (direction direction' : Direction) (instructions instructions' : List Text) :
    Dot.print (g.parse direction instructions) = Dot.print (g'.parse direction' instructions') ↔
      g.parse direction instructions = g'.parse direction' instructions' := by
  refine ⟨fun h => ?_, congrArg Dot.print⟩
  exact Dot.print_injOn (legible_parse hk direction instructions) (legible_parse hk' direction' instructions') h

theorem print_parse_ne_of_backslash :
    ofKind? .classes = some classes ∧
      Dot.print (classes.parse .topDown ["[a|b\\n]"]) ≠ Dot.print (classes.parse .topDown ["[a|b;]"]) := by
  have hk : ofKind? .classes = some classes := rfl
  refine ⟨hk, fun h => ?_⟩
  have hsame := (print_parse_inj hk hk .topDown .topDown ["[a|b\\n]"] ["[a|b;]"]).mp h
  exact absurd hsame (by decide +kernel)

end Grammar

end Yuml.Notation
