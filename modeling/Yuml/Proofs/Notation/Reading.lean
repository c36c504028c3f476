import Yuml.Proofs.Notation.Gathering

namespace Yuml.Notation.Grammar

section Moments

variable (g : Grammar) (direction : Direction) (lines : List (List Token))

def MeetsNode (r : Registry Mention.Key) (t : NodeToken) : Prop :=
  ∃ before ts after us vs, lines = before ++ ts :: after ∧ nodes ts = us ++ t :: vs ∧
    r = us.foldl (fun r t => (g.resolve r t).1) (before.foldl g.takeTokens ⟨{ direction }, []⟩)

def MeetsLink (r : Registry Mention.Key) (l : Link) : Prop :=
  ∃ before ts after ls ls', lines = before ++ ts :: after ∧ links ts = ls ++ l :: ls' ∧
    r = ls.foldl g.connectLink
      ((nodes ts).foldl (fun r t => (g.resolve r t).1) (before.foldl g.takeTokens ⟨{ direction }, []⟩))

/-- `r` stands when the node of `t` is looked up: once for the token, and again for each end of a link. -/
inductive Asks : Registry Mention.Key → NodeToken → Prop
  | node {r : Registry Mention.Key} {t : NodeToken} (h : g.MeetsNode direction lines r t) : Asks r t
  | tail {r : Registry Mention.Key} {l : Link} (h : g.MeetsLink direction lines r l) : Asks r l.tail
  | head {r : Registry Mention.Key} {l : Link} (h : g.MeetsLink direction lines r l) :
      Asks (g.resolve r l.tail).1 l.head

end Moments

variable {g : Grammar} {direction : Direction} {lines : List (List Token)} {r : Registry Mention.Key}

theorem exists_meetsNode {t : NodeToken} (ht : t ∈ lines.flatMap nodes) : ∃ r, g.MeetsNode direction lines r t := by
  obtain ⟨ts, hts, ht⟩ := List.mem_flatMap.mp ht
  obtain ⟨before, after, hlines⟩ := List.append_of_mem hts
  obtain ⟨us, vs, hnodes⟩ := List.append_of_mem ht
  exact ⟨_, before, ts, after, us, vs, hlines, hnodes, rfl⟩

theorem exists_meetsLink {l : Link} (hl : l ∈ lines.flatMap links) : ∃ r, g.MeetsLink direction lines r l := by
  obtain ⟨ts, hts, hl⟩ := List.mem_flatMap.mp hl
  obtain ⟨before, after, hlines⟩ := List.append_of_mem hts
  obtain ⟨ls, ls', hlinks⟩ := List.append_of_mem hl
  exact ⟨_, before, ts, after, ls, ls', hlines, hlinks, rfl⟩

theorem mentions_append (before : List (List Token)) (ts : List Token) (after : List (List Token)) :
    g.mentions (before ++ ts :: after) = g.mentions before ++ (nodes ts).map g.mention ++ g.mentions after := by
  simp [mentions]

theorem MeetsNode.gathers {t : NodeToken} (h : g.MeetsNode direction lines r t) :
    ∃ ms more, g.Gathers r ms ∧ g.mentions lines = ms ++ [g.mention t] ++ more := by
  obtain ⟨before, ts, after, us, vs, rfl, hnodes, rfl⟩ := h
  refine ⟨g.mentions before ++ us.map g.mention, vs.map g.mention ++ g.mentions after,
    (g.gathers_takeTokens direction before).foldl_resolve us, ?_⟩
  rw [mentions_append, hnodes]
  simp

theorem MeetsLink.gathers {l : Link} (h : g.MeetsLink direction lines r l) :
    ∃ ms more, g.Gathers r ms ∧ g.mentions lines = ms ++ more ∧ g.mention l.tail ∈ ms ∧ g.mention l.head ∈ ms := by
  obtain ⟨before, ts, after, ls, ls', rfl, hlinks, rfl⟩ := h
  have hends := g.mention_ends_of_links (g.mentions before) ts
  rw [hlinks] at hends
  have hnodes := (g.gathers_takeTokens direction before).foldl_resolve (nodes ts)
  refine ⟨_, g.mentions after, hnodes.foldl_connectLink fun l' hl' => hends l' (List.mem_append_left _ hl'),
    mentions_append before ts after, hends l ?_⟩
  exact List.mem_append_right _ List.mem_cons_self

theorem Gathers.resolve_again {ms : List Mention} (h : g.Gathers r ms) {t : NodeToken} (ht : g.mention t ∈ ms) :
    (g.resolve r t).1 = r := by
  have hnodes : (g.resolve r t).1.document.nodes = r.document.nodes := by
    rw [(h.resolve t).gathered, nodesAmong_concat_of_mem g ht, h.gathered]
  have hid : r.id? (g.mention t).key = some (idAmong (firstMentions ms) (g.mention t)) := by
    rw [h.knows.id?_eq, if_pos (mem_keys_firstMentions ht)]
  have hadd : r.add (g.mention t).key (g.mention t).toNode = (r, idAmong (firstMentions ms) (g.mention t)) := by
    rw [Registry.add, hid]
  unfold Grammar.resolve at hnodes ⊢
  dsimp only at hnodes ⊢
  rw [hadd] at hnodes ⊢
  split
  · next hcompletes =>
    rw [if_pos hcompletes] at hnodes
    unfold Document.modifyNode at hnodes ⊢
    dsimp only at hnodes ⊢
    rw [hnodes]
  · rfl

theorem MeetsLink.resolve_again {l : Link} (h : g.MeetsLink direction lines r l) :
    (g.resolve r l.tail).1 = r ∧ (g.resolve r l.head).1 = r := by
  obtain ⟨ms, -, hr, -, htail, hhead⟩ := h.gathers
  exact ⟨hr.resolve_again htail, hr.resolve_again hhead⟩

namespace Asks

variable {t : NodeToken}

theorem gathers (h : g.Asks direction lines r t) :
    ∃ ms more, g.Gathers r ms ∧ g.mentions lines = ms ++ more ∧
      (g.mention t ∈ ms ∨ [g.mention t] <+: more) := by
  cases h with
  | node h =>
    obtain ⟨ms, more, hr, hms⟩ := h.gathers
    exact ⟨ms, g.mention t :: more, hr, by rw [hms]; simp, .inr (List.prefix_append [g.mention t] more)⟩
  | tail h =>
    obtain ⟨ms, more, hr, hms, htail, -⟩ := h.gathers
    exact ⟨ms, more, hr, hms, .inl htail⟩
  | head h =>
    obtain ⟨ms, more, hr, hms, htail, hhead⟩ := h.gathers
    rw [hr.resolve_again htail]
    exact ⟨ms, more, hr, hms, .inl hhead⟩

theorem mention_mem (h : g.Asks direction lines r t) : g.mention t ∈ g.mentions lines := by
  obtain ⟨ms, more, -, hms, hm⟩ := h.gathers
  rw [hms]
  exact List.mem_append.mpr (hm.imp_right fun hmore => hmore.subset List.mem_cons_self)

theorem id_eq (h : g.Asks direction lines r t) :
    (g.resolve r t).2 = idAmong (firstMentions (g.mentions lines)) (g.mention t) := by
  obtain ⟨ms, more, hr, hms, hm⟩ := h.gathers
  rw [(g.knows_resolve hr.knows t).2, hms]
  rcases hm with hm | ⟨more, rfl⟩
  · rw [firstMentions_concat_of_mem hm, idAmong_append hm]
  · rw [← List.append_assoc, idAmong_append (List.mem_append_right ms List.mem_cons_self)]

theorem id_mem (h : g.Asks direction lines r t) :
    (g.resolve r t).2 ∈ (g.ofTokens direction lines).nodes.map (·.id) := by
  rw [h.id_eq]
  exact g.idAmong_mem_ids direction h.mention_mem

end Asks

end Yuml.Notation.Grammar
