import Mathlib.Data.List.Find
import Yuml.Proofs.Notation.Denotation

namespace Yuml

section Registry

variable {κ κ' : Type}

def Registry.mapKeys (f : κ → κ') (r : Registry κ) : Registry κ' :=
  ⟨r.document, r.known.map fun p => (f p.1, p.2)⟩

variable [DecidableEq κ] [DecidableEq κ'] {f : κ → κ'} {r : Registry κ} {key : κ}

theorem Registry.id?_mapKeys (hf : ∀ p ∈ r.known, f p.1 = f key → p.1 = key) :
    (r.mapKeys f).id? (f key) = r.id? key := by
  have hfind : r.known.find? ((·.1 = f key) ∘ fun p => (f p.1, p.2)) = r.known.find? (·.1 = key) := by
    refine List.find?_congr fun p hp => ?_
    exact decide_eq_decide.mpr ⟨hf p hp, congrArg f⟩
  rw [id?, mapKeys, List.find?_map, Option.map_map, hfind, id?]
  rfl

/-- How keys are written makes no difference as long as it tells the key that is looked up from all others. -/
theorem Registry.add_mapKeys (hf : ∀ p ∈ r.known, f p.1 = f key → p.1 = key) (build : Text → Node) :
    (r.mapKeys f).add (f key) build = ((r.add key build).1.mapKeys f, (r.add key build).2) := by
  have hnext : (r.mapKeys f).nextId = r.nextId := by
    rw [nextId, mapKeys, List.length_map, nextId]
  rw [add, id?_mapKeys hf, hnext, add]
  cases r.id? key with
  | some id => rfl
  | none => simp [mapKeys]

end Registry

namespace Notation

def Role.marker (k : DiagramKind) : Role → Text
  | note => "note:"
  | component => "component:"
  | actor => "actor:"
  | start => "start"
  | final => "end"
  | decision => "decision:"
  | bar => "bar:"
  | thing =>
    match k with
    | .useCases => "case:"
    | .activity => "activity:"
    | .state => "state:"
    | .deployment => "node:"
    | _ => ""

def spell (k : DiagramKind) (key : Mention.Key) : Text :=
  key.1.marker k ++ key.2

def Role.all : List Role :=
  [note, thing, component, actor, start, final, decision, bar]

theorem Role.mem_all (role : Role) : role ∈ all := by
  cases role <;> decide

theorem Role.marker_inj {k : DiagramKind} (hk : k ∈ [.useCases, .activity, .state, .deployment]) {role role' : Role}
    (h : role.marker k <+: role'.marker k) : role = role' := by
  have hall : ∀ k ∈ [DiagramKind.useCases, .activity, .state, .deployment], ∀ role ∈ all, ∀ role' ∈ all,
      role.marker k <+: role'.marker k → role = role' := by decide +kernel
  exact hall k hk role role.mem_all role' role'.mem_all h

variable {k : DiagramKind} {g : Grammar} {t u : NodeToken} {role : Role} {name : Text}

theorem prefix_of_map {p s : Text} {f : Char → Char} (hf : ∀ c, f c ∈ p → f c = c) (h : p <+: s.map f) : p <+: s := by
  induction p generalizing s with
  | nil => exact List.nil_prefix
  | cons c p ih =>
    cases s with
    | nil => exact absurd h (by simp)
    | cons d s =>
      rw [List.map_cons, List.cons_prefix_cons] at h
      obtain ⟨rfl, h⟩ := h
      rw [List.cons_prefix_cons]
      exact ⟨hf d List.mem_cons_self, ih (fun c hc => hf c (List.mem_cons_of_mem _ hc)) h⟩

theorem prefix_of_firstCompartment {p s : Text} (hp : '\n' ∉ p) (hs : Text.trim s = s) (h : p <+: firstCompartment s) :
    p <+: s := by
  have hfirst : s.takeWhile (· != '|') <+: s := List.takeWhile_prefix _
  have hcut : (s.takeWhile (· != '|')).dropWhile Text.isBlank = s.takeWhile (· != '|') := by
    refine Text.dropWhile_eq_self_mono hfirst ?_
    rw [← hs]
    exact Text.dropWhile_trimBy Text.isBlank s
  have htrim : Text.trim (s.takeWhile (· != '|')) <+: s := by
    refine (Text.trimBy_prefix_dropWhile Text.isBlank _).trans ?_
    rwa [hcut]
  refine (prefix_of_map (fun c hc => ?_) h).trans htrim
  split at hc
  · exact absurd hc hp
  · next hc' => exact if_neg hc'

theorem headed_of_marker (word : Text) {s : Text} (hword : word.map Char.toLower = word) (h : word ++ [':'] <+: s) :
    ∃ rest, Headed word rest s := by
  obtain ⟨rest, rfl⟩ := h
  exact ⟨rest, word, [], by simp, hword, List.forall_mem_nil _⟩

theorem not_prefix_of_bare (hk : k = .classes ∨ k = .package) (h : Denotes k t .thing name) :
    ¬Role.marker k .note <+: name := by
  intro hprefix
  have hheaded (s : Text) (hs : "note:".toList <+: s) : ∃ rest, Headed "note" rest s :=
    headed_of_marker "note" (by decide) hs
  cases h with
  | record _ hnote =>
    obtain ⟨rest, hrest⟩ := hheaded t.bare (prefix_of_firstCompartment (by decide) (trim_bare t) hprefix)
    exact hnote rest hrest
  | package _ hnote =>
    obtain ⟨rest, hrest⟩ := hheaded t.bare hprefix
    exact hnote rest hrest
  | useCase hkind | device hkind =>
    cases hkind
    rcases hk with hk | hk <;> cases hk
  | step hkind =>
    rcases hkind with ⟨rfl, -⟩ | ⟨rfl, -⟩ <;> rcases hk with hk | hk <;> cases hk

theorem role_of_bare (hk : k = .classes ∨ k = .package) (h : Denotes k t role name) : role = .note ∨ role = .thing := by
  cases h with
  | note => exact .inl rfl
  | record | package | useCase | device | step => exact .inr rfl
  | actor hkind | component hkind | decision hkind | bar hkind =>
    cases hkind
    rcases hk with hk | hk <;> cases hk
  | start hkind | final hkind => rcases hkind with rfl | ⟨rfl, -⟩ <;> rcases hk with hk | hk <;> cases hk

theorem spell_inj (hk : Grammar.ofKind? k = some g) {role' : Role} {name' : Text} (h : Denotes k t role name)
    (h' : Denotes k u role' name') (heq : spell k (role, name) = spell k (role', name')) : role = role' ∧ name = name' := by
  have hrole : role = role' := by
    by_cases hbare : k = .classes ∨ k = .package
    · have hmarker : Role.marker k .thing = [] := by rcases hbare with rfl | rfl <;> rfl
      unfold spell at heq
      rcases role_of_bare hbare h with rfl | rfl <;> rcases role_of_bare hbare h' with rfl | rfl
      · rfl
      · dsimp only at heq
        rw [hmarker] at heq
        exact absurd ⟨name, heq⟩ (not_prefix_of_bare hbare h')
      · dsimp only at heq
        rw [hmarker] at heq
        exact absurd ⟨name', heq.symm⟩ (not_prefix_of_bare hbare h)
      · rfl
    · have hmarked : k ∈ [.useCases, .activity, .state, .deployment] := by
        cases k with
        | classes | package => simp at hbare
        | useCases | activity | state | deployment => decide
        | sequence => cases hk
      have hname : role.marker k <+: spell k (role, name) := List.prefix_append _ _
      have hname' : role'.marker k <+: spell k (role, name) := heq ▸ List.prefix_append _ _
      rcases List.prefix_or_prefix_of_prefix hname hname' with hprefix | hprefix
      · exact Role.marker_inj hmarked hprefix
      · exact (Role.marker_inj hmarked hprefix).symm
  subst hrole
  exact ⟨rfl, List.append_cancel_left heq⟩

namespace Grammar

variable {direction : Direction} {lines : List (List Token)} {r : Registry Mention.Key}

theorem Asks.exists_of_mem_known (h : g.Asks direction lines r t) {p : Mention.Key × Text} (hp : p ∈ r.known) :
    ∃ u, (g.mention u).key = p.1 := by
  obtain ⟨ms, more, hr, hms, -⟩ := h.gathers
  rw [hr.knows.known] at hp
  obtain ⟨first, hfirst, rfl⟩ := List.mem_map.mp hp
  have hmem : first.1 ∈ g.mentions lines := by
    rw [hms]
    exact List.mem_append_left _ (mem_of_mem_firstMentions (List.fst_mem_of_mem_zipIdx hfirst))
  obtain ⟨u, -, hu⟩ := List.mem_map.mp hmem
  exact ⟨u, congrArg Mention.key hu⟩

theorem Asks.add_mapKeys (hk : ofKind? k = some g) (h : g.Asks direction lines r t) :
    (r.mapKeys (spell k)).add (spell k (g.mention t).key) (g.mention t).toNode =
      ((r.add (g.mention t).key (g.mention t).toNode).1.mapKeys (spell k),
        (r.add (g.mention t).key (g.mention t).toNode).2) := by
  refine Registry.add_mapKeys (fun p hp heq => ?_) _
  obtain ⟨u, hu⟩ := h.exists_of_mem_known hp
  rw [← hu] at heq ⊢
  obtain ⟨hrole, hname⟩ := spell_inj hk ((denotes_iff hk).mpr rfl) ((denotes_iff hk).mpr rfl) heq
  exact Prod.ext hrole hname

theorem id_resolve (g : Grammar) (r : Registry Mention.Key) (t : NodeToken) :
    (g.resolve r t).2 = (r.add (g.mention t).key (g.mention t).toNode).2 := by
  unfold resolve
  dsimp only
  split
  · rfl
  · rfl

theorem idAmong_inj {ms : List Mention} {m n : Mention} (hm : m ∈ ms) :
    idAmong (firstMentions ms) m = idAmong (firstMentions ms) n ↔ m.key = n.key := by
  rw [idAmong, idAmong, Registry.nodeId_injective.eq_iff, List.idxOf_inj (mem_keys_firstMentions hm)]

theorem ids_tell_apart (hk : ofKind? k = some g) (direction : Direction) (instructions : List Text) :
    let lines := instructions.map (split g.brackets)
    (∀ t ∈ lines.flatMap nodes, ∃ r, g.Asks direction lines r t) ∧
      (∀ r t, g.Asks direction lines r t →
        (∃! thing : Role × Text, Denotes k t thing.1 thing.2) ∧
          (g.resolve r t).2 ∈ (g.parse direction instructions).nodes.map (·.id) ∧
          (r.mapKeys (spell k)).add (spell k (g.mention t).key) (g.mention t).toNode =
            ((r.add (g.mention t).key (g.mention t).toNode).1.mapKeys (spell k), (g.resolve r t).2)) ∧
      ∀ r t s u, g.Asks direction lines r t → g.Asks direction lines s u →
        ((g.resolve r t).2 = (g.resolve s u).2 ↔ ∃ role name, Denotes k t role name ∧ Denotes k u role name) := by
  intro lines
  refine ⟨fun t ht => ?_, fun r t ht => ⟨?_, ht.id_mem, ?_⟩, fun r t s u ht hu => ?_⟩
  · obtain ⟨r, hr⟩ := exists_meetsNode ht
    exact ⟨r, .node hr⟩
  · exact ⟨(g.mention t).key, (denotes_iff hk).mpr rfl, fun thing h => (key_of_denotes hk h).symm⟩
  · rw [ht.add_mapKeys hk, id_resolve]
  · rw [ht.id_eq, hu.id_eq, idAmong_inj ht.mention_mem]
    constructor
    · intro hkey
      exact ⟨_, _, (denotes_iff hk).mpr rfl, (denotes_iff hk).mpr hkey.symm⟩
    · rintro ⟨role, name, h, h'⟩
      exact (key_of_denotes hk h).trans (key_of_denotes hk h').symm

theorem ids_tell_apart_note_and_class :
    let lines := List.map (split classes.brackets) ["[NOTE : a|b]-[a;b|x]".toList, "[ a\nb ]".toList]
    let note : NodeToken := ⟨.square, "NOTE : a|b"⟩
    let first : NodeToken := ⟨.square, "a;b|x"⟩
    let second : NodeToken := ⟨.square, " a\nb "⟩
    ofKind? .classes = some classes ∧
      ∃ r s q, classes.Asks .topDown lines r first ∧ classes.Asks .topDown lines s second ∧
        classes.Asks .topDown lines q note ∧ (classes.resolve r first).2 = (classes.resolve s second).2 ∧
        (classes.resolve q note).2 ≠ (classes.resolve r first).2 := by
  intro lines note first second
  have hk : ofKind? .classes = some classes := rfl
  obtain ⟨hasks, -, htell⟩ := ids_tell_apart hk .topDown ["[NOTE : a|b]-[a;b|x]", "[ a\nb ]"]
  obtain ⟨r, hr⟩ := hasks first (by decide +kernel)
  obtain ⟨s, hs⟩ := hasks second (by decide +kernel)
  obtain ⟨q, hq⟩ := hasks note (by decide +kernel)
  refine ⟨hk, r, s, q, hr, hs, hq, (htell r first s second hr hs).mpr ⟨.thing, "a\nb", ?_, ?_⟩, fun hid => ?_⟩
  · exact (denotes_iff hk).mpr (by decide +kernel)
  · exact (denotes_iff hk).mpr (by decide +kernel)
  · obtain ⟨role, name, hnote, hclass⟩ := (htell q note r first hq hr).mp hid
    have hkeys := (key_of_denotes hk hnote).trans (key_of_denotes hk hclass).symm
    exact absurd hkeys (by decide +kernel)

end Grammar

end Notation

end Yuml
