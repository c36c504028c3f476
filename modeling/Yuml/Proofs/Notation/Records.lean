import Yuml.Proofs.Notation.Denotation
import Yuml.Proofs.Notation.Growth

namespace Yuml

theorem Node.Legible.head_compartments {n : Node} (h : n.Legible) : n.compartments.head? = some n.label := by
  unfold Node.compartments
  rcases h.fields with hnone | ⟨-, second, rest, hfields⟩
  · rw [hnone]
    rfl
  · rw [hfields]
    rfl

namespace Notation

def NodeToken.compartments (t : NodeToken) : List Text :=
  Mention.compartmentsOf t.bare

def NodeToken.className? (t : NodeToken) : Option Text :=
  match noteText? t.bare with
  | some _ => none
  | none => some (firstCompartment t.bare)

theorem firstMention_eq_head {ms : List Mention} {m : Mention} (h : m ∈ firstMentions ms) :
    ∃ rest, ms.filter (·.key = m.key) = m :: rest := by
  induction ms using List.reverseRecOn with
  | nil => cases h
  | append_singleton ms n ih =>
    rw [firstMentions_concat] at h
    rw [List.filter_append]
    split at h
    · obtain ⟨rest, hrest⟩ := ih h
      exact ⟨_, by rw [hrest]; rfl⟩
    · next hnew =>
      rcases List.mem_append.mp h with h | h
      · obtain ⟨rest, hrest⟩ := ih h
        exact ⟨_, by rw [hrest]; rfl⟩
      · obtain rfl := List.mem_singleton.mp h
        exact ⟨[], by simp [filter_key_of_new hnew]⟩

namespace Grammar

section Merge

variable {g : Grammar}

variable {known : Mention} {ms : List Mention} (hcompletes : g.completes = true) (hms : ∀ m ∈ ms, m.role = .thing)

include hcompletes hms

theorem fields_foldl_merge :
    (ms.foldl g.merge known).fields = (((known :: ms).map (·.fields)).find? (!·.isEmpty)).getD [] := by
  induction ms generalizing known with
  | nil => cases hknown : known.fields <;> simp [hknown]
  | cons m ms ih =>
    obtain ⟨hm, hms⟩ := List.forall_mem_cons.mp hms
    have hmerge : (g.merge known m).fields = if known.fields.isEmpty then m.fields else known.fields := by
      rw [merge, if_pos (by simp [hcompletes, hm])]
    rw [List.foldl_cons, ih hms]
    cases hknown : known.fields <;> simp [hmerge, hknown]

theorem fill_foldl_merge : (ms.foldl g.merge known).fill = (known :: ms).findSome? (·.fill) := by
  induction ms generalizing known with
  | nil => cases hknown : known.fill <;> simp [hknown]
  | cons m ms ih =>
    obtain ⟨hm, hms⟩ := List.forall_mem_cons.mp hms
    have hmerge : (g.merge known m).fill = known.fill.or m.fill := by
      rw [merge, if_pos (by simp [hcompletes, hm])]
    rw [List.foldl_cons, ih hms, List.findSome?_cons, List.findSome?_cons, hmerge]
    cases known.fill with
    | none => rfl
    | some colour => rfl

end Merge

section Gathered

variable {g : Grammar} (hcompletes : g.completes = true) {ms : List Mention} {m : Mention} (hm : m ∈ firstMentions ms)
  (hrole : m.role = .thing)

include hrole in
theorem role_of_mem_filter : ∀ n ∈ ms.filter (·.key = m.key), n.role = .thing := by
  intro n hn
  have hkey : n.key = m.key := of_decide_eq_true (List.mem_filter.mp hn).2
  exact (Prod.mk.inj hkey).1.trans hrole

include hcompletes hm hrole

theorem fields_gathered : (g.gathered ms m).fields =
    (((ms.filter (·.key = m.key)).map (·.fields)).find? (!·.isEmpty)).getD [] := by
  obtain ⟨rest, hrest⟩ := firstMention_eq_head hm
  rw [gathered, fields_foldl_merge hcompletes (role_of_mem_filter hrole), hrest]
  cases hfields : m.fields <;> simp [hfields]

theorem fill_gathered : (g.gathered ms m).fill = (ms.filter (·.key = m.key)).findSome? (·.fill) := by
  obtain ⟨rest, hrest⟩ := firstMention_eq_head hm
  rw [gathered, fill_foldl_merge hcompletes (role_of_mem_filter hrole), hrest]
  cases hfill : m.fill <;> simp [hfill]

end Gathered

end Grammar

section ClassTokens

variable {t : NodeToken} {name : Text}

theorem className?_eq_some_iff :
    t.className? = some name ↔ (∀ rest, ¬Headed "note" rest t.bare) ∧ firstCompartment t.bare = name := by
  unfold NodeToken.className?
  split
  · next note hnote =>
    obtain ⟨rest, hrest, -⟩ := noteText?_bare.mp hnote
    exact ⟨nofun, fun h => absurd hrest (h.1 rest)⟩
  · next hnone =>
    rw [Option.some.injEq]
    refine ⟨fun h => ⟨fun rest hrest => ?_, h⟩, And.right⟩
    cases (noteText?_bare.mpr ⟨rest, hrest, rfl⟩).symm.trans hnone

theorem ofClass_eq (h : t.className? = some name) : Mention.ofClass t =
    ⟨.thing, name, .record, name, if t.compartments.length > 1 then t.compartments else [], (splitStyle t.text).2⟩ := by
  obtain ⟨hnote, rfl⟩ := className?_eq_some_iff.mp h
  rw [← headD_compartmentsOf]
  exact Mention.orNote_of_not_headed _ hnote

theorem key_ofClass_iff : (Mention.ofClass t).key = (.thing, name) ↔ t.className? = some name := by
  constructor
  · intro h
    have hdenotes : Denotes .classes t .thing name := (denotes_iff (g := Grammar.classes) rfl).mpr h
    cases hdenotes with
    | record _ hnote => exact className?_eq_some_iff.mpr ⟨hnote, rfl⟩
    | package hkind | useCase hkind | device hkind => cases hkind
    | step hkind => rcases hkind with ⟨hkind, -⟩ | ⟨hkind, -⟩ <;> cases hkind
  · intro h
    rw [ofClass_eq h]
    rfl

end ClassTokens

namespace Grammar

def classTokens (lines : List (List Token)) (name : Text) : List NodeToken :=
  (lines.flatMap nodes).filter (·.className? = some name)

theorem className_of_mem {lines : List (List Token)} {name : Text} {t : NodeToken} (ht : t ∈ classTokens lines name) :
    t.className? = some name :=
  of_decide_eq_true (List.mem_filter.mp ht).2

theorem filter_mentions (lines : List (List Token)) (name : Text) :
    (classes.mentions lines).filter (·.key = (.thing, name)) = (classTokens lines name).map .ofClass := by
  rw [mentions, List.filter_map]
  refine congrArg (List.map Mention.ofClass) (List.filter_congr fun t _ => ?_)
  exact decide_eq_decide.mpr key_ofClass_iff

theorem record_of_key {lines : List (List Token)} {m : Mention} {name : Text} (hm : m ∈ classes.mentions lines)
    (hkey : m.key = (.thing, name)) : m.shape = .record ∧ m.label = name := by
  obtain ⟨t, -, rfl⟩ := List.mem_map.mp hm
  have hclass : Mention.ofClass t = _ := ofClass_eq (key_ofClass_iff.mp hkey)
  exact ⟨congrArg Mention.shape hclass, congrArg Mention.label hclass⟩

theorem fields_of_tokens {name : Text} {ts : List NodeToken} (hts : ∀ t ∈ ts, t.className? = some name) :
    ((ts.map fun t => (Mention.ofClass t).fields).find? (!·.isEmpty)).getD [] =
      ((ts.map (·.compartments)).find? (1 < ·.length)).getD [] := by
  induction ts with
  | nil => rfl
  | cons t ts ih =>
    obtain ⟨ht, hts⟩ := List.forall_mem_cons.mp hts
    rw [List.map_cons, List.map_cons, ofClass_eq ht]
    dsimp only
    split
    · next hfull =>
      have hsome : t.compartments ≠ [] := List.ne_nil_of_length_pos (by omega)
      rw [List.find?_cons_of_pos (by simpa using hsome), List.find?_cons_of_pos (by simpa using hfull)]
    · next hbare =>
      rw [List.find?_cons_of_neg (by decide), List.find?_cons_of_neg (by simpa using hbare), ih hts]

theorem fill_of_tokens {name : Text} {ts : List NodeToken} (hts : ∀ t ∈ ts, t.className? = some name) :
    (ts.map Mention.ofClass).findSome? (·.fill) = ts.findSome? fun t => (splitStyle t.text).2 := by
  induction ts with
  | nil => rfl
  | cons t ts ih =>
    obtain ⟨ht, hts⟩ := List.forall_mem_cons.mp hts
    rw [List.map_cons, List.findSome?_cons, List.findSome?_cons, ih hts, ofClass_eq ht]

theorem record_of_classTokens (direction : Direction) (instructions : List Text) :
    let lines := instructions.map (split classes.brackets)
    let d := classes.parse direction instructions
    (∀ t ∈ lines.flatMap nodes, ∀ name, t.className? = some name →
      ∃ n ∈ d.nodes, (∀ r, classes.Asks direction lines r t → (classes.resolve r t).2 = n.id) ∧
        n.shape = .record ∧ n.label = name ∧
        n.fields = (((classTokens lines name).map (·.compartments)).find? (1 < ·.length)).getD [] ∧
        n.fill = (classTokens lines name).findSome? (fun u => (splitStyle u.text).2) ∧
        n.compartments.head? = some name) ∧
      ∀ r l, classes.MeetsLink direction lines r l →
        (classes.resolve r l.tail).1 = r ∧ (classes.resolve r l.head).1 = r := by
  intro lines d
  have hk : ofKind? .classes = some classes := rfl
  refine ⟨fun t ht name hname => ?_, fun r l hl => hl.resolve_again⟩
  have hmention : classes.mention t ∈ classes.mentions lines := List.mem_map_of_mem ht
  obtain ⟨n, hn, hid⟩ := List.mem_map.mp (classes.idAmong_mem_ids direction hmention)
  have hlegible := legible_nodes hk direction lines n hn
  refine ⟨n, hn, fun r hr => hr.id_eq.trans hid.symm, ?_⟩
  rw [nodes_ofTokens] at hn
  obtain ⟨p, hp, rfl⟩ := List.mem_map.mp hn
  have hfirst : p.1 ∈ firstMentions (classes.mentions lines) := List.fst_mem_of_mem_zipIdx hp
  have hkey : p.1.key = (.thing, name) :=
    ((nodeId_eq_idAmong_iff hp _).mp hid).symm.trans (key_ofClass_iff.mpr hname)
  have hrole : p.1.role = .thing := (Prod.mk.inj hkey).1
  have hrecord := record_of_key (mem_of_mem_firstMentions hfirst) hkey
  obtain ⟨hshape, hlabel⟩ := looks_gathered (g := classes) (classes.mentions lines) p.1
  refine ⟨hshape.trans hrecord.1, hlabel.trans hrecord.2, ?_, ?_, ?_⟩
  · refine (fields_gathered rfl hfirst hrole).trans ?_
    rw [hkey, filter_mentions, List.map_map]
    exact fields_of_tokens fun u hu => className_of_mem hu
  · refine (fill_gathered rfl hfirst hrole).trans ?_
    rw [hkey, filter_mentions]
    exact fill_of_tokens fun u hu => className_of_mem hu
  · rw [hlegible.head_compartments]
    exact congrArg some (hlabel.trans hrecord.2)

theorem record_of_classTokens_mixed :
    let text : List Text := ["[A]->[B]", "[B\x7bbg:red\x7d]", "[B|x;y\x7bbg:blue\x7d]-[ B|z]", "[A]"]
    let lines := text.map (split classes.brackets)
    let link : Link := ⟨⟨.square, "A"⟩, some "->".toList, ⟨.square, "B"⟩⟩
    ⟨.square, "B"⟩ ∈ lines.flatMap nodes ∧ (⟨.square, "B"⟩ : NodeToken).className? = some "B".toList ∧
      (∃ n ∈ (classes.parse .topDown text).nodes, n.label = "B" ∧ n.fields = ["B", "x\ny"] ∧ n.fill = some "red".toList) ∧
      ∃ r, classes.MeetsLink .topDown lines r link ∧ (classes.resolve r link.head).1 = r := by
  intro text lines link
  have ht : ⟨.square, "B"⟩ ∈ lines.flatMap nodes := by decide +kernel
  have hname : (⟨.square, "B"⟩ : NodeToken).className? = some "B".toList := by decide +kernel
  have hlink : link ∈ lines.flatMap links := by decide +kernel
  obtain ⟨hrecord, hagain⟩ := record_of_classTokens .topDown text
  obtain ⟨n, hn, -, -, hlabel, hfields, hfill, -⟩ := hrecord _ ht _ hname
  obtain ⟨r, hr⟩ := exists_meetsLink hlink
  refine ⟨ht, hname, ⟨n, hn, hlabel, hfields.trans ?_, hfill.trans ?_⟩, r, hr, (hagain r link hr).2⟩
  · decide +kernel
  · decide +kernel

end Grammar

end Notation

end Yuml
