import Yuml.Proofs.Notation.Mention
import Yuml.Sequence.Script

namespace Yuml.Sequence

open Notation

namespace Script

def names (s : Script) : List Text :=
  s.participants.map (·.name)

theorem meet_eq (s : Script) (t : NodeToken) :
    s.meet t = if s.participants.any (·.name = t.bare) then s
      else { s with participants := s.participants ++ [⟨t.bare, (splitStyle t.text).2⟩] } :=
  rfl

theorem names_meet (s : Script) (t : NodeToken) :
    (s.meet t).names = if t.bare ∈ s.names then s.names else s.names ++ [t.bare] := by
  have hknown : s.participants.any (·.name = t.bare) = true ↔ t.bare ∈ s.names := by
    simp [names]
  rw [meet_eq]
  by_cases h : t.bare ∈ s.names
  · rw [if_pos h, if_pos (hknown.mpr h)]
  · rw [if_neg h, if_neg (mt hknown.mp h)]
    simp [names]

theorem messages_meet (s : Script) (t : NodeToken) : (s.meet t).messages = s.messages := by
  rw [meet_eq]
  split <;> rfl

theorem names_foldl_meet {s : Script} {seen : List Text} (h : s.names = seen.eraseDups)
    (ts : List NodeToken) : (ts.foldl meet s).names = (seen ++ ts.map (·.bare)).eraseDups :=
  List.foldl_eq_eraseDups names_meet h ts

theorem messages_foldl_meet (s : Script) (ts : List NodeToken) :
    (ts.foldl meet s).messages = s.messages := by
  induction ts generalizing s with
  | nil => rfl
  | cons t ts ih => rw [List.foldl_cons, ih, messages_meet]

theorem foldl_takeTokens {s : Script} {seen : List Text} (h : s.names = seen.eraseDups)
    (lines : List (List Token)) :
    (lines.foldl takeTokens s).names = (seen ++ (lines.flatMap nodes).map (·.bare)).eraseDups ∧
      (lines.foldl takeTokens s).messages = s.messages ++ (lines.flatMap links).map messageOf := by
  induction lines generalizing s seen with
  | nil => exact ⟨by simpa using h, by simp⟩
  | cons ts lines ih =>
    have hnames : (s.takeTokens ts).names = (seen ++ (nodes ts).map (·.bare)).eraseDups :=
      names_foldl_meet h (nodes ts)
    have hmessages : (s.takeTokens ts).messages = s.messages ++ (links ts).map messageOf := by
      rw [takeTokens, messages_foldl_meet]
    obtain ⟨hn, hm⟩ := ih hnames
    rw [List.foldl_cons, hn, hm, hmessages]
    exact ⟨by simp, by simp⟩

theorem names_ofTokens (lines : List (List Token)) :
    (ofTokens lines).names = ((lines.flatMap nodes).map (·.bare)).eraseDups := by
  have hstart : ({} : Script).names = ([] : List Text).eraseDups := rfl
  exact (foldl_takeTokens hstart lines).1

theorem messages_ofTokens (lines : List (List Token)) :
    (ofTokens lines).messages = (lines.flatMap links).map messageOf := by
  have hstart : ({} : Script).names = ([] : List Text).eraseDups := rfl
  exact (foldl_takeTokens hstart lines).2

theorem ends_mem_names (lines : List (List Token)) {m : Message} (hm : m ∈ (ofTokens lines).messages) :
    m.sender ∈ (ofTokens lines).names ∧ m.receiver ∈ (ofTokens lines).names := by
  rw [messages_ofTokens] at hm
  obtain ⟨l, hl, rfl⟩ := List.mem_map.mp hm
  obtain ⟨ts, hts, hl⟩ := List.mem_flatMap.mp hl
  have hname {t : NodeToken} (ht : t ∈ nodes ts) : t.bare ∈ (ofTokens lines).names := by
    rw [names_ofTokens, List.mem_eraseDups]
    exact List.mem_map_of_mem (List.mem_flatMap.mpr ⟨ts, hts, ht⟩)
  exact ⟨hname (mem_nodes_of_mem_links hl).1, hname (mem_nodes_of_mem_links hl).2⟩

theorem legal_fill_ofTokens (lines : List (List Token)) :
    ∀ p ∈ (ofTokens lines).participants, ∀ c, p.fill = some c → Xml.Legal c := by
  have hmeet (s : Script) (h : ∀ p ∈ s.participants, ∀ c, p.fill = some c → Xml.Legal c) (t : NodeToken) :
      ∀ p ∈ (s.meet t).participants, ∀ c, p.fill = some c → Xml.Legal c := by
    rw [meet_eq]
    split
    · exact h
    · exact List.forall_mem_append.mpr ⟨h, List.forall_mem_singleton.mpr fun c hc => legal_splitStyle hc⟩
  have hstart : ∀ p ∈ ({} : Script).participants, ∀ c, p.fill = some c → Xml.Legal c := fun _ hp => nomatch hp
  refine List.foldlRecOn (motive := fun s => ∀ p ∈ s.participants, ∀ c, p.fill = some c → Xml.Legal c)
    lines takeTokens hstart fun s hs ts _ => ?_
  exact List.foldlRecOn (motive := fun s => ∀ p ∈ s.participants, ∀ c, p.fill = some c → Xml.Legal c)
    (nodes ts) meet hs fun s hs t _ => hmeet s hs t

end Script

end Yuml.Sequence
