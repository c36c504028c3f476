import Yuml.Proofs.Drawing.Marks
import Yuml.Proofs.Outcome

namespace Yuml

open Xml

namespace Attributes

theorem get?_cons (name value other : Text) (a : Attributes) :
    get? ((name, value) :: a) other = if name = other then some value else a.get? other := by
  rw [get?, List.find?_cons]
  by_cases h : name = other
  · rw [if_pos h, decide_eq_true h]
    rfl
  · rw [if_neg h, decide_eq_false h]
    rfl

theorem get?_set (name value other : Text) (a : Attributes) :
    (a.set name value).get? other = if name = other then some value else a.get? other := by
  induction a with
  | nil => exact get?_cons name value other []
  | cons p a ih =>
    obtain ⟨n, v⟩ := p
    rw [set]
    split
    · next h =>
      subst h
      rw [get?_cons, get?_cons]
      split
      · rfl
      · rfl
    · next h =>
      rw [get?_cons, get?_cons, ih]
      by_cases hother : n = other
      · have hname : name ≠ other := fun heq => h (hother.trans heq.symm)
        rw [if_pos hother, if_neg hname, if_pos hother]
      · rw [if_neg hother, if_neg hother]

end Attributes

theorem Value.entries_eq_nil {entries : List (Value × Value)} (h : (mapping entries).isTrue = false) :
    entries = [] := by
  simpa [isTrue] using h

def Theme.style (t : Theme) (nodeSize edgeSize : Float) : Style :=
  ⟨t.ink, t.background, ⟨t.font, nodeSize, t.ink⟩, t.ink, ⟨t.font, edgeSize, t.ink⟩⟩

theorem Style.ofHeader_header {t : Theme} {size : Float} (h : Value.readFloat t.fontSize = .ok size) :
    Style.ofHeader (some t.header) = .ok (t.style size size) := by
  change (do pure (t.style (← Value.readFloat t.fontSize) (← Value.readFloat t.fontSize))) = _
  rw [h]
  rfl

theorem Theme.legal_choose (isDark : Bool) : Legal (Theme.choose isDark).ink ∧
    Legal (Theme.choose isDark).background ∧ Legal (Theme.choose isDark).font := by
  cases isDark with
  | false => exact ⟨legal_of_all (by decide), legal_of_all (by decide), legal_of_all (by decide)⟩
  | true => exact ⟨legal_of_all (by decide), legal_of_all (by decide), legal_of_all (by decide)⟩

theorem Style.ofHeader_choose (isDark : Bool) :
    ∃ s, Style.ofHeader (some (Theme.choose isDark).header) = .ok s ∧ Pen.Allows Legal s := by
  have hsize : ∃ size, Value.readFloat (Theme.choose isDark).fontSize = .ok size := by
    cases isDark with
    | false => exact ⟨_, rfl⟩
    | true => exact ⟨_, rfl⟩
  obtain ⟨size, hsize⟩ := hsize
  obtain ⟨hink, hbackground, hfont⟩ := Theme.legal_choose isDark
  exact ⟨_, ofHeader_header hsize, fun _ h => h, hink, hbackground, hfont, hink, hink, hfont, hink⟩

namespace Document

theorem wrap_eq_ok {d themed : Document} {isDark : Bool} {overrides : Value}
    (h : d.wrap isDark overrides = .ok themed) : ∃ header, themed = { d with header := some header } := by
  obtain ⟨header, -, heq⟩ := Except.bind_eq_ok.mp h
  exact ⟨header, (Except.ok.inj heq).symm⟩

theorem wrap_of_empty (d : Document) (isDark : Bool) {overrides : Value} (h : overrides.isTrue = false) :
    d.wrap isDark overrides = .ok { d with header := some (Theme.choose isDark).header } := by
  have hsame : (Theme.choose isDark).header.override overrides = .ok (Theme.choose isDark).header := by
    cases overrides with
    | mapping entries =>
      obtain rfl := Value.entries_eq_nil h
      rfl
    | _ => simp [Header.override, h]
  rw [wrap, hsame]
  rfl

end Document

end Yuml
