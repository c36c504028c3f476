import Yuml.Proofs.Drawing.Picture

namespace Yuml

namespace Pen

open Xml Item

section Write

variable {Q : Char → Prop} (hQ : ∀ c, isLegal c = true → Q c)

include hQ

theorem of_mem_write_element {name : Text} (hname : isPlainName name = true) {a : Attributes}
    (hnames : ∀ p ∈ a, isPlainName p.1 = true) (hvalues : ∀ p ∈ a, ∀ c ∈ p.2, Q c) {children : List Markup}
    (hchildren : ∀ i ∈ children, ∀ c ∈ i.write, Q c) : ∀ c ∈ (Item.element name a children).write, Q c := by
  have hplain {n : Text} (hn : isPlainName n = true) : ∀ c ∈ n, Q c := fun c hc => hQ c (verbatim_name hn c hc).1
  intro c hc
  rcases mem_write_element hc with hc | hc | ⟨p, hp, hc | hc⟩ | ⟨i, hi, hc⟩
  · exact hQ c (legal_marks c hc)
  · exact hplain hname c hc
  · exact hplain (hnames p hp) c hc
  · exact hvalues p hp c hc
  · exact hchildren i hi c hc

theorem Drawn.of_mem_write {i : Markup} (h : Drawn (fun v => ∀ c ∈ v, Q c) i) : ∀ c ∈ i.write, Q c := by
  induction h with
  | mark h =>
    obtain ⟨name, a, s, rfl, hname, hnames, hvalues, -⟩ := h
    have hplain : ∀ n ∈ markNames, isPlainName n = true := by decide
    apply of_mem_write_element hQ (hplain name hname) (fun p hp => ((names_of_areSeparate hnames).1 p hp).1) hvalues
    intro i hi c hc
    unfold ofText at hi
    split at hi
    · cases hi
    · rw [List.mem_singleton.mp hi, write] at hc
      exact hQ c (legal_escape (legal_legalText s) c hc)
  | group hnames hvalues _ ih =>
    exact of_mem_write_element hQ (by decide) (fun p hp => ((names_of_areSeparate hnames).1 p hp).1) hvalues ih

theorem of_mem_write_canvas {content : List Markup} (h : ∀ i ∈ content, Drawn (fun v => ∀ c ∈ v, Q c) i)
    (width height : Float) : ∀ c ∈ (canvas width height content).write, Q c := by
  -- the attributes are those of an empty canvas
  have hempty : AllWellFormed [] := trivial
  obtain ⟨-, hattributes, -⟩ := wellFormed_canvas hempty width height
  exact of_mem_write_element hQ (by decide) hattributes.plain (fun p hp c hc => hQ c (hattributes.legal p hp c hc))
    fun i hi => (h i hi).of_mem_write hQ

end Write

end Pen

namespace Attributes

theorem mem_of_get? {a : Attributes} {name v : Text} (h : a.get? name = some v) : (name, v) ∈ a := by
  obtain ⟨p, hp, rfl⟩ := Option.map_eq_some_iff.mp h
  have hfound := List.find?_some hp
  have hname : p.1 = name := of_decide_eq_true hfound
  exact hname ▸ List.mem_of_find?_eq_some hp

theorem get?_setAll {a : Attributes} {pairs : List (Text × Text)} {name v : Text}
    (h : (a.setAll pairs).get? name = some v) : a.get? name = some v ∨ (name, v) ∈ pairs := by
  induction pairs generalizing a with
  | nil => exact .inl h
  | cons p pairs ih =>
    rcases ih h with hset | hmem
    · rw [get?_set] at hset
      split at hset
      · next hname => exact .inr (hname ▸ Option.some.inj hset ▸ List.mem_cons_self)
      · exact .inl hset
    · exact .inr (List.mem_cons_of_mem p hmem)

theorem of_getD {P : Text → Prop} {a : Attributes} {name otherwise : Text} (h : ∀ v, a.get? name = some v → P v)
    (hother : P otherwise) : P (a.getD name otherwise) := by
  unfold getD
  cases hget : a.get? name with
  | none => exact hother
  | some v => exact h v hget

end Attributes

def Value.Sets (overrides : Value) (part name v : Text) : Prop :=
  ∃ entries settings, overrides = .mapping entries ∧ Value.lookup part entries = some (.mapping settings) ∧
    ∃ p ∈ settings, p.1.display = name ∧ p.2.display = v

namespace Header

theorem sets_of_overridesFor {entries : List (Value × Value)} {part : Text} {pairs : List (Text × Text)}
    (h : overridesFor entries part = .ok pairs) {name v : Text} (hmem : (name, v) ∈ pairs) :
    (Value.mapping entries).Sets part name v := by
  unfold overridesFor at h
  split at h
  · cases h
    cases hmem
  · next settings hlookup =>
    cases h
    obtain ⟨p, hp, heq⟩ := List.mem_map.mp hmem
    exact ⟨entries, settings, rfl, hlookup, p, hp, congrArg Prod.fst heq, congrArg Prod.snd heq⟩
  · split at h
    · cases h
    · cases h
      cases hmem

def shown : List (Text × Text) :=
  [("graph", "bgcolor"), ("node", "color"), ("node", "fontcolor"), ("node", "fontname"), ("edge", "color"),
    ("edge", "fontcolor"), ("edge", "fontname")]

theorem get?_override {h h' : Header} {overrides : Value} (hover : h.override overrides = .ok h') (name v : Text) :
    (h'.graph.get? name = some v → h.graph.get? name = some v ∨ overrides.Sets "graph" name v) ∧
      (h'.node.get? name = some v → h.node.get? name = some v ∨ overrides.Sets "node" name v) ∧
      (h'.edge.get? name = some v → h.edge.get? name = some v ∨ overrides.Sets "edge" name v) := by
  unfold override at hover
  split at hover
  · obtain ⟨graph, hgraph, hover⟩ := Except.bind_eq_ok.mp hover
    obtain ⟨node, hnode, hover⟩ := Except.bind_eq_ok.mp hover
    obtain ⟨edge, hedge, hover⟩ := Except.bind_eq_ok.mp hover
    cases hover
    exact ⟨fun hget => (Attributes.get?_setAll hget).imp_right (sets_of_overridesFor hgraph),
      fun hget => (Attributes.get?_setAll hget).imp_right (sets_of_overridesFor hnode),
      fun hget => (Attributes.get?_setAll hget).imp_right (sets_of_overridesFor hedge)⟩
  · split at hover
    · cases hover
    · cases hover
      exact ⟨.inl, .inl, .inl⟩

end Header

open Xml

theorem Theme.legal_header (isDark : Bool) (name v : Text) :
    ((Theme.choose isDark).header.graph.get? name = some v → Legal v) ∧
      ((Theme.choose isDark).header.node.get? name = some v → Legal v) ∧
      ((Theme.choose isDark).header.edge.get? name = some v → Legal v) := by
  have hall (isDark : Bool) : [(Theme.choose isDark).header.graph, (Theme.choose isDark).header.node,
      (Theme.choose isDark).header.edge].all (fun a => a.all fun p => p.2.all isLegal) = true := by
    revert isDark
    decide
  simp only [List.all_cons, List.all_nil, Bool.and_true, Bool.and_eq_true] at hall
  obtain ⟨hgraph, hnode, hedge⟩ := hall isDark
  have hlegal {a : Attributes} (ha : (a.all fun p => p.2.all isLegal) = true) (h : a.get? name = some v) : Legal v :=
    legal_of_all (List.all_eq_true.mp ha _ (Attributes.mem_of_get? h))
  exact ⟨hlegal hgraph, hlegal hnode, hlegal hedge⟩

section Allows

variable {P : Text → Prop} (hP : ∀ v, Legal v → P v)

include hP

theorem Style.allows_of_header {h : Header} {s : Style} (hs : Style.ofHeader (some h) = .ok s)
    (hgraph : ∀ v, h.graph.get? "bgcolor" = some v → P v)
    (hnode : ∀ name ∈ ["color".toList, "fontcolor".toList, "fontname".toList], ∀ v, h.node.get? name = some v → P v)
    (hedge : ∀ name ∈ ["color".toList, "fontcolor".toList, "fontname".toList], ∀ v, h.edge.get? name = some v → P v) :
    Pen.Allows P s := by
  obtain ⟨nodeSize, -, hs⟩ := Except.bind_eq_ok.mp hs
  obtain ⟨hlight, hclear, hfont⟩ := Theme.legal_choose false
  have hink := Attributes.of_getD (hnode "color" (by decide)) (hP _ hlight)
  have hnodeFont := Attributes.of_getD (hnode "fontname" (by decide)) (hP _ hfont)
  have hedgeInk := Attributes.of_getD (hedge "color" (by decide)) hink
  have hbackground := Attributes.of_getD hgraph (hP _ hclear)
  have hnodeColor := Attributes.of_getD (hnode "fontcolor" (by decide)) hink
  have hedgeFont := Attributes.of_getD (hedge "fontname" (by decide)) hnodeFont
  have hedgeColor := Attributes.of_getD (hedge "fontcolor" (by decide)) hedgeInk
  dsimp only at hs
  split at hs
  all_goals
    obtain ⟨edgeSize, -, hs⟩ := Except.bind_eq_ok.mp hs
    cases hs
    exact ⟨hP, hink, hbackground, hnodeFont, hnodeColor, hedgeInk, hedgeFont, hedgeColor⟩

theorem Document.allows_of_wrap {d themed : Document} {isDark : Bool} {overrides : Value}
    (hthemed : d.wrap isDark overrides = .ok themed)
    (hsets : ∀ q ∈ Header.shown, ∀ v, overrides.Sets q.1 q.2 v → P v) {s : Style}
    (hs : Style.ofHeader themed.header = .ok s) : Pen.Allows P s := by
  obtain ⟨header, hover, hthemed⟩ := Except.bind_eq_ok.mp hthemed
  cases hthemed
  have hget := Header.get?_override hover
  have hlegal := Theme.legal_header isDark
  have hshown : ∀ name ∈ ["color".toList, "fontcolor".toList, "fontname".toList],
      ("node".toList, name) ∈ Header.shown ∧ ("edge".toList, name) ∈ Header.shown := by decide
  refine Style.allows_of_header hP hs (fun v h => ?_) (fun name hname v h => ?_) fun name hname v h => ?_
  · exact ((hget _ v).1 h).elim (fun h => hP v ((hlegal _ v).1 h)) (hsets ("graph", "bgcolor") (by decide) v)
  · exact ((hget name v).2.1 h).elim (fun h => hP v ((hlegal name v).2.1 h)) (hsets _ (hshown name hname).1 v)
  · exact ((hget name v).2.2 h).elim (fun h => hP v ((hlegal name v).2.2 h)) (hsets _ (hshown name hname).2 v)

end Allows

end Yuml
