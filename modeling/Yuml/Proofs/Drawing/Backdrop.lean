import Yuml.Proofs.Drawing.Origin

namespace Yuml

open Xml

theorem Number.not_mem_fmt {c : Char} (h : 58 ≤ c.toNat) (hword : c ∉ "-inf nan".toList) (x : Float) : c ∉ fmt x := by
  intro hc
  rcases fmt_cases x with hx | ⟨negative, s, hs, hx⟩
  · have hsub : ∀ w ∈ ["nan".toList, "inf".toList, "-inf".toList], w ⊆ "-inf nan".toList := by decide
    exact hword (hsub _ hx hc)
  · rw [hx] at hc
    have hbounds := isMark_bounds (isMark_of_isDecimal hs negative c hc)
    omega

def Value.backdrop (colour : Text) : Value :=
  .mapping [(.text "graph", .mapping [(.text "bgcolor", .text colour)])]

theorem Value.eq_of_sets_backdrop {colour part name v : Text} (h : (backdrop colour).Sets part name v) : v = colour := by
  obtain ⟨entries, settings, hentries, hlookup, p, hp, -, rfl⟩ := h
  obtain rfl : [(.text "graph", .mapping [(.text "bgcolor", .text colour)])] = entries := Value.mapping.inj hentries
  obtain ⟨q, hfound, hq⟩ := Option.map_eq_some_iff.mp hlookup
  obtain rfl := List.mem_singleton.mp (List.mem_of_find?_eq_some hfound)
  obtain rfl := Value.mapping.inj hq
  obtain rfl := List.mem_singleton.mp hp
  rfl

def Style.onBackdrop (colour : Text) : Style :=
  { Theme.light.style 10 10 with background := colour }

namespace Document

theorem picture_onBackdrop {d : Document} (hd : d.Named) (colour : Text) :
    ∃ (themed : Document) (w : themed.Drawing), d.wrap false (.backdrop colour) = .ok themed ∧
      themed.nodes = d.nodes ∧ themed.edges = d.edges ∧ themed.picture .none = .ok (w.picture (.onBackdrop colour)) := by
  let header : Header := { Theme.light.header with graph := Theme.light.header.graph.set "bgcolor" colour }
  have hs : Style.ofHeader (some header) = .ok (.onBackdrop colour) := rfl
  have hempty : Value.none.isTrue = false := rfl
  have hgaps := Layered.Layout.gaps_of_empty hempty
  obtain ⟨w, hw⟩ := picture_ok (hd.withHeader (some header)) hs hgaps
  exact ⟨_, w, rfl, rfl, rfl, hw⟩

namespace Drawing

variable {d : Document} (w : d.Drawing) {colour : Text}

theorem legal_of_onBackdrop (hcolour : colour ≠ "transparent".toList)
    (h : Legal (w.picture (.onBackdrop colour)).write) : Legal colour := by
  let attributes : Attributes := [("width", "100%"), ("height", "100%"), ("fill", colour)]
  have hbackground : background (.onBackdrop colour) = [.tag "rect" attributes] := if_neg hcolour
  have hrect : ("rect".toList, attributes) ∈ Item.startTags (w.picture (.onBackdrop colour)) := by
    unfold picture Pen.canvas content Item.tag
    rw [hbackground, Item.startTags]
    exact List.mem_cons_of_mem _ List.mem_cons_self
  exact Item.legal_values_of_write _ h _ hrect ("fill", colour) (by simp [attributes])

theorem not_mem_write_onBackdrop (hnodes : d.nodes = []) (hedges : d.edges = []) (h : 'y' ∉ colour) :
    'y' ∉ (w.picture (.onBackdrop colour)).write := by
  have hboxes : w.boxes = [] := List.map_eq_nil_iff.mp (w.nodes.trans (hnodes ▸ rfl))
  have hroutes : w.routes = [] := List.map_eq_nil_iff.mp (w.edges.trans hedges)
  have hmarks : 'y' ∉ marks := by decide
  have hgroup : 'y' ∉ Item.write (.tag "g" [("class", "graph")] []) :=
    Item.not_mem_write_element hmarks (by decide) (by decide) (List.forall_mem_nil _)
  have hbackground : ∀ i ∈ background (.onBackdrop colour), 'y' ∉ i.write := by
    unfold background
    split
    · exact List.forall_mem_nil _
    · rw [List.forall_mem_singleton]
      apply Item.not_mem_write_element hmarks (by decide) _ (List.forall_mem_nil _)
      simp only [List.forall_mem_cons]
      exact ⟨by decide, by decide, ⟨by decide, h⟩, List.forall_mem_nil _⟩
  have hcontent : ∀ i ∈ w.content (.onBackdrop colour), 'y' ∉ i.write := by
    rw [content, figures, hboxes, hroutes]
    exact List.forall_mem_append.mpr ⟨hbackground, List.forall_mem_singleton.mpr hgroup⟩
  have hnumber (x : Float) : 'y' ∉ Number.fmt x := Number.not_mem_fmt (by decide) (by decide) x
  have hlength (x : Float) : 'y' ∉ Number.fmt x ++ "pt".toList := fun hc =>
    (List.mem_append.mp hc).elim (hnumber x) (by decide)
  apply Item.not_mem_write_element hmarks (by decide) _ hcontent
  simp only [Pen.canvasSize, List.forall_mem_cons]
  refine ⟨by decide, ⟨by decide, hlength _⟩, ⟨by decide, hlength _⟩, ⟨by decide, ?_⟩, List.forall_mem_nil _⟩
  simp only [List.mem_append, List.mem_cons, not_or]
  exact ⟨⟨by decide, hnumber _⟩, by decide, hnumber _⟩

end Drawing

end Document

end Yuml
