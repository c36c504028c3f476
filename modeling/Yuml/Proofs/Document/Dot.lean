import Yuml.Document.Dot
import Yuml.Proofs.Drawing.Compartments
import Yuml.Proofs.Drawing.Theme
import Yuml.Proofs.Source.Lines
import Yuml.Proofs.Text.Delimited

namespace Yuml

open Text (SelfDelimiting Stops stops_of_head)

namespace Text

theorem pieces_append_mark {mark : Char} {t : Text} (h : mark ∉ t) (s : Text) :
    pieces (· == mark) (t ++ mark :: s) = t :: pieces (· == mark) s := by
  induction t with
  | nil => exact pieces_cons_sep (p := (· == mark)) (beq_self_eq_true mark) s
  | cons c t ih =>
    obtain ⟨hc, ht⟩ := not_or.mp (mt List.mem_cons.mpr h)
    exact pieces_cons_letter (p := (· == mark)) (beq_false_of_ne (Ne.symm hc)) (ih ht)

theorem pieces_joinWith {mark : Char} {ts : List Text} (hne : ts ≠ []) (h : ∀ t ∈ ts, mark ∉ t) :
    pieces (· == mark) (joinWith [mark] ts) = ts := by
  induction ts with
  | nil => exact absurd rfl hne
  | cons t ts ih =>
    obtain ⟨ht, hts⟩ := List.forall_mem_cons.mp h
    cases ts with
    | nil =>
      rw [joinWith, List.intercalate_singleton]
      exact pieces_eq_singleton fun c hc => beq_false_of_ne fun heq => ht (heq ▸ hc)
    | cons u us =>
      have hjoin : joinWith [mark] (t :: u :: us) = t ++ mark :: joinWith [mark] (u :: us) := by
        rw [joinWith, List.intercalate_cons_cons, List.append_assoc]
        rfl
      rw [hjoin, pieces_append_mark ht, ih (List.cons_ne_nil u us) hts]

end Text

namespace Direction

theorem code_injective : Function.Injective code := by
  intro d e h
  cases d <;> cases e <;> first | rfl | exact absurd h (by decide)

end Direction

theorem Shape.name_injective : Function.Injective Shape.name := by
  have hback (s : Shape) : Shape.ofName? s.name = some s := by cases s <;> rfl
  intro s t h
  exact Option.some.inj (hback s ▸ h ▸ hback t)

theorem LineStyle.name_injective : Function.Injective LineStyle.name := by
  have hback (s : LineStyle) : LineStyle.ofName? s.name = some s := by cases s <;> rfl
  intro s t h
  exact Option.some.inj (hback s ▸ h ▸ hback t)

theorem Arrow.name_injective : Function.Injective Arrow.name := by
  have hback (a : Arrow) : Arrow.ofName? a.name = some a := by cases a <;> rfl
  intro a b h
  exact Option.some.inj (hback a ▸ h ▸ hback b)

namespace Dot

def unescaped (c : Char) : Char :=
  if c = 'n' then '\n' else c

theorem escapeChar_cases (c : Char) :
    (∃ d, escapeChar c = ['\\', d] ∧ unescaped d = c) ∨ escapeChar c = [c] ∧ c ≠ '\\' ∧ c ≠ '"' := by
  unfold escapeChar
  split
  · next h => exact .inl ⟨'\\', rfl, h.symm⟩
  · split
    · next h => exact .inl ⟨'"', rfl, h.symm⟩
    · split
      · next h => exact .inl ⟨'n', rfl, h.symm⟩
      · next hslash hquote _ => exact .inr ⟨rfl, hslash, hquote⟩

theorem selfDelimiting_escapeChar : SelfDelimiting (fun _ => True) escapeChar := by
  rintro c d - - r s h
  rcases escapeChar_cases c with ⟨x, hc, rfl⟩ | ⟨hc, hslash, -⟩
  · rcases escapeChar_cases d with ⟨y, hd, rfl⟩ | ⟨hd, hslash, -⟩
    · rw [hc, hd] at h
      obtain ⟨hletter, hrest⟩ := List.cons.inj (List.cons.inj h).2
      exact ⟨congrArg unescaped hletter, hrest⟩
    · rw [hc, hd] at h
      exact absurd (List.cons.inj h).1.symm hslash
  · rcases escapeChar_cases d with ⟨y, hd, rfl⟩ | ⟨hd, -, -⟩
    · rw [hc, hd] at h
      exact absurd (List.cons.inj h).1 hslash
    · rw [hc, hd] at h
      exact List.cons.inj h

theorem stops_escapeChar (r : Text) : Stops (fun _ => True) escapeChar ('"' :: r) := by
  intro c _ s h
  rcases escapeChar_cases c with ⟨x, hc, -⟩ | ⟨hc, -, hquote⟩
  · rw [hc] at h
    exact absurd (List.cons.inj h).1 (by decide)
  · rw [hc] at h
    exact hquote (List.cons.inj h).1

theorem selfDelimiting_quote : SelfDelimiting (fun _ => True) quote := by
  rintro s t - - r r' h
  unfold quote at h
  rw [List.append_assoc, List.append_assoc] at h
  obtain ⟨hst, hrest⟩ := selfDelimiting_escapeChar.flatMap (fun _ _ => trivial) (fun _ _ => trivial)
    (stops_escapeChar r) (stops_escapeChar r') (List.cons.inj h).2
  exact ⟨hst, (List.cons.inj hrest).2⟩

def IsName (s : Text) : Prop :=
  '=' ∉ s ∧ ']' ∉ s

instance : DecidablePred IsName :=
  fun s => inferInstanceAs (Decidable ('=' ∉ s ∧ ']' ∉ s))

theorem selfDelimiting_attribute :
    SelfDelimiting (IsName ·.1) fun p : Text × Text => p.1 ++ '=' :: quote p.2 := by
  rintro ⟨n, v⟩ ⟨m, w⟩ hn hm r s h
  dsimp only at h
  rw [List.append_cons n, List.append_cons m, List.append_assoc (n ++ ['=']), List.append_assoc (m ++ ['='])] at h
  obtain ⟨rfl, hvalues⟩ := Text.selfDelimiting_until '=' hn.1 hm.1 h
  obtain ⟨rfl, hrest⟩ := selfDelimiting_quote trivial trivial hvalues
  exact ⟨rfl, hrest⟩

theorem selfDelimiting_attributeList : SelfDelimiting (∀ p ∈ ·, IsName p.1) attributeList := by
  have hstops (r : Text) : Stops (IsName ·.1) (fun p : Text × Text => p.1 ++ '=' :: quote p.2) (']' :: r) := by
    rintro ⟨n, v⟩ hn s h
    cases n with
    | nil => exact absurd (List.cons.inj h).1 (by decide)
    | cons c n => exact hn.2 ((List.cons.inj h).1 ▸ List.mem_cons_self)
  intro a b ha hb r s h
  exact selfDelimiting_attribute.joinWith (by decide) [' '] hstops ha hb (List.cons.inj h).2

end Dot

/-- A node that can be told from its attributes: its fields begin with its label, and there are none unless it is a
record of at least two compartments. No compartment of a record holds a bar. -/
structure Node.Legible (n : Node) : Prop where
  fields : n.fields = [] ∨ n.shape = .record ∧ ∃ second rest, n.fields = n.label :: second :: rest
  undivided : n.shape = .record → ∀ c ∈ n.compartments, '|' ∉ c
  fill : n.fill ≠ some []

structure Edge.Legible (e : Edge) : Prop where
  label : e.label ≠ some []
  headLabel : e.headLabel ≠ some []
  tailLabel : e.tailLabel ≠ some []

structure Document.Bare (d : Document) : Prop where
  attributes : d.attributes = []
  header : d.header = none

structure Document.Legible (d : Document) : Prop extends Document.Bare d where
  nodes : ∀ n ∈ d.nodes, n.Legible
  edges : ∀ e ∈ d.edges, e.Legible

namespace Node

variable {n m : Node}

theorem Legible.eq_of_compartments (hn : n.Legible) (hm : m.Legible) (h : n.compartments = m.compartments) :
    n.label = m.label ∧ n.fields = m.fields := by
  unfold compartments at h
  rcases hn.fields with hnone | ⟨-, a, as, hsome⟩
  · rw [hnone] at h
    rcases hm.fields with hnone' | ⟨-, b, bs, hsome'⟩
    · rw [hnone'] at h
      exact ⟨List.head_eq_of_cons_eq h, hnone.trans hnone'.symm⟩
    · rw [hsome'] at h
      exact absurd (List.cons.inj h).2.symm (List.cons_ne_nil b bs)
  · rw [hsome] at h
    rcases hm.fields with hnone' | ⟨-, b, bs, hsome'⟩
    · rw [hnone'] at h
      exact absurd (List.cons.inj h).2 (List.cons_ne_nil a as)
    · rw [hsome'] at h
      exact ⟨List.head_eq_of_cons_eq h, hsome.trans (h.trans hsome'.symm)⟩

theorem Legible.eq_of_joined (hn : n.Legible) (hm : m.Legible) (hshape : n.shape = m.shape)
    (h : Text.joinWith ['|'] n.compartments = Text.joinWith ['|'] m.compartments) :
    n.label = m.label ∧ n.fields = m.fields := by
  by_cases hrecord : n.shape = .record
  · have hpieces := congrArg (Text.pieces (· == '|')) h
    rw [Text.pieces_joinWith n.compartments_ne_nil (hn.undivided hrecord),
      Text.pieces_joinWith m.compartments_ne_nil (hm.undivided (hshape ▸ hrecord))] at hpieces
    exact hn.eq_of_compartments hm hpieces
  · have hnone := hn.fields.resolve_right fun hsome => hrecord hsome.1
    have hnone' := hm.fields.resolve_right fun hsome => hrecord (hshape.trans hsome.1)
    rw [compartments, compartments, hnone, hnone'] at h
    refine ⟨?_, hnone.trans hnone'.symm⟩
    simpa [Text.joinWith] using h

end Node

namespace Attributes

theorem get?_append (a b : Attributes) (name : Text) : get? (a ++ b) name = (a.get? name).or (b.get? name) := by
  rw [get?, List.find?_append, Option.map_or]
  rfl

end Attributes

namespace Dot

open Attributes (get?_append get?_cons)

theorem get?_label_nodeAttributes (n : Node) :
    (nodeAttributes n).get? "label" = some (Text.joinWith "|" n.compartments) := by
  have hlabel : (if n.fields.isEmpty then n.label else Text.joinWith "|" n.fields) =
      Text.joinWith "|" n.compartments := by
    rw [Node.compartments]
    split
    · rw [Text.joinWith, List.intercalate_singleton]
    · rfl
  rw [nodeAttributes, hlabel, get?_cons, if_neg (by decide), get?_cons, if_pos rfl]

theorem get?_fillcolor_nodeAttributes {n : Node} (h : n.fill ≠ some []) :
    (nodeAttributes n).get? "fillcolor" = n.fill := by
  rw [nodeAttributes, get?_cons, if_neg (by decide), get?_cons, if_neg (by decide)]
  cases hfill : n.fill with
  | none => rfl
  | some colour =>
    cases colour with
    | nil => exact absurd hfill h
    | cons c cs => rfl

theorem eq_of_nodeAttributes {n m : Node} (hn : n.Legible) (hm : m.Legible) (hid : n.id = m.id)
    (h : nodeAttributes n = nodeAttributes m) : n = m := by
  have hshape : n.shape = m.shape :=
    Shape.name_injective (Prod.mk.inj (List.cons.inj h).1).2
  have hlabels := congrArg (Attributes.get? · "label") h
  have hfill := congrArg (Attributes.get? · "fillcolor") h
  rw [get?_label_nodeAttributes, get?_label_nodeAttributes] at hlabels
  rw [get?_fillcolor_nodeAttributes hn.fill, get?_fillcolor_nodeAttributes hm.fill] at hfill
  obtain ⟨hlabel, hfields⟩ := hn.eq_of_joined hm hshape (Option.some.inj hlabels)
  cases n
  cases m
  exact Node.mk.injEq .. ▸ ⟨hid, hlabel, hshape, hfields, hfill⟩

theorem isName_nodeAttributes (n : Node) : ∀ p ∈ nodeAttributes n, IsName p.1 := by
  have hshape : IsName "shape" := by decide
  have hlabel : IsName "label" := by decide
  have hstyle : IsName "style" := by decide
  have hfill : IsName "fillcolor" := by decide
  unfold nodeAttributes
  refine List.forall_mem_cons.mpr ⟨hshape, List.forall_mem_cons.mpr ⟨hlabel, ?_⟩⟩
  split
  · exact List.forall_mem_nil _
  · exact List.forall_mem_nil _
  · exact List.forall_mem_cons.mpr ⟨hstyle, List.forall_mem_singleton.mpr hfill⟩

theorem get?_labelAttribute {label : Option Text} (h : label ≠ some []) (name other : Text) :
    (labelAttribute name label).get? other = if name = other then label else none := by
  cases label with
  | none => rw [ite_self]; rfl
  | some s =>
    cases s with
    | nil => exact absurd rfl h
    | cons c cs => exact get?_cons name (c :: cs) other []

theorem get?_edgeAttributes {e : Edge} (h : e.Legible) :
    (edgeAttributes e).get? "label" = e.label ∧ (edgeAttributes e).get? "headlabel" = e.headLabel ∧
      (edgeAttributes e).get? "taillabel" = e.tailLabel := by
  have hdrawn {name : Text} (hname : name ∉ ["dir".toList, "style".toList, "arrowhead".toList, "arrowtail".toList]) :
      (edgeAttributes e).get? name = (if "label".toList = name then e.label else none).or
        ((if "headlabel".toList = name then e.headLabel else none).or
          (if "taillabel".toList = name then e.tailLabel else none)) := by
    simp only [List.mem_cons, List.not_mem_nil, or_false, not_or] at hname
    obtain ⟨hdir, hstyle, hhead, htail⟩ := hname
    rw [edgeAttributes, List.append_assoc, List.append_assoc, get?_append, get?_append, get?_append,
      get?_labelAttribute h.label, get?_labelAttribute h.headLabel, get?_labelAttribute h.tailLabel, get?_cons,
      if_neg (Ne.symm hdir), get?_cons, if_neg (Ne.symm hstyle), get?_cons, if_neg (Ne.symm hhead), get?_cons,
      if_neg (Ne.symm htail)]
    rfl
  refine ⟨?_, ?_, ?_⟩
  · rw [hdrawn (by decide), if_pos rfl, if_neg (by decide), if_neg (by decide), Option.or_none, Option.or_none]
  · rw [hdrawn (by decide), if_neg (by decide), if_pos rfl, if_neg (by decide), Option.none_or, Option.or_none]
  · rw [hdrawn (by decide), if_neg (by decide), if_neg (by decide), if_pos rfl, Option.none_or, Option.none_or]

theorem eq_of_edgeAttributes {e f : Edge} (he : e.Legible) (hf : f.Legible) (htail : e.tail = f.tail)
    (hhead : e.head = f.head) (h : edgeAttributes e = edgeAttributes f) : e = f := by
  have hstyle : e.style = f.style := LineStyle.name_injective (Option.some.inj (congrArg (Attributes.get? · "style") h))
  have hheadArrow : e.headArrow = f.headArrow :=
    Arrow.name_injective (Option.some.inj (congrArg (Attributes.get? · "arrowhead") h))
  have htailArrow : e.tailArrow = f.tailArrow :=
    Arrow.name_injective (Option.some.inj (congrArg (Attributes.get? · "arrowtail") h))
  obtain ⟨hlabel, hheadLabel, htailLabel⟩ := get?_edgeAttributes he
  rw [h] at hlabel hheadLabel htailLabel
  obtain ⟨hlabel', hheadLabel', htailLabel'⟩ := get?_edgeAttributes hf
  cases e
  cases f
  exact Edge.mk.injEq .. ▸ ⟨htail, hhead, hstyle, hheadArrow, htailArrow, hlabel.symm.trans hlabel',
    hheadLabel.symm.trans hheadLabel', htailLabel.symm.trans htailLabel'⟩

theorem isName_edgeAttributes (e : Edge) : ∀ p ∈ edgeAttributes e, IsName p.1 := by
  have hlabel {name : Text} (hname : IsName name) (label : Option Text) :
      ∀ p ∈ labelAttribute name label, IsName p.1 := by
    unfold labelAttribute
    split
    · exact List.forall_mem_nil _
    · exact List.forall_mem_nil _
    · exact List.forall_mem_singleton.mpr hname
  have hdir : IsName "dir" := by decide
  have hstyle : IsName "style" := by decide
  have hhead : IsName "arrowhead" := by decide
  have htail : IsName "arrowtail" := by decide
  unfold edgeAttributes
  refine List.forall_mem_append.mpr ⟨List.forall_mem_append.mpr ⟨List.forall_mem_append.mpr ⟨?_, ?_⟩, ?_⟩, ?_⟩
  · exact List.forall_mem_cons.mpr ⟨hdir, List.forall_mem_cons.mpr ⟨hstyle, List.forall_mem_cons.mpr
      ⟨hhead, List.forall_mem_singleton.mpr htail⟩⟩⟩
  · exact hlabel (by decide) e.label
  · exact hlabel (by decide) e.headLabel
  · exact hlabel (by decide) e.tailLabel

theorem selfDelimiting_nodeLine : SelfDelimiting Node.Legible nodeLine := by
  intro n m hn hm r s h
  unfold nodeLine at h
  rw [List.append_assoc, List.append_assoc, List.append_assoc, List.append_assoc] at h
  obtain ⟨hid, hrest⟩ := selfDelimiting_quote trivial trivial (List.append_cancel_left h)
  obtain ⟨hlist, hend⟩ := selfDelimiting_attributeList (isName_nodeAttributes n) (isName_nodeAttributes m)
    (List.cons.inj hrest).2
  exact ⟨eq_of_nodeAttributes hn hm hid hlist, hend⟩

theorem selfDelimiting_edgeLine : SelfDelimiting Edge.Legible edgeLine := by
  intro e f he hf r s h
  unfold edgeLine at h
  simp only [List.append_assoc] at h
  obtain ⟨htail, harrow⟩ := selfDelimiting_quote trivial trivial (List.append_cancel_left h)
  obtain ⟨hhead, hrest⟩ := selfDelimiting_quote trivial trivial (List.append_cancel_left harrow)
  obtain ⟨hlist, hend⟩ := selfDelimiting_attributeList (isName_edgeAttributes e) (isName_edgeAttributes f)
    (List.cons.inj hrest).2
  exact ⟨eq_of_edgeAttributes he hf htail hhead hlist, hend⟩

theorem stops_nodeLine (edges : List Edge) :
    Stops Node.Legible (nodeLine · ++ ['\n']) (edges.flatMap (edgeLine · ++ ['\n']) ++ ['}', '\n']) := by
  intro n _ s h
  cases edges with
  | nil => exact absurd (List.cons.inj h).1 (by decide)
  | cons e edges =>
    simp only [List.flatMap_cons, nodeLine, edgeLine, List.append_assoc] at h
    obtain ⟨-, hrest⟩ := selfDelimiting_quote trivial trivial (List.append_cancel_left h)
    exact absurd (List.cons.inj (List.cons.inj hrest).2).1 (by decide)

theorem stops_edgeLine : Stops Edge.Legible (edgeLine · ++ ['\n']) ['}', '\n'] := by
  intro e _ s h
  exact absurd (List.cons.inj h).1 (by decide)

theorem print_eq {d : Document} (h : d.Legible) :
    print d = ("digraph G " ++ ['{', '\n'] ++ "  graph ") ++ (attributeList [("rankdir", d.direction.code)] ++
      '\n' :: (d.nodes.flatMap (nodeLine · ++ ['\n']) ++ (d.edges.flatMap (edgeLine · ++ ['\n']) ++ ['}', '\n']))) := by
  have hbody : bodyLines d = ("  graph " ++ attributeList [("rankdir", d.direction.code)]) ::
      (d.nodes.map nodeLine ++ d.edges.map edgeLine) := by
    rw [bodyLines, graphAttributes, h.header, h.attributes]
    rfl
  unfold print
  rw [hbody, List.flatMap_cons, List.flatMap_append, List.flatMap_map, List.flatMap_map]
  simp only [List.append_assoc, List.cons_append, List.nil_append]

theorem print_injOn {d e : Document} (hd : d.Legible) (he : e.Legible) (h : print d = print e) : d = e := by
  have hname (direction : Direction) : ∀ p ∈ [("rankdir".toList, direction.code)], IsName p.1 :=
    List.forall_mem_singleton.mpr (by decide : IsName "rankdir")
  rw [print_eq hd, print_eq he] at h
  obtain ⟨hgraph, hrest⟩ := selfDelimiting_attributeList (hname d.direction) (hname e.direction)
    (List.append_cancel_left h)
  have hdirection := Direction.code_injective (Prod.mk.inj (List.cons.inj hgraph).1).2
  obtain ⟨hnodes, hlines⟩ := (selfDelimiting_nodeLine.append ['\n']).flatMap hd.nodes he.nodes
    (stops_nodeLine d.edges) (stops_nodeLine e.edges) (List.cons.inj hrest).2
  obtain ⟨hedges, -⟩ := (selfDelimiting_edgeLine.append ['\n']).flatMap hd.edges he.edges stops_edgeLine
    stops_edgeLine hlines
  have hattributes := hd.attributes.trans he.attributes.symm
  have hheader := hd.header.trans he.header.symm
  cases d
  cases e
  exact Document.mk.injEq .. ▸ ⟨hdirection, hnodes, hedges, hattributes, hheader⟩

end Dot

end Yuml
