import Yuml.Notation.Grammar
import Yuml.Proofs.Notation.Background
import Yuml.Proofs.Notation.Connector
import Yuml.Proofs.Notation.Splitting

namespace Yuml.Notation

def NodeToken.trimmed (t : NodeToken) : NodeToken :=
  { t with text := Text.trim t.text }

def trimGap (s : Option Text) : Option Text :=
  s.bind fun s => Text.nonEmpty? (Text.trim s)

def Token.trimmed? : Token → Option Token
  | node n => some (.node n.trimmed)
  | connector s => (trimGap (some s)).map .connector

def trimmed (ts : List Token) : List Token :=
  ts.filterMap Token.trimmed?

def Link.trimmed (l : Link) : Link :=
  ⟨l.tail.trimmed, trimGap l.connector, l.head.trimmed⟩

theorem getD_trimGap (s : Option Text) : (trimGap s).getD [] = Text.trim (s.getD []) := by
  cases s with
  | none => rfl
  | some s =>
    have hread : (Text.nonEmpty? (Text.trim s)).getD [] = Text.trim s := by
      unfold Text.nonEmpty?
      split
      · next hempty => exact (List.isEmpty_iff.mp hempty).symm
      · rfl
    exact hread

theorem eq_of_trimGap {α : Type} {ofGap : Option Text → α} {read : Text → α} (hread : ∀ s, ofGap s = read (s.getD []))
    (htrim : ∀ s, read (Text.trim s) = read s) (s : Option Text) : ofGap (trimGap s) = ofGap s := by
  rw [hread, hread, getD_trimGap, htrim]

theorem nodes_trimmed (ts : List Token) : nodes (trimmed ts) = (nodes ts).map NodeToken.trimmed := by
  unfold nodes trimmed
  rw [List.filterMap_filterMap, List.map_filterMap]
  apply List.filterMap_congr
  intro t _
  cases t with
  | node n => rfl
  | connector s =>
    dsimp only [Token.trimmed?]
    cases trimGap (some s) <;> rfl

theorem linksFrom_trimmed (before : Option NodeToken) (connector : Option Text) (ts : List Token)
    (h : Alternate ((connector.map Token.connector).toList ++ ts)) :
    linksFrom (before.map NodeToken.trimmed) (trimGap connector) (trimmed ts) =
      (linksFrom before connector ts).map Link.trimmed := by
  induction ts generalizing before connector with
  | nil => rfl
  | cons t ts ih =>
    cases t with
    | connector s =>
      have hfirst : connector = none := by
        cases connector with
        | none => rfl
        | some text => exact absurd (List.isChain_cons_cons.mp h).1 (by simp [Token.isNode])
      subst hfirst
      have hrest := ih before (some s) h
      have hstep : linksFrom (before.map NodeToken.trimmed) none (trimmed (.connector s :: ts)) =
          linksFrom (before.map NodeToken.trimmed) (trimGap (some s)) (trimmed ts) := by
        unfold trimmed
        rw [List.filterMap_cons, Token.trimmed?]
        cases trimGap (some s) <;> rfl
      exact hstep.trans hrest
    | node n =>
      have hrest := ih (some n) none (List.IsChain.tail (List.IsChain.right_of_append h))
      cases before with
      | none => exact hrest
      | some tail => exact congrArg (Link.trimmed ⟨tail, connector, n⟩ :: ·) hrest

theorem links_trimmed {ts : List Token} (h : Alternate ts) : links (trimmed ts) = (links ts).map Link.trimmed :=
  linksFrom_trimmed none none ts h

namespace Mention

variable (t : NodeToken)

theorem orNote_trimmed (read : Text → Option Text → Mention) : orNote t.trimmed read = orNote t read := by
  unfold orNote
  rw [NodeToken.trimmed, splitStyle_trim]

theorem ofActivity_trimmed : ofActivity t.trimmed = ofActivity t := by
  unfold ofActivity
  rw [NodeToken.trimmed, splitStyle_trim]

end Mention

namespace Grammar

variable {k : DiagramKind} {g : Grammar} (hk : ofKind? k = some g)

include hk

theorem mention_trimmed (t : NodeToken) : g.mention t.trimmed = g.mention t := by
  cases k with
  | sequence => cases hk
  | activity =>
    cases hk
    exact Mention.ofActivity_trimmed t
  | useCases =>
    cases hk
    simp only [useCases, Mention.ofUseCase, Mention.orNote_trimmed]
    rfl
  | classes | state | deployment | package =>
    cases hk
    simp only [classes, state, deployment, package, Mention.ofClass, Mention.ofState, Mention.ofDeployment,
      Mention.ofPackage, Mention.orNote_trimmed]

theorem connect_trimGap (s : Option Text) : g.connect (trimGap s) = g.connect s := by
  cases k with
  | sequence => cases hk
  | classes =>
    cases hk
    exact eq_of_trimGap Connector.association_eq Connector.ofAssociation_trim s
  | useCases =>
    cases hk
    exact eq_of_trimGap (fun _ => rfl) Connector.ofUseCase_trim s
  | activity | state =>
    cases hk
    exact eq_of_trimGap Connector.transition_eq Connector.ofTransition_trim s
  | deployment | package =>
    cases hk
    exact eq_of_trimGap Connector.line_eq Connector.ofLine_trim s

theorem resolve_trimmed (r : Registry Mention.Key) (t : NodeToken) : g.resolve r t.trimmed = g.resolve r t := by
  unfold resolve
  rw [mention_trimmed hk]

theorem connectLink_trimmed (r : Registry Mention.Key) (l : Link) : g.connectLink r l.trimmed = g.connectLink r l := by
  unfold connectLink
  dsimp only [Link.trimmed]
  simp only [resolve_trimmed hk, connect_trimGap hk]

theorem takeTokens_trimmed (r : Registry Mention.Key) {ts : List Token} (h : Alternate ts) :
    g.takeTokens r (trimmed ts) = g.takeTokens r ts := by
  unfold takeTokens
  rw [nodes_trimmed, links_trimmed h, List.foldl_map, List.foldl_map]
  simp only [resolve_trimmed hk, connectLink_trimmed hk]

theorem ofTokens_trimmed (direction : Direction) {lines : List (List Token)} (h : ∀ ts ∈ lines, Alternate ts) :
    g.ofTokens direction (lines.map trimmed) = g.ofTokens direction lines := by
  have hlines (r : Registry Mention.Key) : (lines.map trimmed).foldl g.takeTokens r = lines.foldl g.takeTokens r := by
    rw [List.foldl_map]
    exact List.foldl_ext _ _ r fun r ts hts => takeTokens_trimmed hk r (h ts hts)
  unfold ofTokens
  rw [hlines]

end Grammar

end Yuml.Notation
