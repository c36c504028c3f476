import Yuml.Proofs.Text.Basic
import Yuml.Proofs.Xml.Elements
import Yuml.Proofs.Xml.Reader
import Yuml.Xml.Namespace

namespace Yuml.Xml

theorem breakOn_of_not_mem {c : Char} {s : Text} (h : c ∉ s) : Text.breakOn [c] s = (s, none) := by
  induction s with
  | nil => rfl
  | cons d ds ih =>
    obtain ⟨hd, hds⟩ := not_or.mp (mt List.mem_cons.mpr h)
    rw [Text.breakOn, Text.dropPrefix?, if_neg hd]
    simp only [ih hds]

theorem colon_not_mem_name {name : Text} (h : isPlainName name = true) : ':' ∉ name := by
  cases name with
  | nil => cases h
  | cons c cs =>
    rw [isPlainName, Bool.and_eq_true, List.all_eq_true] at h
    intro hmem
    rcases List.mem_cons.mp hmem with rfl | hmem
    · exact absurd h.1 (by decide)
    · exact absurd (h.2 ':' hmem) (by decide)

theorem declared?_name {name : Text} (h : isPlainName name = true) (hne : name ≠ "xmlns".toList) :
    declared? name = none := by
  rw [declared?, if_neg hne]
  cases hdrop : Text.dropPrefix? "xmlns:".toList name with
  | none => rfl
  | some r =>
    rw [Text.dropPrefix?_eq_some_iff] at hdrop
    exact absurd (hdrop ▸ List.mem_append_left r (by decide)) (colon_not_mem_name h)

namespace Scope

variable {scope : Scope} {space : Text}

theorem resolve?_element (h : scope.space? [] = some (some space)) {name : Text}
    (hname : isPlainName name = true) : scope.resolve? false name = some ⟨some space, name⟩ := by
  have hbreak : Text.breakOn ":".toList name = (name, none) := breakOn_of_not_mem (colon_not_mem_name hname)
  rw [resolve?, hbreak]
  simp [h]

theorem resolve?_attribute {name : Text} (hname : isPlainName name = true) :
    scope.resolve? true name = some ⟨none, name⟩ := by
  have hbreak : Text.breakOn ":".toList name = (name, none) := breakOn_of_not_mem (colon_not_mem_name hname)
  rw [resolve?, hbreak]
  rfl

theorem filter_declared {a : Attributes} (h : ∀ p ∈ a, isPlainName p.1 = true)
    (hspace : ∀ p ∈ a, p.1 ≠ "xmlns".toList) : (a.filter fun p => (declared? p.1).isNone) = a := by
  refine List.filter_eq_self.mpr fun p hp => ?_
  rw [declared?_name (h p hp) (hspace p hp)]
  rfl

theorem mapM_resolve? {a : Attributes} (h : ∀ p ∈ a, isPlainName p.1 = true) :
    (a.mapM fun p => do return (← scope.resolve? true p.1, p.2)) =
      some (a.map fun p => ((⟨none, p.1⟩ : Name), p.2)) := by
  induction a with
  | nil => rfl
  | cons p a ih =>
    rw [List.mapM_cons, resolve?_attribute (h p List.mem_cons_self),
      ih fun q hq => h q (List.mem_cons_of_mem _ hq)]
    rfl

theorem nodup_names {a : Attributes} (h : (a.map (·.1)).Nodup) :
    ((a.map fun p => ((⟨none, p.1⟩ : Name), p.2)).map (·.1)).Nodup := by
  have hmap : (a.map fun p => ((⟨none, p.1⟩ : Name), p.2)).map (·.1) =
      (a.map (·.1)).map fun n => (⟨none, n⟩ : Name) := by simp
  rw [hmap]
  exact List.Pairwise.map _ (fun m n hne heq => hne (congrArg Name.base heq)) h

theorem attributes?_eq {a b : Attributes} (hfilter : (a.filter fun p => (declared? p.1).isNone) = b)
    (hplain : ∀ p ∈ b, isPlainName p.1 = true) (hnodup : (b.map (·.1)).Nodup) :
    scope.attributes? a = some (b.map fun p => (⟨none, p.1⟩, p.2)) := by
  rw [attributes?, hfilter, mapM_resolve? hplain]
  simp only [Option.bind_eq_bind, Option.bind_some, guard, if_pos (nodup_names hnodup)]
  rfl

theorem attributes?_plain {a : Attributes} (h : Attributes.WellFormed a)
    (hspace : ∀ p ∈ a, p.1 ≠ "xmlns".toList) :
    scope.attributes? a = some (a.map fun p => (⟨none, p.1⟩, p.2)) :=
  attributes?_eq (filter_declared h.plain hspace) h.plain h.nodup

theorem enter?_plain {a : Attributes} (h : ∀ p ∈ a, isPlainName p.1 = true)
    (hspace : ∀ p ∈ a, p.1 ≠ "xmlns".toList) : scope.enter? a = some scope := by
  induction a with
  | nil => rfl
  | cons p a ih =>
    rw [enter?, declared?_name (h p List.mem_cons_self) (hspace p List.mem_cons_self)]
    exact ih (fun q hq => h q (List.mem_cons_of_mem _ hq)) fun q hq => hspace q (List.mem_cons_of_mem _ hq)

end Scope

namespace Item

mutual

def inSpace (space : Text) : Markup → Tree
  | text s => text s
  | element name attributes children =>
    element ⟨some space, name⟩ (attributes.map fun p => (⟨none, p.1⟩, p.2)) (inSpaceAll space children)

def inSpaceAll (space : Text) : List Markup → List Tree
  | [] => []
  | i :: is => inSpace space i :: inSpaceAll space is

end

def DeclaresNoSpace (tags : List (Text × Attributes)) : Prop :=
  ∀ t ∈ tags, ∀ p ∈ t.2, p.1 ≠ "xmlns".toList

mutual

theorem resolve?_inSpace {scope : Scope} {space : Text} (h : scope.space? [] = some (some space)) :
    ∀ i : Markup, WellFormed i → DeclaresNoSpace (startTags i) → resolve? scope i = some (inSpace space i)
  | .text s, _, _ => by
    rw [resolve?, inSpace]
  | .element name attributes children, ⟨hname, hattributes, hchildren⟩, hspace => by
    have hown := hspace (name, attributes) List.mem_cons_self
    rw [resolve?, Scope.enter?_plain hattributes.plain hown]
    simp only [Option.bind_eq_bind, Option.bind_some]
    rw [Scope.resolve?_element h hname, Scope.attributes?_plain hattributes hown,
      resolveAll?_inSpaceAll h children hchildren fun t ht => hspace t (List.mem_cons_of_mem _ ht), inSpace]
    rfl

theorem resolveAll?_inSpaceAll {scope : Scope} {space : Text} (h : scope.space? [] = some (some space)) :
    ∀ is : List Markup, AllWellFormed is → DeclaresNoSpace (startTagsAll is) →
      resolveAll? scope is = some (inSpaceAll space is)
  | [], _, _ => by
    rw [resolveAll?, inSpaceAll]
  | i :: is, ⟨hi, _, his⟩, hspace => by
    rw [resolveAll?, resolve?_inSpace h i hi fun t ht => hspace t (List.mem_append_left _ ht),
      resolveAll?_inSpaceAll h is his fun t ht => hspace t (List.mem_append_right _ ht), inSpaceAll]
    rfl

end

mutual

theorem startTags_unified : ∀ i : Markup, startTags (unified i) = startTags i
  | .text s => by
    rw [unified, startTags, startTags]
  | .element name attributes children => by
    rw [unified, startTags, startTags, startTagsAll_unifiedAll children]

theorem startTagsAll_unifiedAll : ∀ is : List Markup, startTagsAll (unifiedAll is) = startTagsAll is
  | [] => by
    rw [unifiedAll]
  | i :: is => by
    rw [unifiedAll, startTagsAll, startTagsAll, startTags_unified i, startTagsAll_unifiedAll is]

end

mutual

theorem startTags_inSpace (space : Text) : ∀ i : Markup, startTags (inSpace space i) =
    (startTags i).map fun t => (⟨some space, t.1⟩, t.2.map fun p => (⟨none, p.1⟩, p.2))
  | .text s => by
    rw [inSpace, startTags, startTags]
    rfl
  | .element name attributes children => by
    rw [inSpace, startTags, startTags, startTagsAll_inSpaceAll space children]
    rfl

theorem startTagsAll_inSpaceAll (space : Text) : ∀ is : List Markup, startTagsAll (inSpaceAll space is) =
    (startTagsAll is).map fun t => (⟨some space, t.1⟩, t.2.map fun p => (⟨none, p.1⟩, p.2))
  | [] => by
    rw [inSpaceAll, startTagsAll, startTagsAll]
    rfl
  | i :: is => by
    rw [inSpaceAll, startTagsAll, startTagsAll, startTags_inSpace space i, startTagsAll_inSpaceAll space is,
      List.map_append]

end

end Item

open Item

theorem readTree?_write {name : Text} {attributes : Attributes} {children : List Markup} {space : Text}
    (hspace : mayBind [] space = true) (hne : space ≠ [])
    (h : WellFormed (element name (("xmlns", space) :: attributes) children))
    (hinside : DeclaresNoSpace (startTagsAll children)) :
    readTree? (write (element name (("xmlns", space) :: attributes) children)) =
      some (inSpace space (element name attributes (unifiedAll children))) := by
  obtain ⟨hname, hall, hchildren⟩ := wellFormed_unified _ h
  have hplain : ∀ p ∈ attributes, isPlainName p.1 = true := fun p hp => hall.plain p (List.mem_cons_of_mem _ hp)
  obtain ⟨hfresh, hnodup⟩ := List.nodup_cons.mp hall.nodup
  have hown : ∀ p ∈ attributes, p.1 ≠ "xmlns".toList := by
    intro p hp heq
    have hmem : p.1 ∈ attributes.map (·.1) := List.mem_map_of_mem hp
    exact hfresh (heq ▸ hmem)
  let scope : Scope := ([], space) :: [("xml".toList, xmlSpace)]
  have hscope : scope.space? [] = some (some space) := by
    have hempty : Text.nonEmpty? space = some space := by simp [Text.nonEmpty?, hne]
    exact congrArg some hempty
  have henter : Scope.enter? [("xml".toList, xmlSpace)] (("xmlns".toList, space) :: attributes) = some scope := by
    have hdeclared : declared? "xmlns".toList = some [] := rfl
    rw [Scope.enter?]
    simp only [hdeclared, hspace, if_true]
    exact Scope.enter?_plain hplain hown
  have hfilter : ((("xmlns".toList, space) :: attributes).filter fun p => (declared? p.1).isNone) = attributes := by
    rw [List.filter_cons_of_neg Bool.false_ne_true]
    exact Scope.filter_declared hplain hown
  rw [readTree?, read?_write h rfl]
  simp only [Option.bind_eq_bind, Option.bind_some]
  rw [unified, resolve?, henter]
  simp only [Option.bind_eq_bind, Option.bind_some]
  rw [Scope.resolve?_element hscope hname, Scope.attributes?_eq hfilter hplain hnodup,
    resolveAll?_inSpaceAll hscope _ hchildren (by rw [startTagsAll_unifiedAll]; exact hinside), inSpace]
  rfl

end Yuml.Xml
