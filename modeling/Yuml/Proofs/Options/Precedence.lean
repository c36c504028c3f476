import Yuml.Proofs.Source.Collecting

namespace Yuml

def Value.kind? : Value → Option DiagramKind
  | .kind k => some k
  | .text s => DiagramKind.ofName? s
  | _ => Option.none

def Value.named (v : Value) : Value :=
  (v.kind?.map .kind).getD v

namespace Draft

def Field.names : Field → List Text
  | direction => ["dir", "direction"]
  | kind => ["type", "diagram_type"]
  | isDark => ["isDark", "is_dark"]
  | overrides => ["dotHeaderOverrides", "header_overrides"]
  | generate => ["generate"]

theorem Field.ofName?_eq_some_iff {name : Text} {f : Field} : ofName? name = some f ↔ name ∈ f.names := by
  have hback : f.names.all fun n => ofName? n = some f := by cases f <;> rfl
  refine ⟨fun h => ?_, fun h => of_decide_eq_true (List.all_eq_true.mp hback name h)⟩
  obtain ⟨before, after, hentries, -⟩ := List.lookup_eq_some_iff.mp h
  have hmem : (String.ofList name, f) ∈ before ++ (String.ofList name, f) :: after :=
    List.mem_append_right _ List.mem_cons_self
  rw [← hentries] at hmem
  rw [← String.toList_ofList (l := name)]
  generalize String.ofList name = s at hmem
  cases f <;> simp at hmem <;> rcases hmem with rfl | rfl <;> decide

def directionIn? (option : Text × Value) : Option Direction :=
  if Field.direction.names.contains option.1 ∧ option.2.isTrue then directionOf? option.2 else none

def kindIn? (option : Text × Value) : Option Value :=
  if Field.kind.names.contains option.1 ∧ ¬option.2.isNone ∧ ¬option.2.isText [] then some option.2 else none

theorem exists_setAll_cons (d : Draft) (option : Text × Value) (rest : List (Text × Value)) :
    ∃ d' : Draft, (setAll d (option :: rest)).1 = (setAll d' rest).1 ∧
      d'.direction = (directionIn? option).getD d.direction ∧
      d'.kind = ((kindIn? option).map Value.named).getD d.kind := by
  obtain ⟨name, v⟩ := option
  simp only [directionIn?, kindIn?, List.contains_iff_mem, ← Field.ofName?_eq_some_iff]
  rw [setAll]
  cases hfield : Field.ofName? name with
  | none => exact ⟨d, rfl, rfl, rfl⟩
  | some field =>
    refine ⟨(d.set v field).1, rfl, ?_⟩
    cases field with
    | direction =>
      rw [set]
      cases hv : v.isTrue with
      | false => exact ⟨rfl, rfl⟩
      | true => cases directionOf? v <;> exact ⟨rfl, rfl⟩
    | kind =>
      cases v with
      | text s => cases s <;> exact ⟨rfl, rfl⟩
      | _ => exact ⟨rfl, rfl⟩
    | isDark => exact ⟨rfl, rfl⟩
    | overrides => exact ⟨rfl, rfl⟩
    | generate => exact ⟨rfl, rfl⟩

theorem getLast?_filterMap_cons {α β : Type} (f : α → Option β) (x : α) (xs : List α) :
    ((x :: xs).filterMap f).getLast? = (xs.filterMap f).getLast?.or (f x) := by
  rw [← List.singleton_append, List.filterMap_append, List.getLast?_append]
  cases h : f x <;> simp [h]

theorem setAll_direction_kind (d : Draft) (options : List (Text × Value)) :
    (setAll d options).1.direction = (options.filterMap directionIn?).getLast?.getD d.direction ∧
      (setAll d options).1.kind =
        ((options.filterMap kindIn?).getLast?.map Value.named).getD d.kind := by
  induction options generalizing d with
  | nil => exact ⟨rfl, rfl⟩
  | cons option rest ih =>
    obtain ⟨d', heq, hdirection, hkind⟩ := exists_setAll_cons d option rest
    rw [heq, (ih d').1, (ih d').2, hdirection, hkind, getLast?_filterMap_cons, getLast?_filterMap_cons,
      getD_or, getD_map_or]
    exact ⟨rfl, rfl⟩

theorem named_ne_none {v : Value} (h : v ≠ .none) : v.named ≠ .none := by
  rw [Value.named]
  cases v.kind? with
  | none => exact h
  | some k => exact Value.noConfusion

theorem kind_ofOptions_ne_none (options : List (Text × Value)) : (ofOptions options).1.kind ≠ .none := by
  rw [ofOptions, (setAll_direction_kind {} options).2]
  cases hlast : (options.filterMap kindIn?).getLast? with
  | none => exact Value.noConfusion
  | some v =>
    obtain ⟨option, -, hv⟩ := List.mem_filterMap.mp (List.mem_of_getLast? hlast)
    refine named_ne_none ?_
    rintro rfl
    rw [kindIn?] at hv
    split at hv
    · next hasked => exact hasked.2.1 (by rw [Option.some.inj hv]; rfl)
    · cases hv

end Draft

end Yuml
