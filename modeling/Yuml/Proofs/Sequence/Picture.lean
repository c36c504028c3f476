import Yuml.Proofs.Drawing.Groups
import Yuml.Proofs.Sequence.Chart
import Yuml.Sequence.Picture

namespace Yuml.Sequence

open Number Xml Pen
open Item (hasName named filter_hasName)

section Marks

variable {P : Text → Prop} {t : Theme} (hP : ∀ v, Legal v → P v) (hink : P t.ink) (hfont : P t.font)

include hP hink hfont

theorem isMark_columnPicture (bottom : Float) (c : Column Float) (hfill : ∀ f, c.participant.fill = some f → P f) :
    ∀ i ∈ columnPicture t bottom c, IsMark P i := by
  have hnumber (x : Float) : P (fmt x) := hP _ (legal_fmt x)
  have hdash : P dash := hP _ (legal_of_all (by decide))
  refine List.forall_mem_cons.mpr ⟨?_, List.forall_mem_append.mpr ⟨?_, List.forall_mem_singleton.mpr ?_⟩⟩
  · exact isMark_tag (by decide) (by decide) rfl (values_cons (hnumber _) (values_cons (hnumber _)
      (values_cons (hnumber _) (values_cons (hnumber _) (values_cons (values_fillText hP hfill)
        (values_cons hink values_nil))))))
  · exact isMark_label hP _ _ _ hfont hink (legal_of_all (by decide))
  · exact isMark_tag (by decide) (by decide) rfl (values_cons (hnumber _) (values_cons (hnumber _)
      (values_cons (hnumber _) (values_cons (hnumber _) (values_cons hink (values_cons hdash values_nil))))))

theorem isMark_callPicture (c : Call Float) : ∀ i ∈ callPicture t c, IsMark P i := by
  unfold callPicture
  refine List.forall_mem_cons.mpr ⟨isMark_path hP _ hink ?_, List.forall_mem_append.mpr
    ⟨isMark_arrow hP _ _ _ hink, ?_⟩⟩
  · split
    · exact .inr rfl
    · exact .inl rfl
  · unfold messageText
    split
    · exact fun _ hi => nomatch hi
    · refine isMark_label hP _ _ _ hfont hink ?_
      split
      · exact legal_of_all (by decide)
      · exact legal_of_all (by decide)

end Marks

theorem filter_column (name : Text) (t : Theme) (bottom : Float) (c : Column Float) :
    (columnPicture t bottom c).filter (hasName name) = [box t c].filter (hasName name) ++
      ((columnName t c).filter (hasName name) ++ [lifeline t bottom c].filter (hasName name)) := by
  have hparts : columnPicture t bottom c = [box t c] ++ (columnName t c ++ [lifeline t bottom c]) := rfl
  rw [hparts, List.filter_append, List.filter_append]

theorem filter_call {name : Text} (htip : name ∉ ["polyline".toList, "polygon".toList]) (t : Theme)
    (c : Call Float) : (callPicture t c).filter (hasName name) =
      [messagePath t c].filter (hasName name) ++ (messageText t c).filter (hasName name) := by
  have hparts : callPicture t c = [messagePath t c] ++ messageTip t c ++ messageText t c := rfl
  have htips : (messageTip t c).filter (hasName name) = [] := filter_hasName (names_arrow _ _ _ _) htip
  rw [hparts, List.filter_append, List.filter_append, htips, List.append_nil]

section Chart

variable (t : Theme) (c : Chart Float)

theorem isMark_figures {P : Text → Prop} (hP : ∀ v, Legal v → P v) (hink : P t.ink) (hfont : P t.font)
    (hfill : ∀ col ∈ c.columns, ∀ f, col.participant.fill = some f → P f) : ∀ i ∈ figures t c, IsMark P i := by
  refine List.forall_mem_append.mpr ⟨fun i hi => ?_, fun i hi => ?_⟩
  · obtain ⟨col, hcol, hi⟩ := List.mem_flatMap.mp hi
    exact isMark_columnPicture hP hink hfont c.bottom col (hfill col hcol) i hi
  · obtain ⟨call, -, hi⟩ := List.mem_flatMap.mp hi
    exact isMark_callPicture hP hink hfont call i hi

theorem drawn_content {P : Text → Prop} (hP : ∀ v, Legal v → P v) (hink : P t.ink) (hfont : P t.font)
    (hfill : ∀ col ∈ c.columns, ∀ f, col.participant.fill = some f → P f) :
    ∀ i ∈ [(.tag "g" [("class", "sequence")] (figures t c) : Markup)], Drawn P i :=
  List.forall_mem_singleton.mpr (.group rfl (values_cons (hP _ (legal_of_all (by decide))) values_nil) fun i hi =>
    .mark (isMark_figures t c hP hink hfont hfill i hi))

theorem drawn_script (lines : List (List Notation.Token)) {c : Chart Float}
    (hcolumns : c.columns.map (·.participant) = (Script.ofTokens lines).participants) (isDark : Bool) :
    ∀ i ∈ [(.tag "g" [("class", "sequence")] (figures (Theme.choose isDark) c) : Markup)], Drawn Legal i := by
  obtain ⟨hink, -, hfont⟩ := Theme.legal_choose isDark
  refine drawn_content _ c (fun _ h => h) hink hfont fun col hcol => ?_
  exact Script.legal_fill_ofTokens lines col.participant (hcolumns ▸ List.mem_map_of_mem hcol)

theorem named_picture {name : Text} (hname : name ∉ ["svg".toList, "g".toList, "polyline".toList, "polygon".toList])
    {ofColumn : Column Float → List Markup} {ofCall : Call Float → List Markup}
    (hcolumn : ∀ col, [box t col].filter (hasName name) ++ ((columnName t col).filter (hasName name) ++
      [lifeline t c.bottom col].filter (hasName name)) = ofColumn col)
    (hcall : ∀ call, [messagePath t call].filter (hasName name) ++ (messageText t call).filter (hasName name) =
      ofCall call) :
    named name (c.picture t) = c.columns.flatMap ofColumn ++ c.calls.flatMap ofCall := by
  rw [List.mem_cons, List.mem_cons, not_or, not_or] at hname
  obtain ⟨hroot, hgroup, htip⟩ := hname
  have hmarks : ∀ i ∈ figures t c, IsMark anything i :=
    isMark_figures t c (fun _ _ => trivial) trivial trivial fun _ _ _ _ => trivial
  have helements : Item.elements (c.picture t) =
      c.picture t :: .tag "g" [("class", "sequence")] (figures t c) :: figures t c := by
    unfold Chart.picture canvas Item.tag
    rw [Item.elements, Item.elementsAll, Item.elementsAll, Item.elements, elements_marks hmarks,
      List.append_nil]
  have hsvg : hasName name (c.picture t) = false := decide_eq_false (Ne.symm hroot)
  have hg : hasName name (.tag "g" [("class", "sequence")] (figures t c)) = false := decide_eq_false (Ne.symm hgroup)
  rw [named, helements, List.filter_cons, hsvg, List.filter_cons, hg, figures]
  simp only [Bool.false_eq_true, if_false, List.filter_append, List.filter_flatMap, filter_column, filter_call htip,
    hcolumn, hcall]

theorem filter_columnName (name : Text) (col : Column Float) :
    (columnName t col).filter (hasName name) = if "text".toList = name then columnName t col else [] :=
  filter_label name _ _ _ _ _

theorem filter_messageText (name : Text) (call : Call Float) :
    (messageText t call).filter (hasName name) = if "text".toList = name then messageText t call else [] := by
  unfold messageText
  split
  · simp
  · exact filter_label name _ _ _ _ _

theorem named_shape {name : Text} (hname : name ∉ ["svg".toList, "g".toList, "polyline".toList, "polygon".toList])
    (htext : "text".toList ≠ name) : named name (c.picture t) =
      (c.columns.flatMap fun col => [box t col, lifeline t c.bottom col].filter (hasName name)) ++
        c.calls.flatMap fun call => [messagePath t call].filter (hasName name) := by
  refine named_picture t c hname (fun col => ?_) fun call => ?_
  · rw [filter_columnName, if_neg htext, List.nil_append, ← List.filter_append, List.singleton_append]
  · rw [filter_messageText, if_neg htext, List.append_nil]

theorem boxes_picture : named "rect" (c.picture t) = c.columns.map (box t) := by
  calc named "rect" (c.picture t)
      = (c.columns.flatMap fun col => [box t col]) ++ c.calls.flatMap fun _ => [] :=
        named_shape t c (by decide) (by decide)
    _ = _ := by simp [List.map_eq_flatMap]

theorem lifelines_picture : named "line" (c.picture t) = c.columns.map (lifeline t c.bottom) := by
  calc named "line" (c.picture t)
      = (c.columns.flatMap fun col => [lifeline t c.bottom col]) ++ c.calls.flatMap fun _ => [] :=
        named_shape t c (by decide) (by decide)
    _ = _ := by simp [List.map_eq_flatMap]

theorem paths_picture : named "path" (c.picture t) = c.calls.map (messagePath t) := by
  calc named "path" (c.picture t)
      = (c.columns.flatMap fun _ => []) ++ c.calls.flatMap fun call => [messagePath t call] :=
        named_shape t c (by decide) (by decide)
    _ = _ := by simp [List.map_eq_flatMap]

def shownLines (s : Text) : List Text :=
  (labelLines s).map legalText

theorem allText_label (x top : Float) (s : Text) (l : Lettering) (anchor : Text) :
    (label x top s l anchor).map Item.allText = shownLines s := by
  have hline (q : Text × Nat) : Item.allText (labelLine x top l anchor q.1 q.2) = legalText q.1 :=
    allText_textElement _ _ _
  rw [shownLines, ← List.zipIdx_map_fst 0 (labelLines s), label, List.map_map, List.map_map]
  exact List.map_congr_left fun q _ => hline q

theorem texts_picture : (named "text" (c.picture t)).map Item.allText =
    (c.columns.map (·.participant.name)).flatMap shownLines ++
      c.calls.flatMap fun call => if call.message.text.isEmpty then [] else shownLines call.message.text := by
  have hnamed : named "text" (c.picture t) = c.columns.flatMap (columnName t) ++ c.calls.flatMap (messageText t) := by
    refine named_picture t c (by decide) (fun col => ?_) fun call => ?_
    · rw [filter_columnName, if_pos rfl]
      exact List.append_nil _
    · rw [filter_messageText, if_pos rfl]
      rfl
  have hmessage (call : Call Float) : (messageText t call).map Item.allText =
      if call.message.text.isEmpty then [] else shownLines call.message.text := by
    unfold messageText
    split
    · rfl
    · exact allText_label _ _ _ _ _
  rw [hnamed, List.map_append, List.map_flatMap, List.map_flatMap, List.flatMap_map]
  simp only [columnName, allText_label, hmessage]

end Chart

end Yuml.Sequence
