import Yuml.Proofs.Layered.Bands

namespace Yuml.Layered

open Number

namespace Place

variable (d : Direction) (q : Place Rat)

def near : Rat :=
  if d.isHorizontal then q.y else q.x

def far : Rat :=
  if d.isHorizontal then q.y + q.height else q.x + q.width

def top : Rat :=
  if d.isHorizontal then q.x else q.y

def bottom : Rat :=
  if d.isHorizontal then q.x + q.width else q.y + q.height

/-- Boxes of one layer follow one another in their order, with a gap between them, and so do the
layers; from right to left the lower layer comes last. -/
structure Apart (d : Direction) (rankGap nodeGap : Rat) (q r : Place Rat) : Prop where
  order_ne : q.layer = r.layer → q.order ≠ r.order
  along : q.layer = r.layer → q.order < r.order → q.far d + nodeGap ≤ r.near d
  across : q.layer < r.layer → d ≠ .rightToLeft → q.bottom d + rankGap ≤ r.top d
  across_back : q.layer < r.layer → d = .rightToLeft → r.bottom d + rankGap ≤ q.top d

theorem margin_le {d : Direction} {q : Place Rat} {n : Rat} (hnear : n ≤ q.near d)
    (htop : n ≤ q.top d) : n ≤ q.x ∧ n ≤ q.y := by
  unfold near at hnear
  unfold top at htop
  cases h : d.isHorizontal
  · rw [h] at hnear htop
    exact ⟨hnear, htop⟩
  · rw [h] at hnear htop
    exact ⟨htop, hnear⟩

end Place

namespace Plan

section AnyScalar

variable {α : Type} [Scalar α] {p : Plan α} {g : Digraph Text} {rows : List (List Text)}

theorem id_placeAt (p : Plan α) (low total middle start rowDepth : α) (layer order : Nat) (id : Text) :
    (p.placeAt low total middle start rowDepth layer order id).id = id := by
  unfold placeAt
  dsimp only
  split <;> rfl

theorem layer_placeAt (p : Plan α) (low total middle start rowDepth : α) (layer order : Nat) (id : Text) :
    (p.placeAt low total middle start rowDepth layer order id).layer = layer := by
  unfold placeAt
  dsimp only
  split <;> rfl

theorem exists_row_of_mem_places {q : Place α} (h : q ∈ p.places g rows) :
    ∃ row, rows[q.layer]? = some row ∧ q.id ∈ row := by
  obtain ⟨b, hb, hq⟩ := List.mem_flatMap.mp h
  obtain ⟨i, hi, rfl⟩ := List.mem_map.mp hq
  have hrow := (List.getElem?_zip_eq_some.mp (List.mem_zipIdx_iff_getElem?.mp hb)).1
  rw [layer_placeAt, id_placeAt]
  exact ⟨b.1.1, hrow, List.fst_mem_of_mem_zipIdx hi⟩

theorem map_id_places : (p.places g rows).map (·.id) = rows.flatten := by
  have hrow (b : (List Text × α) × Nat) (low total : α) (m : Middles α) :
      (b.1.1.zipIdx.map fun i => p.placeAt low total (m.at i.1) b.1.2 (p.rowDepth b.1.1) b.2 i.2 i.1).map
        (·.id) = b.1.1 := by
    rw [List.map_map]
    exact (List.map_congr_left fun i _ => p.id_placeAt ..).trans (List.zipIdx_map_fst 0 b.1.1)
  have hbands := congrArg (List.map (·.1)) (List.zipIdx_map_fst 0 (p.bands 0.0 rows))
  rw [map_fst_bands, List.map_map] at hbands
  rw [places, List.map_flatMap]
  refine (List.flatMap_congr fun b _ => hrow b ..).trans ?_
  exact congrArg List.flatten hbands

end AnyScalar

variable (p : Plan Rat) (low total middle start rowDepth : Rat) (layer order : Nat) (id : Text)

def descent : Rat :=
  start + (rowDepth - (p.extent id).depth) / 2

theorem order_placeAt : (p.placeAt low total middle start rowDepth layer order id).order = order := by
  unfold placeAt
  dsimp only
  split <;> rfl

theorem near_placeAt :
    (p.placeAt low total middle start rowDepth layer order id).near p.direction =
      middle - low - p.half id + margin := by
  rw [half, ← Scalar.decimal_two, Place.near, placeAt]
  cases p.direction.isHorizontal <;> rfl

theorem far_placeAt :
    (p.placeAt low total middle start rowDepth layer order id).far p.direction =
      middle - low + p.half id + margin := by
  have hnear := p.near_placeAt low total middle start rowDepth layer order id
  have hfar : (p.placeAt low total middle start rowDepth layer order id).far p.direction =
      (p.placeAt low total middle start rowDepth layer order id).near p.direction +
        (p.extent id).breadth := by
    rw [Place.far, Place.near, placeAt]
    cases p.direction.isHorizontal <;> rfl
  rw [hfar, hnear, ← p.half_add_half id]
  linarith

theorem top_placeAt :
    (p.placeAt low total middle start rowDepth layer order id).top p.direction =
      (if p.direction = .rightToLeft then total - p.descent start rowDepth id - (p.extent id).depth
      else p.descent start rowDepth id) + margin := by
  rw [descent, ← Scalar.decimal_two, Place.top, placeAt]
  cases p.direction.isHorizontal <;> rfl

theorem bottom_placeAt :
    (p.placeAt low total middle start rowDepth layer order id).bottom p.direction =
      (p.placeAt low total middle start rowDepth layer order id).top p.direction +
        (p.extent id).depth := by
  rw [Place.bottom, Place.top, placeAt]
  cases p.direction.isHorizontal <;> rfl

variable {id}

theorem size_placeAt (h : isDummy id = false) :
    ((p.placeAt low total middle start rowDepth layer order id).width,
      (p.placeAt low total middle start rowDepth layer order id).height) = p.size id := by
  have hreal : ¬ isDummy id = true := by rw [h]; exact Bool.false_ne_true
  rw [placeAt, extent, if_neg hreal]
  cases p.direction.isHorizontal <;> rfl

theorem extent_nonneg (h : isDummy id = true ∨ 0 ≤ (p.size id).1 ∧ 0 ≤ (p.size id).2) :
    0 ≤ (p.extent id).breadth ∧ 0 ≤ (p.extent id).depth := by
  rw [extent]
  by_cases hdummy : isDummy id = true
  · have hbreadth : (0 : Rat) ≤ 10.0 := by norm_num
    rw [if_pos hdummy]
    exact ⟨hbreadth, Scalar.decimal_zero.ge⟩
  · have hsize := h.resolve_left hdummy
    rw [if_neg hdummy]
    split
    · exact ⟨hsize.2, hsize.1⟩
    · exact hsize

theorem descent_within {band : List Text × Rat} (h : id ∈ band.1) :
    band.2 ≤ p.descent band.2 (p.rowDepth band.1) id ∧
      p.descent band.2 (p.rowDepth band.1) id + (p.extent id).depth ≤ band.2 + p.rowDepth band.1 := by
  have hdepth := depth_le_rowDepth (p := p) h
  unfold descent
  constructor <;> linarith

def placeIn (g : Digraph Text) (rows : List (List Text)) (layer : Nat) (band : List Text × Rat)
    (order : Nat) (id : Text) : Place Rat :=
  p.placeAt (p.lowest (p.middles g rows) rows) (p.totalDepth rows) ((p.middles g rows).at id) band.2
    (p.rowDepth band.1) layer order id

theorem places_eq (g : Digraph Text) (rows : List (List Text)) :
    p.places g rows = (p.bands 0 rows).zipIdx.flatMap fun b =>
      b.1.1.zipIdx.map fun i => p.placeIn g rows b.2 b.1 i.2 i.1 := by
  rw [← Scalar.decimal_zero]
  rfl

variable {p} {g : Digraph Text} {rows : List (List Text)}

theorem mem_places {q : Place Rat} :
    q ∈ p.places g rows ↔ ∃ layer band order id, (p.bands 0 rows)[layer]? = some band ∧
      band.1[order]? = some id ∧ q = p.placeIn g rows layer band order id := by
  simp only [places_eq, List.mem_flatMap, List.mem_map, List.mem_zipIdx_iff_getElem?]
  constructor
  · rintro ⟨⟨band, layer⟩, hband, ⟨id, order⟩, hid, rfl⟩
    exact ⟨layer, band, order, id, hband, hid, rfl⟩
  · rintro ⟨layer, band, order, id, hband, hid, rfl⟩
    exact ⟨(band, layer), hband, (id, order), hid, rfl⟩

theorem mem_rows_of_band {layer : Nat} {band : List Text × Rat}
    (h : (p.bands 0 rows)[layer]? = some band) : band ∈ p.bands 0 rows ∧ band.1 ∈ rows := by
  have hmem := List.mem_of_getElem? h
  refine ⟨hmem, ?_⟩
  have := List.mem_map_of_mem (f := (·.1)) hmem
  rwa [map_fst_bands] at this

theorem far_add_le_near (hrows : rows.flatten.Nodup) (hgap : 0 ≤ p.nodeGap)
    (hsized : ∀ row ∈ rows, p.Sized row) {band : List Text × Rat} (hband : band.1 ∈ rows)
    {i j layer : Nat} {v w : Text} (hv : band.1[i]? = some v) (hw : band.1[j]? = some w) (hij : i < j) :
    (p.placeIn g rows layer band i v).far p.direction + p.nodeGap ≤
      (p.placeIn g rows layer band j w).near p.direction := by
  have hspaced := List.pairwise_map.mp (allSpaced_middles g hrows hgap hsized band.1 hband)
  obtain ⟨hi, rfl⟩ := List.getElem?_eq_some_iff.mp hv
  obtain ⟨hj, rfl⟩ := List.getElem?_eq_some_iff.mp hw
  have h := List.pairwise_iff_getElem.mp hspaced i j hi hj hij
  rw [placeIn, placeIn, far_placeAt, near_placeAt]
  dsimp only at h
  linarith

theorem bottom_add_le_top (hgap : 0 ≤ p.rankGap) (hsized : ∀ row ∈ rows, p.Sized row)
    {i j k l : Nat} {upper lower : List Text × Rat} {v w : Text}
    (hupper : (p.bands 0 rows)[i]? = some upper) (hlower : (p.bands 0 rows)[j]? = some lower)
    (hij : i < j) (hv : v ∈ upper.1) (hw : w ∈ lower.1) :
    (p.direction ≠ .rightToLeft →
      (p.placeIn g rows i upper k v).bottom p.direction + p.rankGap ≤
        (p.placeIn g rows j lower l w).top p.direction) ∧
    (p.direction = .rightToLeft →
      (p.placeIn g rows j lower l w).bottom p.direction + p.rankGap ≤
        (p.placeIn g rows i upper k v).top p.direction) := by
  obtain ⟨hi, rfl⟩ := List.getElem?_eq_some_iff.mp hupper
  obtain ⟨hj, rfl⟩ := List.getElem?_eq_some_iff.mp hlower
  have hbands := List.pairwise_iff_getElem.mp (bands_spaced hgap hsized 0) i j hi hj hij
  have hfirst := p.descent_within hv
  have hsecond := p.descent_within hw
  simp only [placeIn, bottom_placeAt, top_placeAt]
  constructor
  · intro hd
    rw [if_neg hd, if_neg hd]
    linarith
  · intro hd
    rw [if_pos hd, if_pos hd]
    linarith

theorem across_of_mem_places (hrank : 0 ≤ p.rankGap) (hsized : ∀ row ∈ rows, p.Sized row) {q r : Place Rat}
    (hq : q ∈ p.places g rows) (hr : r ∈ p.places g rows) (hlt : q.layer < r.layer) :
    (p.direction ≠ .rightToLeft → q.bottom p.direction + p.rankGap ≤ r.top p.direction) ∧
      (p.direction = .rightToLeft → r.bottom p.direction + p.rankGap ≤ q.top p.direction) := by
  obtain ⟨i, upper, k, v, hupper, hv, rfl⟩ := mem_places.mp hq
  obtain ⟨j, lower, l, w, hlower, hw, rfl⟩ := mem_places.mp hr
  simp only [placeIn, layer_placeAt] at hlt
  exact bottom_add_le_top hrank hsized hupper hlower hlt (List.mem_of_getElem? hv) (List.mem_of_getElem? hw)

theorem apart_of_mem_places (hrows : rows.flatten.Nodup) (hrank : 0 ≤ p.rankGap)
    (hnode : 0 ≤ p.nodeGap) (hsized : ∀ row ∈ rows, p.Sized row) {q r : Place Rat}
    (hq : q ∈ p.places g rows) (hr : r ∈ p.places g rows) (hne : q.id ≠ r.id) :
    q.Apart p.direction p.rankGap p.nodeGap r := by
  have hacross := across_of_mem_places hrank hsized hq hr
  refine ⟨?_, ?_, fun hlt => (hacross hlt).1, fun hlt => (hacross hlt).2⟩
  all_goals
    clear hacross
    obtain ⟨i, upper, k, v, hupper, hv, rfl⟩ := mem_places.mp hq
    obtain ⟨j, lower, l, w, hlower, hw, rfl⟩ := mem_places.mp hr
    simp only [placeIn, id_placeAt] at hne
    simp only [placeIn, layer_placeAt, order_placeAt]
    rintro rfl
    obtain rfl := Option.some.inj (hupper.symm.trans hlower)
  · rintro rfl
    exact hne (Option.some.inj (hv.symm.trans hw))
  · exact fun hkl => far_add_le_near hrows hnode hsized (mem_rows_of_band hupper).2 hv hw hkl

theorem margin_le_of_mem_places (hgap : 0 ≤ p.rankGap) (hsized : ∀ row ∈ rows, p.Sized row)
    {q : Place Rat} (hq : q ∈ p.places g rows) : margin ≤ q.x ∧ margin ≤ q.y := by
  obtain ⟨i, band, k, v, hband, hv, rfl⟩ := mem_places.mp hq
  obtain ⟨hmem, hrow⟩ := mem_rows_of_band hband
  have hid := List.mem_of_getElem? hv
  apply Place.margin_le (d := p.direction)
  · have hlow := p.lowest_le (m := p.middles g rows) (List.mem_flatten_of_mem hrow hid)
    rw [placeIn, near_placeAt]
    linarith
  · have hstart := (bands_within hgap hsized 0 band hmem).1
    have hend := le_totalDepth hgap hsized hmem
    have hwithin := p.descent_within hid
    rw [placeIn, top_placeAt]
    split <;> linarith

theorem size_of_mem_places {q : Place Rat} (hq : q ∈ p.places g rows) (h : isDummy q.id = false) :
    (q.width, q.height) = p.size q.id := by
  obtain ⟨i, band, k, v, -, -, rfl⟩ := mem_places.mp hq
  simp only [placeIn, id_placeAt] at h ⊢
  exact p.size_placeAt _ _ _ _ _ _ _ h

end Plan

end Yuml.Layered
