import Mathlib.Data.List.Forall2

namespace List

variable {α β : Type} {R : α → β → Prop}

theorem Forall₂.exists_of_mem {xs : List α} {ys : List β} (h : Forall₂ R xs ys) {y : β} (hy : y ∈ ys) :
    ∃ x ∈ xs, R x y := by
  induction h with
  | nil => cases hy
  | @cons x _ _ _ hxy _ ih =>
    rcases mem_cons.mp hy with rfl | hy
    · exact ⟨x, mem_cons_self, hxy⟩
    · obtain ⟨z, hz, hzy⟩ := ih hy
      exact ⟨z, mem_cons_of_mem _ hz, hzy⟩

theorem Forall₂.exists_getElem? {xs : List α} {ys : List β} (h : Forall₂ R xs ys) {i : Nat} {x : α}
    (hx : xs[i]? = some x) : ∃ y, ys[i]? = some y ∧ R x y := by
  obtain ⟨hlength, hget⟩ := forall₂_iff_get.mp h
  obtain ⟨hi, rfl⟩ := getElem?_eq_some_iff.mp hx
  exact ⟨ys[i], getElem?_eq_getElem (hlength ▸ hi), hget i hi (hlength ▸ hi)⟩

theorem exists_find?_key {xs : List α} {key : α → β} {k : β} {p : α → Bool} (hp : ∀ x, p x = true ↔ key x = k)
    (h : k ∈ xs.map key) : ∃ x ∈ xs, key x = k ∧ xs.find? p = some x := by
  obtain ⟨y, hy, hkey⟩ := mem_map.mp h
  obtain ⟨x, hx⟩ := Option.isSome_iff_exists.mp (find?_isSome.mpr ⟨y, hy, (hp y).mpr hkey⟩)
  exact ⟨x, mem_of_find?_eq_some hx, (hp x).mp (find?_some hx), hx⟩

theorem foldl_mem_of_choice {f : α → α → α} (hf : ∀ x y, f x y = x ∨ f x y = y) (xs : List α) (n : α) :
    xs.foldl f n ∈ n :: xs := by
  induction xs generalizing n with
  | nil => exact mem_cons_self
  | cons x xs ih =>
    rw [foldl_cons]
    rcases mem_cons.mp (ih (f n x)) with h | h
    · rw [h]
      rcases hf n x with hx | hx
      · rw [hx]
        exact mem_cons_self
      · rw [hx]
        exact mem_cons_of_mem _ mem_cons_self
    · exact mem_cons_of_mem _ (mem_cons_of_mem _ h)

end List

theorem guard_bind_eq_some {β : Type} {p : Prop} [Decidable p] {f : Unit → Option β} {b : β} :
    (guard p >>= f) = some b ↔ p ∧ f () = some b := by
  by_cases h : p
  · rw [guard, if_pos h]
    exact ⟨fun hf => ⟨h, hf⟩, And.right⟩
  · rw [guard, if_neg h]
    exact ⟨fun hf => (by cases hf), fun hf => absurd hf.1 h⟩

theorem Option.forall_mem_of_mapM {α β : Type} {P : β → Prop} {f : α → Option β} {xs : List α} {ys : List β}
    (h : xs.mapM f = some ys) (hf : ∀ x ∈ xs, ∀ y, f x = some y → P y) : ∀ y ∈ ys, P y := by
  induction xs generalizing ys with
  | nil =>
    cases h
    exact List.forall_mem_nil P
  | cons x xs ih =>
    obtain ⟨hx, hxs⟩ := List.forall_mem_cons.mp hf
    rw [List.mapM_cons] at h
    obtain ⟨y, hy, h⟩ := Option.bind_eq_some_iff.mp h
    obtain ⟨zs, hzs, h⟩ := Option.bind_eq_some_iff.mp h
    cases h
    exact List.forall_mem_cons.mpr ⟨hx y hy, ih hzs hxs⟩

namespace Except

variable {ε ε' α β : Type}

theorem bind_eq_ok {x : Except ε α} {f : α → Except ε β} {b : β} :
    (x >>= f) = .ok b ↔ ∃ a, x = .ok a ∧ f a = .ok b := by
  cases x <;> simp [bind, Except.bind]

theorem map_eq_ok {x : Except ε α} {f : α → β} {b : β} :
    x.map f = .ok b ↔ ∃ a, x = .ok a ∧ f a = b := by
  cases x <;> simp [Except.map]

theorem map_eq_error {x : Except ε α} {f : α → β} {e : ε} : x.map f = .error e ↔ x = .error e := by
  cases x <;> simp [Except.map]

theorem mapError_eq_ok {x : Except ε α} {f : ε → ε'} {a : α} :
    x.mapError f = .ok a ↔ x = .ok a := by
  cases x <;> simp [Except.mapError]

theorem mapError_eq_error {x : Except ε α} {f : ε → ε'} {e : ε'} :
    x.mapError f = .error e ↔ ∃ e', x = .error e' ∧ f e' = e := by
  cases x <;> simp [Except.mapError]

theorem foldlM_ok {P : β → Prop} {f : β → α → Except ε β} (xs : List α)
    (hf : ∀ b, P b → ∀ x ∈ xs, ∃ b', f b x = .ok b' ∧ P b') {b : β} (hb : P b) :
    ∃ b', xs.foldlM f b = .ok b' ∧ P b' := by
  induction xs generalizing b with
  | nil => exact ⟨b, rfl, hb⟩
  | cons x xs ih =>
    obtain ⟨b', hx, hb'⟩ := hf b hb x List.mem_cons_self
    obtain ⟨b'', hxs, hb''⟩ := ih (fun c hc y hy => hf c hc y (List.mem_cons_of_mem _ hy)) hb'
    exact ⟨b'', by rw [List.foldlM_cons, bind_eq_ok]; exact ⟨b', hx, hxs⟩, hb''⟩

theorem foldlM_keeps {P : β → Prop} {f : β → α → Except ε β} {xs : List α}
    (hf : ∀ b, P b → ∀ x ∈ xs, ∀ b', f b x = .ok b' → P b') {b b' : β} (hb : P b)
    (h : xs.foldlM f b = .ok b') : P b' := by
  induction xs generalizing b with
  | nil =>
    cases h
    exact hb
  | cons x xs ih =>
    rw [List.foldlM_cons] at h
    obtain ⟨c, hx, hxs⟩ := bind_eq_ok.mp h
    have hc := hf b hb x List.mem_cons_self c hx
    exact ih (fun d hd y hy => hf d hd y (List.mem_cons_of_mem _ hy)) hc hxs

theorem mapM_ok {R : α → β → Prop} {f : α → Except ε β} (xs : List α)
    (hf : ∀ x ∈ xs, ∃ y, f x = .ok y ∧ R x y) :
    ∃ ys, xs.mapM f = .ok ys ∧ List.Forall₂ R xs ys := by
  induction xs with
  | nil => exact ⟨[], by rw [List.mapM_nil]; rfl, .nil⟩
  | cons x xs ih =>
    obtain ⟨y, hy, hr⟩ := hf x List.mem_cons_self
    obtain ⟨ys, hys, hrs⟩ := ih fun z hz => hf z (List.mem_cons_of_mem _ hz)
    refine ⟨y :: ys, ?_, .cons hr hrs⟩
    simp only [List.mapM_cons, hy, hys, bind, Except.bind, pure, Except.pure]

theorem forall₂_of_mapM {f : α → Except ε β} {xs : List α} {ys : List β} (h : xs.mapM f = .ok ys) :
    List.Forall₂ (fun x y => f x = .ok y) xs ys := by
  induction xs generalizing ys with
  | nil =>
    cases h
    exact .nil
  | cons x xs ih =>
    rw [List.mapM_cons] at h
    obtain ⟨y, hy, h⟩ := bind_eq_ok.mp h
    obtain ⟨ys, hys, h⟩ := bind_eq_ok.mp h
    cases h
    exact .cons hy (ih hys)

theorem mapM_of_forall₂ {f : α → Except ε β} {xs : List α} {ys : List β}
    (h : List.Forall₂ (fun x y => f x = .ok y) xs ys) : xs.mapM f = .ok ys := by
  induction h with
  | nil => rfl
  | cons hx _ ih => simp only [List.mapM_cons, hx, ih, bind, Except.bind, pure, Except.pure]

theorem mapM_reverse {f : α → Except ε β} {xs : List α} {ys : List β} (h : xs.mapM f = .ok ys) :
    xs.reverse.mapM f = .ok ys.reverse :=
  mapM_of_forall₂ (List.forall₂_reverse_iff.mpr (forall₂_of_mapM h))

theorem mapM_forall₂ {γ : Type} {R : β → γ → Prop} {f : α → Except ε β} {g : α → Except ε γ} {xs : List α}
    (hfg : ∀ x ∈ xs, ∀ y, f x = .ok y → ∃ z, g x = .ok z ∧ R y z) {ys : List β}
    (h : xs.mapM f = .ok ys) : ∃ zs, xs.mapM g = .ok zs ∧ List.Forall₂ R ys zs := by
  induction xs generalizing ys with
  | nil =>
    cases h
    exact ⟨[], rfl, .nil⟩
  | cons x xs ih =>
    rw [List.mapM_cons] at h ⊢
    obtain ⟨y, hy, h⟩ := bind_eq_ok.mp h
    obtain ⟨ys, hys, h⟩ := bind_eq_ok.mp h
    cases h
    obtain ⟨z, hz, hyz⟩ := hfg x List.mem_cons_self y hy
    obtain ⟨zs, hzs, hyzs⟩ := ih (fun w hw => hfg w (List.mem_cons_of_mem _ hw)) hys
    exact ⟨z :: zs, bind_eq_ok.mpr ⟨z, hz, bind_eq_ok.mpr ⟨zs, hzs, rfl⟩⟩, .cons hyz hyzs⟩

section Alike

variable {γ δ : Type} {R : α → β → Prop} {S : γ → δ → Prop}

inductive Alike (R : α → β → Prop) : Except ε α → Except ε β → Prop
  | error (e : ε) : Alike R (.error e) (.error e)
  | ok {a : α} {b : β} (h : R a b) : Alike R (.ok a) (.ok b)

namespace Alike

theorem cases {x : Except ε α} {y : Except ε β} (h : Alike R x y) :
    (∃ e, x = .error e ∧ y = .error e) ∨ ∃ a b, x = .ok a ∧ y = .ok b ∧ R a b := by
  cases h with
  | error e => exact .inl ⟨e, rfl, rfl⟩
  | ok h => exact .inr ⟨_, _, rfl, rfl, h⟩

theorem bind {x : Except ε α} {y : Except ε β} {f : α → Except ε γ} {g : β → Except ε δ} (h : Alike R x y)
    (hfg : ∀ a b, R a b → Alike S (f a) (g b)) : Alike S (x >>= f) (y >>= g) := by
  cases h with
  | error e => exact .error e
  | ok h => exact hfg _ _ h

theorem step (x : Except ε α) {f : α → Except ε γ} {g : α → Except ε δ} (h : ∀ a, x = .ok a → Alike S (f a) (g a)) :
    Alike S (x >>= f) (x >>= g) := by
  cases x with
  | error e => exact .error e
  | ok a => exact h a rfl

end Alike

end Alike

end Except
