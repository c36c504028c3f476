import Mathlib.Data.Option.Basic
import Yuml.Proofs.Outcome
import Yuml.Proofs.Xml.Character
import Yuml.Xml.Prolog

namespace Yuml.Xml

def IsRun (w : Text) : Prop :=
  w ≠ [] ∧ ∀ c ∈ w, isNameChar c = true

/-- The names of elements and attributes that a reader gives: a run of the characters of names, with a
plain name and a colon before it or without. Names from declarations need not go on with a letter. -/
inductive IsNameRead : Text → Prop
  | run {w : Text} (h : IsRun w) : IsNameRead w
  | prefixed {p w : Text} (hp : isPlainName p = true) (h : IsRun w) : IsNameRead (p ++ ':' :: w)

theorem isRun_of_isPlainName {s : Text} (h : isPlainName s = true) : IsRun s := by
  cases s with
  | nil => cases h
  | cons c cs =>
    rw [isPlainName, Bool.and_eq_true, List.all_eq_true] at h
    exact ⟨List.cons_ne_nil c cs, List.forall_mem_cons.mpr ⟨isNameChar_of_isNameStart h.1, h.2⟩⟩

theorem takePlainName?_eq_some {s name r : Text} (h : takePlainName? s = some (name, r)) :
    isPlainName name = true ∧ s = name ++ r := by
  cases s with
  | nil => cases h
  | cons c cs =>
    rw [takePlainName?] at h
    split at h
    · next hc =>
      cases h
      refine ⟨?_, ?_⟩
      · rw [isPlainName, hc, Bool.true_and, List.all_takeWhile]
      · rw [List.cons_append, List.takeWhile_append_dropWhile]
    · cases h

theorem takeName?_read {s name r : Text} (h : takeName? s = some (name, r)) : IsNameRead name := by
  rw [takeName?] at h
  split at h
  · cases h
  · next first rest hfirst =>
    obtain ⟨⟨more, r'⟩, hmore, h⟩ := Option.map_eq_some_iff.mp h
    cases h
    exact .prefixed (takePlainName?_eq_some hfirst).1 (isRun_of_isPlainName (takePlainName?_eq_some hmore).1)
  · next first rest _ hfirst =>
    cases h
    exact .run (isRun_of_isPlainName (takePlainName?_eq_some hfirst).1)

def Event.Named {τ : Type} : Event τ → Prop
  | .opening name attributes => IsNameRead name ∧ ∀ p ∈ attributes, IsNameRead p.1
  | .closing _ | .text _ => True

theorem takeAttributes?_named {fuel : Nat} {read a : List (Text × List Piece)} {s r : Text} {isEmpty : Bool}
    (hread : ∀ p ∈ read, IsNameRead p.1) (h : takeAttributes? fuel read s = some (a, isEmpty, r)) :
    ∀ p ∈ a, IsNameRead p.1 := by
  induction fuel generalizing read s with
  | zero => cases h
  | succ fuel ih =>
    rw [takeAttributes?] at h
    split at h
    · cases h
      exact hread
    · cases h
      exact hread
    · obtain ⟨-, h⟩ := guard_bind_eq_some.mp h
      obtain ⟨⟨name, r₁⟩, hname, h⟩ := Option.bind_eq_some_iff.mp h
      obtain ⟨-, h⟩ := guard_bind_eq_some.mp h
      obtain ⟨r₂, -, h⟩ := Option.bind_eq_some_iff.mp h
      obtain ⟨⟨value, r₃⟩, -, h⟩ := Option.bind_eq_some_iff.mp h
      refine ih (List.forall_mem_append.mpr ⟨hread, List.forall_mem_singleton.mpr ?_⟩) h
      exact takeName?_read hname

theorem takeStartTag?_named {fuel : Nat} {s r : Text} {events : RawEvents} {isOpen : Bool}
    (h : takeStartTag? fuel s = some (events, isOpen, r)) : ∀ e ∈ events, e.Named := by
  obtain ⟨⟨name, r₁⟩, hname, h⟩ := Option.bind_eq_some_iff.mp h
  obtain ⟨⟨a, isEmpty, r₂⟩, hattributes, h⟩ := Option.bind_eq_some_iff.mp h
  cases h
  refine List.forall_mem_cons.mpr ⟨⟨takeName?_read hname, takeAttributes?_named (List.forall_mem_nil _) hattributes⟩, ?_⟩
  cases isEmpty with
  | true => exact List.forall_mem_singleton.mpr trivial
  | false => exact List.forall_mem_nil _

theorem content?_named {fuel depth : Nat} {s r : Text} {events : RawEvents}
    (h : content? fuel depth s = some (events, r)) : ∀ e ∈ events, e.Named := by
  fun_induction content? fuel depth s generalizing events with
  | case1 | case3 | case9 | case10 => cases h
  | case2 | case4 =>
    cases h
    exact List.forall_mem_nil _
  | case5 fuel depth s ih =>
    obtain ⟨⟨name, r₁⟩, -, h⟩ := Option.bind_eq_some_iff.mp h
    obtain ⟨⟨es, r₂⟩, hes, h⟩ := Option.bind_eq_some_iff.mp h
    cases h
    exact List.forall_mem_cons.mpr ⟨trivial, ih r₁ hes⟩
  | case6 fuel depth s ih | case7 fuel depth s _ _ ih =>
    obtain ⟨r₁, -, h⟩ := Option.bind_eq_some_iff.mp h
    exact ih r₁ h
  | case8 fuel depth s _ _ _ t r₁ _ ih =>
    obtain ⟨⟨es, r₂⟩, hes, h⟩ := Option.bind_eq_some_iff.mp h
    cases h
    exact List.forall_mem_cons.mpr ⟨trivial, ih hes⟩
  | case11 fuel depth s _ _ _ _ ih =>
    obtain ⟨⟨tag, isOpen, r₁⟩, htag, h⟩ := Option.bind_eq_some_iff.mp h
    obtain ⟨⟨es, r₂⟩, hes, h⟩ := Option.bind_eq_some_iff.mp h
    cases h
    exact List.forall_mem_append.mpr ⟨takeStartTag?_named htag, ih isOpen r₁ hes⟩
  | case12 fuel depth s =>
    rename_i ih
    obtain ⟨-, h⟩ := guard_bind_eq_some.mp h
    obtain ⟨t, -, h⟩ := Option.bind_eq_some_iff.mp h
    obtain ⟨⟨es, r₂⟩, hes, h⟩ := Option.bind_eq_some_iff.mp h
    cases h
    exact List.forall_mem_cons.mpr ⟨trivial, ih hes⟩

theorem contentOf?_named {s : Text} {events : RawEvents} (h : contentOf? s = some events) : ∀ e ∈ events, e.Named := by
  obtain ⟨⟨es, r⟩, hes, h⟩ := Option.bind_eq_some_iff.mp h
  obtain ⟨-, h⟩ := guard_bind_eq_some.mp h
  cases h
  exact content?_named hes

theorem takeElement?_named {s r : Text} {events : RawEvents} (h : takeElement? s = some (events, r)) :
    ∀ e ∈ events, e.Named := by
  obtain ⟨r₁, -, h⟩ := Option.bind_eq_some_iff.mp h
  obtain ⟨⟨tag, isOpen, r₂⟩, htag, h⟩ := Option.bind_eq_some_iff.mp h
  have hnamed := takeStartTag?_named htag
  dsimp only at h
  split at h
  · obtain ⟨⟨es, r₃⟩, hes, h⟩ := Option.bind_eq_some_iff.mp h
    obtain ⟨r₄, -, h⟩ := Option.bind_eq_some_iff.mp h
    obtain ⟨⟨name, r₅⟩, -, h⟩ := Option.bind_eq_some_iff.mp h
    cases h
    exact List.forall_mem_append.mpr
      ⟨List.forall_mem_append.mpr ⟨hnamed, content?_named hes⟩, List.forall_mem_singleton.mpr trivial⟩
  · cases h
    exact hnamed

theorem Lexeme.ofWord_named (w : Text) : ∀ n ∈ (Lexeme.ofWord w).name?, IsNameRead n := by
  unfold Lexeme.ofWord
  split
  · next p h =>
    obtain ⟨hp, hw⟩ := takePlainName?_eq_some h
    rintro n ⟨⟩
    rw [hw, List.append_nil]
    exact .run (isRun_of_isPlainName hp)
  · next p c cs h =>
    obtain ⟨hp, hw⟩ := takePlainName?_eq_some h
    split
    · next hall =>
      rintro n ⟨⟩
      rw [hw]
      exact .prefixed hp ⟨List.cons_ne_nil c cs, List.all_eq_true.mp hall⟩
    · rintro n ⟨⟩
  · rintro n ⟨⟩

theorem takeLexeme?_named {s r : Text} {x : Lexeme} (h : takeLexeme? s = some (x, r)) :
    ∀ n ∈ x.name?, IsNameRead n := by
  have hnone {y : Lexeme} (hy : y.name? = none) : ∀ n ∈ y.name?, IsNameRead n := by
    rw [hy]
    rintro n ⟨⟩
  revert h
  fun_cases takeLexeme? s <;> intro h
  case case9 hgoes =>
    rw [if_pos hgoes] at h
    cases h
    exact hnone rfl
  case case10 hgoes =>
    rw [if_neg hgoes] at h
    cases h
  case case11 | case12 =>
    obtain ⟨⟨w, r₁⟩, -, h⟩ := Option.bind_eq_some_iff.mp h
    obtain ⟨-, h⟩ := guard_bind_eq_some.mp h
    cases h
    exact hnone rfl
  case case17 =>
    obtain ⟨rfl, -⟩ := Prod.mk.inj (Option.some.inj h)
    exact Lexeme.ofWord_named _
  all_goals
    cases h
    try exact hnone rfl

theorem takeLexemes?_named {fuel : Nat} {s r : Text} {xs : List Lexeme} (h : takeLexemes? fuel s = some (xs, r)) :
    ∀ x ∈ xs, ∀ n ∈ x.name?, IsNameRead n := by
  induction fuel generalizing s xs with
  | zero => cases h
  | succ fuel ih =>
    rw [takeLexemes?] at h
    split at h
    · cases h
      exact List.forall_mem_nil _
    · cases h
      exact List.forall_mem_nil _
    · obtain ⟨⟨x, r₁⟩, hx, h⟩ := Option.bind_eq_some_iff.mp h
      obtain ⟨⟨xs, r₂⟩, hxs, h⟩ := Option.bind_eq_some_iff.mp h
      cases h
      exact List.forall_mem_cons.mpr ⟨takeLexeme?_named hx, ih hxs⟩

namespace Declaration

theorem afterChoices?_suffix {p : Lexeme → Bool} {xs ys : List Lexeme} (h : afterChoices? p xs = some ys) :
    ys <:+ xs := by
  fun_induction afterChoices? p xs with
  | case1 x xs _ ih => exact (ih h).trans ((List.suffix_cons _ _).trans (List.suffix_cons _ _))
  | case3 x xs _ =>
    cases h
    exact (List.suffix_cons _ _).trans (List.suffix_cons _ _)
  | case2 | case4 | case5 => cases h

theorem takeType?_suffix {xs ys : List Lexeme} {isTokenized : Bool} (h : takeType? xs = some (isTokenized, ys)) :
    ys <:+ xs := by
  revert h
  fun_cases takeType? xs <;> intro h
  case case1 =>
    obtain ⟨zs, hzs, h⟩ := Option.map_eq_some_iff.mp h
    cases h
    exact (afterChoices?_suffix hzs).trans (List.suffix_cons _ _)
  case case4 =>
    obtain ⟨zs, hzs, h⟩ := Option.map_eq_some_iff.mp h
    cases h
    exact (afterChoices?_suffix hzs).trans ((List.suffix_cons _ _).trans (List.suffix_cons _ _))
  all_goals
    cases h
    try exact List.suffix_cons _ _

theorem takeDefault?_suffix {xs ys : List Lexeme} {default : Option Text}
    (h : takeDefault? xs = some (default, ys)) : ys <:+ xs := by
  revert h
  fun_cases takeDefault? xs <;> intro h
  all_goals
    cases h
    try exact List.suffix_cons _ _
  exact (List.suffix_cons _ _).trans (List.suffix_cons _ _)

theorem rules?_named {element : Text} {fuel : Nat} {xs : List Lexeme} {rules : List AttributeRule}
    (hxs : ∀ x ∈ xs, ∀ n ∈ x.name?, IsNameRead n) (h : rules? element fuel xs = some rules) :
    ∀ r ∈ rules, IsNameRead r.name := by
  fun_induction rules? element fuel xs generalizing rules with
  | case1 =>
    cases h
    exact List.forall_mem_nil _
  | case2 => cases h
  | case3 fuel x xs ih =>
    obtain ⟨hx, hrest⟩ := List.forall_mem_cons.mp hxs
    obtain ⟨name, hname, h⟩ := Option.bind_eq_some_iff.mp h
    obtain ⟨⟨isTokenized, ys⟩, hys, h⟩ := Option.bind_eq_some_iff.mp h
    obtain ⟨⟨default, zs⟩, hzs, h⟩ := Option.bind_eq_some_iff.mp h
    obtain ⟨more, hmore, h⟩ := Option.bind_eq_some_iff.mp h
    cases h
    have hsuffix := (takeDefault?_suffix hzs).trans (takeType?_suffix hys)
    exact List.forall_mem_cons.mpr ⟨hx name hname, ih _ (fun x hx => hrest x (hsuffix.subset hx)) hmore⟩

def Named : Declaration → Prop
  | .attributes rules => ∀ r ∈ rules, IsNameRead r.name
  | .entity _ _ | .parameter _ _ | .other => True

theorem ofAttributes?_named {xs : List Lexeme} {d : Declaration} (hxs : ∀ x ∈ xs, ∀ n ∈ x.name?, IsNameRead n)
    (h : ofAttributes? xs = some d) : d.Named := by
  cases xs with
  | nil => cases h
  | cons x xs =>
    obtain ⟨element, -, h⟩ := Option.bind_eq_some_iff.mp h
    obtain ⟨rules, hrules, h⟩ := Option.bind_eq_some_iff.mp h
    cases h
    exact rules?_named (List.forall_mem_cons.mp hxs).2 hrules

theorem ofEntity?_named {xs : List Lexeme} {d : Declaration} (h : ofEntity? xs = some d) : d.Named := by
  revert h
  fun_cases ofEntity? xs <;> intro h
  case case3 =>
    obtain ⟨_, -, h⟩ := Option.bind_eq_some_iff.mp h
    obtain ⟨-, h⟩ := guard_bind_eq_some.mp h
    cases h
    trivial
  case case4 =>
    obtain ⟨_, -, h⟩ := Option.bind_eq_some_iff.mp h
    split at h
    · cases h
      trivial
    · obtain ⟨-, h⟩ := guard_bind_eq_some.mp h
      cases h
      trivial
    · cases h
  all_goals
    cases h
    try trivial

theorem ofNotation?_named {xs : List Lexeme} {d : Declaration} (h : ofNotation? xs = some d) : d.Named := by
  revert h
  fun_cases ofNotation? xs <;> intro h
  case case1 =>
    obtain ⟨-, h⟩ := guard_bind_eq_some.mp h
    cases h
    trivial
  case case2 =>
    obtain ⟨_, -, h⟩ := Option.bind_eq_some_iff.mp h
    obtain ⟨-, h⟩ := guard_bind_eq_some.mp h
    cases h
    trivial
  case case3 => cases h

theorem ofElement?_named {xs : List Lexeme} {d : Declaration} (h : ofElement? xs = some d) : d.Named := by
  cases xs with
  | nil => cases h
  | cons x xs =>
    rw [ofElement?] at h
    split at h
    · cases h
      trivial
    · cases h

theorem kinds_named {xs : List Lexeme} {d : Declaration} (hxs : ∀ x ∈ xs, ∀ n ∈ x.name?, IsNameRead n) :
    ∀ k ∈ kinds, k.2 xs = some d → d.Named := by
  simp only [kinds, List.forall_mem_cons]
  exact ⟨ofEntity?_named, ofAttributes?_named hxs, ofElement?_named, ofNotation?_named, List.forall_mem_nil _⟩

end Declaration

theorem takeDeclaration?_named {s r : Text} {d : Declaration} (h : takeDeclaration? s = some (d, r)) : d.Named := by
  obtain ⟨-, h⟩ := guard_bind_eq_some.mp h
  obtain ⟨⟨word, read?⟩, hkind, h⟩ := Option.bind_eq_some_iff.mp h
  obtain ⟨⟨xs, r₁⟩, hxs, h⟩ := Option.bind_eq_some_iff.mp h
  obtain ⟨d', hd, h⟩ := Option.bind_eq_some_iff.mp h
  obtain ⟨r₂, -, h⟩ := Option.bind_eq_some_iff.mp h
  cases h
  exact Declaration.kinds_named (takeLexemes?_named hxs) _ (List.mem_of_find?_eq_some hkind) hd

end Yuml.Xml
