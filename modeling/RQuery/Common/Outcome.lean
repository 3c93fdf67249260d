import Mathlib.Data.List.Forall2
import Mathlib.Data.List.Basic

/-!
# Fallible computations

Inversion rules for computations in `Except ε`, for an arbitrary error type `ε`: what a successful
bind, traversal or left fold consists of. A traversal succeeds exactly when every step does
(`mapM_eq_ok_iff`), and its result is pointwise the steps' results. The engine's operators are
written in this monad and never unfolded past these rules.
-/

namespace Outcome

universe u v

variable {ε : Type u} {α β : Type v}

/-- The computation returns a value. -/
def Succeeds (x : Except ε α) : Prop :=
  ∃ a, x = .ok a

instance (x : Except ε α) : Decidable (Succeeds x) :=
  match x with
  | .ok a => isTrue ⟨a, rfl⟩
  | .error _ => isFalse (by rintro ⟨a, h⟩; cases h)

/-- A value is a success. -/
@[simp] theorem succeeds_ok (a : α) : Succeeds (.ok a : Except ε α) := ⟨a, rfl⟩

/-- An error is none. -/
@[simp] theorem not_succeeds_error (e : ε) : ¬ Succeeds (.error e : Except ε α) := by
  rintro ⟨a, h⟩
  cases h

/-- A bind returns a value exactly when both of its parts do. -/
theorem bind_eq_ok_iff {x : Except ε α} {f : α → Except ε β} {b : β} :
    x >>= f = .ok b ↔ ∃ a, x = .ok a ∧ f a = .ok b := by
  cases x with
  | error e => simp [bind, Except.bind]
  | ok a => simp [bind, Except.bind]

@[simp] theorem ok_bind (a : α) (f : α → Except ε β) : (Except.ok a >>= f) = f a := rfl

@[simp] theorem error_bind (e : ε) (f : α → Except ε β) :
    (Except.error e >>= f) = Except.error e := rfl

@[simp] theorem pure_eq_ok (a : α) : (pure a : Except ε α) = .ok a := rfl

/-- A pure function behind a computation. -/
theorem bind_pure_eq_ok_iff {x : Except ε α} {f : α → β} {b : β} :
    (do return f (← x)) = Except.ok b ↔ ∃ a, x = .ok a ∧ b = f a := by
  rw [bind_eq_ok_iff]
  simp only [pure_eq_ok, Except.ok.injEq, eq_comm]

/-- Returning what was computed changes nothing. -/
@[simp] theorem bind_ok (x : Except ε α) : (x >>= fun a => Except.ok a) = x := by
  cases x <;> rfl

/-- A value is mapped, an error is not. -/
theorem map_eq_ok_iff {x : Except ε α} {f : α → β} {b : β} :
    f <$> x = .ok b ↔ ∃ a, x = .ok a ∧ f a = b := by
  cases x with
  | error e => simp [Functor.map, Except.map]
  | ok a => simp [Functor.map, Except.map]

@[simp] theorem map_ok (f : α → β) (a : α) : f <$> (Except.ok a : Except ε α) = .ok (f a) := rfl

@[simp] theorem map_error (f : α → β) (e : ε) :
    f <$> (Except.error e : Except ε α) = .error e := rfl

/-- A sequence succeeds exactly if its first part does and the rest succeeds on the value. -/
theorem succeeds_bind_iff {x : Except ε α} {f : α → Except ε β} :
    Succeeds (x >>= f) ↔ ∃ a, x = .ok a ∧ Succeeds (f a) := by
  cases x with
  | error e => simp
  | ok a => simp

/-- Where a sequence succeeds, its first part does. -/
theorem Succeeds.of_bind {x : Except ε α} {f : α → Except ε β} (h : Succeeds (x >>= f)) :
    Succeeds x := by
  obtain ⟨a, ha, -⟩ := succeeds_bind_iff.mp h
  exact ⟨a, ha⟩

/-- A pure function behind a computation does not fail. -/
@[simp] theorem succeeds_map_iff {x : Except ε α} {f : α → β} :
    Succeeds (f <$> x) ↔ Succeeds x := by
  cases x with
  | error e => simp
  | ok a => simp

/-! ## Related lists -/

/-- Every element on the left is related to one on the right. -/
theorem forall₂_mem_left {γ : Type*} {δ : Type*} {R : γ → δ → Prop} {xs : List γ} {ys : List δ}
    (h : List.Forall₂ R xs ys) {x : γ} (hx : x ∈ xs) : ∃ y ∈ ys, R x y := by
  induction h with
  | nil => simp at hx
  | @cons a b xs ys hab _ ih =>
    rcases List.mem_cons.mp hx with rfl | hx
    · exact ⟨b, List.mem_cons_self, hab⟩
    · obtain ⟨y, hy, hxy⟩ := ih hx
      exact ⟨y, List.mem_cons_of_mem b hy, hxy⟩

/-- Every element on the right is related to one on the left. -/
theorem forall₂_mem_right {γ : Type*} {δ : Type*} {R : γ → δ → Prop} {xs : List γ} {ys : List δ}
    (h : List.Forall₂ R xs ys) {y : δ} (hy : y ∈ ys) : ∃ x ∈ xs, R x y :=
  forall₂_mem_left h.flip hy

/-- Elements that are related to something make up a list that is related to a list. -/
theorem exists_forall₂ {γ : Type*} {δ : Type*} {R : γ → δ → Prop} {xs : List γ}
    (h : ∀ x ∈ xs, ∃ y, R x y) : ∃ ys, List.Forall₂ R xs ys := by
  induction xs with
  | nil => exact ⟨[], .nil⟩
  | cons x xs ih =>
    obtain ⟨y, hy⟩ := h x List.mem_cons_self
    obtain ⟨ys, hys⟩ := ih fun x' hx' => h x' (List.mem_cons_of_mem x hx')
    exact ⟨y :: ys, .cons hy hys⟩

/-- Related lists have equal images under functions that agree on related elements. -/
theorem forall₂_map_eq {γ : Type*} {δ : Type*} {ζ : Type*} {R : γ → δ → Prop} {f : γ → ζ}
    {g : δ → ζ} {xs : List γ} {ys : List δ} (h : List.Forall₂ R xs ys)
    (hfg : ∀ x y, R x y → f x = g y) : xs.map f = ys.map g := by
  induction h with
  | nil => rfl
  | cons hab _ ih => rw [List.map_cons, List.map_cons, hfg _ _ hab, ih]

/-- A list of witnesses, one for each element of a list. -/
theorem exists_list {γ : Type*} {δ : Type*} {P : ℕ → γ → δ → Prop} (xs : List γ)
    (h : ∀ (i : ℕ) x, xs[i]? = some x → ∃ y, P i x y) :
    ∃ ys : List δ, ys.length = xs.length ∧
      ∀ (i : ℕ) x, xs[i]? = some x → ∃ y, ys[i]? = some y ∧ P i x y := by
  induction xs generalizing P with
  | nil => exact ⟨[], rfl, by simp⟩
  | cons x xs ih =>
    obtain ⟨y, hy⟩ := h 0 x rfl
    obtain ⟨ys, hlen, hys⟩ := ih (P := fun i => P (i + 1)) fun i z hz => h (i + 1) z (by simpa using hz)
    refine ⟨y :: ys, by simp [hlen], fun i z hz => ?_⟩
    cases i with
    | zero =>
      obtain rfl : x = z := by simpa using hz
      exact ⟨y, rfl, hy⟩
    | succ i => simpa using hys i z (by simpa using hz)

/-! ## Traversals -/

/-- A traversal returns exactly the pointwise results. -/
theorem mapM_eq_ok_iff {f : α → Except ε β} {xs : List α} {ys : List β} :
    xs.mapM f = .ok ys ↔ List.Forall₂ (fun x y => f x = .ok y) xs ys := by
  induction xs generalizing ys with
  | nil => cases ys <;> simp
  | cons x xs ih =>
    rw [List.mapM_cons, bind_eq_ok_iff]
    cases ys with
    | nil => simp [bind_eq_ok_iff]
    | cons y ys => simp [bind_eq_ok_iff, ih]

/-- A traversal of a list is one of its head and its tail. -/
theorem mapM_cons_eq_ok_iff {f : α → Except ε β} {x : α} {xs : List α} {ys : List β} :
    (x :: xs).mapM f = .ok ys ↔ ∃ y ys', f x = .ok y ∧ xs.mapM f = .ok ys' ∧ ys = y :: ys' := by
  rw [List.mapM_cons, bind_eq_ok_iff]
  constructor
  · rintro ⟨y, hy, h⟩
    obtain ⟨ys', hys, h⟩ := bind_eq_ok_iff.mp h
    exact ⟨y, ys', hy, hys, by simpa [eq_comm] using h⟩
  · rintro ⟨y, ys', hy, hys, rfl⟩
    exact ⟨y, hy, by simp [hys]⟩

/-- A traversal of one element is the function on it. -/
theorem mapM_singleton_eq_ok_iff {f : α → Except ε β} {x : α} {ys : List β} :
    [x].mapM f = .ok ys ↔ ∃ y, f x = .ok y ∧ ys = [y] := by
  rw [mapM_cons_eq_ok_iff]
  constructor
  · rintro ⟨y, _, hy, hnil, rfl⟩
    cases hnil
    exact ⟨y, hy, rfl⟩
  · rintro ⟨y, hy, rfl⟩
    exact ⟨y, [], hy, rfl, rfl⟩

/-- A traversal returns as many values as there are elements. -/
theorem mapM_length {f : α → Except ε β} {xs : List α} {ys : List β}
    (h : xs.mapM f = .ok ys) : ys.length = xs.length :=
  (mapM_eq_ok_iff.mp h).length_eq.symm

/-- The traversal returns a value exactly when every step does. -/
theorem mapM_succeeds_iff {f : α → Except ε β} {xs : List α} :
    Succeeds (xs.mapM f) ↔ ∀ x ∈ xs, Succeeds (f x) := by
  induction xs with
  | nil => simp
  | cons x xs ih =>
    rw [List.mapM_cons, succeeds_bind_iff]
    simp only [List.forall_mem_cons, ← ih]
    constructor
    · rintro ⟨y, hy, h⟩
      obtain ⟨ys, hys, -⟩ := succeeds_bind_iff.mp h
      exact ⟨⟨y, hy⟩, ⟨ys, hys⟩⟩
    · rintro ⟨⟨y, hy⟩, ⟨ys, hys⟩⟩
      exact ⟨y, hy, ⟨y :: ys, by simp [hys]⟩⟩

/-- A traversal whose steps all return is a map. -/
theorem mapM_eq_ok_map {f : α → Except ε β} {g : α → β} {xs : List α}
    (h : ∀ x ∈ xs, f x = .ok (g x)) : xs.mapM f = .ok (xs.map g) := by
  rw [mapM_eq_ok_iff, List.forall₂_map_right_iff, List.forall₂_same]
  exact h

/-- A traversal along related lists, whose steps return a function of the related element. -/
theorem mapM_eq_ok_map_of_forall₂ {γ : Type v} {R : α → γ → Prop} {f : α → Except ε β} {g : γ → β}
    {xs : List α} {zs : List γ} (h : List.Forall₂ R xs zs)
    (hf : ∀ x z, x ∈ xs → z ∈ zs → R x z → f x = .ok (g z)) : xs.mapM f = .ok (zs.map g) := by
  induction h with
  | nil => rfl
  | @cons x z xs zs hxz hrest ih =>
    have hx : f x = .ok (g z) := hf x z List.mem_cons_self List.mem_cons_self hxz
    have hxs := ih fun x' z' hx' hz' =>
      hf x' z' (List.mem_cons_of_mem x hx') (List.mem_cons_of_mem z hz')
    simp [List.mapM_cons, hx, hxs]

/-- Functions that are the same on the elements have the same traversal. -/
theorem mapM_congr {f g : α → Except ε β} {xs : List α} (h : ∀ x ∈ xs, f x = g x) :
    xs.mapM f = xs.mapM g := by
  induction xs with
  | nil => rfl
  | cons x xs ih =>
    rw [List.mapM_cons, List.mapM_cons, h x List.mem_cons_self,
      ih fun y hy => h y (List.mem_cons_of_mem x hy)]

/-- Traversals along related lists, whose steps agree on related elements. -/
theorem mapM_congr_forall₂ {γ : Type v} {R : α → γ → Prop} {f : α → Except ε β}
    {g : γ → Except ε β} {xs : List α} {zs : List γ} (h : List.Forall₂ R xs zs)
    (hfg : ∀ x z, R x z → f x = g z) : xs.mapM f = zs.mapM g := by
  induction h with
  | nil => rfl
  | cons hxz _ ih => rw [List.mapM_cons, List.mapM_cons, hfg _ _ hxz, ih]

/-- A function of the steps' results can be applied to the result of the traversal. -/
theorem mapM_bind_pure {γ : Type v} {f : α → Except ε β} {g : β → γ} (xs : List α) :
    xs.mapM (fun x => do return g (← f x)) = do return (← xs.mapM f).map g := by
  induction xs with
  | nil => rfl
  | cons x xs ih =>
    rw [List.mapM_cons, List.mapM_cons, ih]
    cases f x with
    | error e => rfl
    | ok y => cases xs.mapM f <;> rfl

/-- A traversal of two lists is one of each. -/
theorem mapM_append_eq_ok_iff {f : α → Except ε β} {xs xs' : List α} {ys : List β} :
    (xs ++ xs').mapM f = .ok ys ↔
      ∃ zs zs', xs.mapM f = .ok zs ∧ xs'.mapM f = .ok zs' ∧ ys = zs ++ zs' := by
  rw [List.mapM_append, bind_eq_ok_iff]
  constructor
  · rintro ⟨zs, hzs, h⟩
    obtain ⟨zs', hzs', rfl⟩ := bind_pure_eq_ok_iff.mp h
    exact ⟨zs, zs', hzs, hzs', rfl⟩
  · rintro ⟨zs, zs', hzs, hzs', rfl⟩
    exact ⟨zs, hzs, bind_pure_eq_ok_iff.mpr ⟨zs', hzs', rfl⟩⟩

/-- Where the values are two lists, the elements are, too. -/
theorem mapM_eq_ok_append {f : α → Except ε β} {xs : List α} {ys zs : List β}
    (h : xs.mapM f = .ok (ys ++ zs)) :
    ∃ us vs, xs = us ++ vs ∧ us.mapM f = .ok ys ∧ vs.mapM f = .ok zs := by
  rw [mapM_eq_ok_iff] at h
  refine ⟨xs.take ys.length, xs.drop ys.length, (List.take_append_drop ..).symm, ?_, ?_⟩
  · exact mapM_eq_ok_iff.mpr (List.forall₂_take_append xs ys zs h)
  · exact mapM_eq_ok_iff.mpr (List.forall₂_drop_append xs ys zs h)

/-- A traversal of a permuted list permutes the results. -/
theorem mapM_perm {f : α → Except ε β} {xs xs' : List α} (h : xs.Perm xs') {ys : List β}
    (hys : xs.mapM f = .ok ys) : ∃ ys', xs'.mapM f = .ok ys' ∧ ys.Perm ys' := by
  induction h generalizing ys with
  | nil => exact ⟨ys, hys, .refl ys⟩
  | cons x _ ih =>
    obtain ⟨y, zs, hy, hzs, rfl⟩ := mapM_cons_eq_ok_iff.mp hys
    obtain ⟨zs', hzs', hperm⟩ := ih hzs
    exact ⟨y :: zs', mapM_cons_eq_ok_iff.mpr ⟨y, zs', hy, hzs', rfl⟩, hperm.cons y⟩
  | swap x x' xs =>
    obtain ⟨y, zs, hy, hzs, rfl⟩ := mapM_cons_eq_ok_iff.mp hys
    obtain ⟨y', zs, hy', hrest, rfl⟩ := mapM_cons_eq_ok_iff.mp hzs
    refine ⟨y' :: y :: zs, ?_, .swap y' y zs⟩
    simp [List.mapM_cons, hy, hy', hrest]
  | trans _ _ ih₁ ih₂ =>
    obtain ⟨zs, hzs, h₁⟩ := ih₁ hys
    obtain ⟨ws, hws, h₂⟩ := ih₂ hzs
    exact ⟨ws, hws, h₁.trans h₂⟩

/-- The results that satisfy `p` are those of a part of the list. -/
theorem mapM_filter {f : α → Except ε β} {xs : List α} {ys : List β} (h : xs.mapM f = .ok ys)
    (p : β → Bool) : ∃ zs : List α, zs.Sublist xs ∧ zs.mapM f = .ok (ys.filter p) := by
  induction xs generalizing ys with
  | nil =>
    obtain rfl : [] = ys := by simpa using h
    exact ⟨[], .slnil, rfl⟩
  | cons x xs ih =>
    obtain ⟨y, ys, hy, hys, rfl⟩ := mapM_cons_eq_ok_iff.mp h
    obtain ⟨zs, hsub, hzs⟩ := ih hys
    by_cases hp : p y
    · refine ⟨x :: zs, hsub.cons_cons x, ?_⟩
      rw [List.filter_cons_of_pos hp]
      exact mapM_cons_eq_ok_iff.mpr ⟨y, _, hy, hzs, rfl⟩
    · exact ⟨zs, hsub.cons x, by rwa [List.filter_cons_of_neg hp]⟩

/-- A traversal that can be undone keeps the list. -/
theorem map_of_mapM {f : α → Except ε β} {g : β → α} {xs : List α} {ys : List β}
    (h : xs.mapM f = .ok ys) (hg : ∀ x ∈ xs, ∀ y, f x = .ok y → g y = x) : ys.map g = xs := by
  induction xs generalizing ys with
  | nil =>
    obtain rfl : [] = ys := by simpa using h
    rfl
  | cons x xs ih =>
    obtain ⟨y, ys, hy, hys, rfl⟩ := mapM_cons_eq_ok_iff.mp h
    rw [List.map_cons, hg x List.mem_cons_self y hy,
      ih hys fun x' hx' => hg x' (List.mem_cons_of_mem x hx')]

/-- A traversal followed by one that undoes it, up to a relation. -/
theorem mapM_roundTrip {γ : Type v} {f : α → Except ε β} {g : β → Except ε γ} {R : α → γ → Prop}
    {xs : List α} {ys : List β} (h : xs.mapM f = .ok ys)
    (hg : ∀ x ∈ xs, ∀ y, f x = .ok y → ∃ z, g y = .ok z ∧ R x z) :
    ∃ zs, ys.mapM g = .ok zs ∧ List.Forall₂ R xs zs := by
  induction xs generalizing ys with
  | nil =>
    obtain rfl : [] = ys := by simpa using h
    exact ⟨[], rfl, .nil⟩
  | cons x xs ih =>
    obtain ⟨y, ys, hy, hys, rfl⟩ := mapM_cons_eq_ok_iff.mp h
    obtain ⟨z, hz, hxz⟩ := hg x List.mem_cons_self y hy
    obtain ⟨zs, hzs, hrest⟩ := ih hys fun x' hx' => hg x' (List.mem_cons_of_mem x hx')
    exact ⟨z :: zs, mapM_cons_eq_ok_iff.mpr ⟨z, zs, hz, hzs, rfl⟩, .cons hxz hrest⟩

/-- Lists of successes with the same values are the same. -/
theorem map_ok_injective {xs ys : List α} (h : (xs.map .ok : List (Except ε α)) = ys.map .ok) :
    xs = ys :=
  List.map_injective_iff.mpr (fun _ _ => Except.ok.inj) h

/-- A list of results that are all values. -/
theorem mapM_id_map_ok (xs : List α) : (xs.map Except.ok).mapM id = (.ok xs : Except ε _) := by
  induction xs with
  | nil => rfl
  | cons x xs ih => rw [List.map_cons, List.mapM_cons, ih]; rfl

/-- A list of outcomes is collected when all of them are values. -/
theorem mapM_id_eq_ok_iff {xs : List (Except ε α)} {ys : List α} :
    xs.mapM id = .ok ys ↔ xs = ys.map .ok := by
  refine ⟨fun h => ?_, fun h => h ▸ mapM_id_map_ok ys⟩
  induction xs generalizing ys with
  | nil =>
    obtain rfl : [] = ys := by simpa using h
    rfl
  | cons x xs ih =>
    cases x with
    | error e => cases h
    | ok a =>
      rw [List.mapM_cons] at h
      obtain ⟨ys, hys, rfl⟩ := bind_pure_eq_ok_iff.mp h
      rw [List.map_cons, ih hys]

/-- A traversal returns what its steps return. -/
theorem eq_map_of_mapM {f : α → Except ε β} {g : α → β} {xs : List α} {ys : List β}
    (h : xs.mapM f = .ok ys) (hfg : ∀ x y, f x = .ok y → y = g x) : ys = xs.map g := by
  have hall := forall₂_map_eq (f := g) (g := id) (mapM_eq_ok_iff.mp h) fun x y hy => (hfg x y hy).symm
  rw [hall, List.map_id]

/-- Traversing chunks one by one traverses their concatenation. -/
theorem mapM_flatten {f : α → Except ε β} {xss : List (List α)} {yss : List (List β)}
    (h : List.Forall₂ (fun xs ys => xs.mapM f = .ok ys) xss yss) :
    xss.flatten.mapM f = .ok yss.flatten := by
  induction h with
  | nil => rfl
  | cons hxs _ ih => exact mapM_append_eq_ok_iff.mpr ⟨_, _, hxs, ih, rfl⟩

/-- A flattened list is traversed list by list. -/
theorem mapM_flatten_eq_ok_iff {f : α → Except ε β} {xss : List (List α)} {ys : List β} :
    xss.flatten.mapM f = .ok ys ↔
      ∃ yss, xss.mapM (fun xs => xs.mapM f) = .ok yss ∧ ys = yss.flatten := by
  constructor
  · intro h
    induction xss generalizing ys with
    | nil =>
      obtain rfl : [] = ys := by simpa using h
      exact ⟨[], rfl, rfl⟩
    | cons xs xss ih =>
      obtain ⟨zs, zs', hzs, hzs', rfl⟩ := mapM_append_eq_ok_iff.mp h
      obtain ⟨yss, hyss, rfl⟩ := ih hzs'
      exact ⟨zs :: yss, mapM_cons_eq_ok_iff.mpr ⟨zs, yss, hzs, hyss, rfl⟩, rfl⟩
  · rintro ⟨yss, hyss, rfl⟩
    exact mapM_flatten (mapM_eq_ok_iff.mp hyss)

/-- A traversal whose steps have two parts is two traversals. -/
theorem mapM_bind_eq_ok_iff {γ : Type v} {f : α → Except ε β} {g : β → Except ε γ} {xs : List α}
    {zs : List γ} :
    xs.mapM (fun x => f x >>= g) = .ok zs ↔ ∃ ys, xs.mapM f = .ok ys ∧ ys.mapM g = .ok zs := by
  induction xs generalizing zs with
  | nil => simp
  | cons x xs ih =>
    simp only [mapM_cons_eq_ok_iff, bind_eq_ok_iff, ih]
    constructor
    · rintro ⟨z, zs, ⟨y, hy, hz⟩, ⟨ys, hys, hzs⟩, rfl⟩
      exact ⟨y :: ys, ⟨y, ys, hy, hys, rfl⟩, mapM_cons_eq_ok_iff.mpr ⟨z, zs, hz, hzs, rfl⟩⟩
    · rintro ⟨_, ⟨y, ys, hy, hys, rfl⟩, h⟩
      obtain ⟨z, zs, hz, hzs, rfl⟩ := mapM_cons_eq_ok_iff.mp h
      exact ⟨z, zs, ⟨y, hy, hz⟩, ⟨ys, hys, hzs⟩, rfl⟩

/-- Two traversals in a row are one of the composed function. -/
theorem mapM_comp {γ : Type v} {f : α → Except ε β} {g : β → Except ε γ} {xs : List α}
    {ys : List β} {zs : List γ} (hf : xs.mapM f = .ok ys) (hg : ys.mapM g = .ok zs) :
    xs.mapM (fun x => f x >>= g) = .ok zs := by
  induction xs generalizing ys zs with
  | nil =>
    obtain rfl : [] = ys := by simpa using hf
    simpa using hg
  | cons x xs ih =>
    obtain ⟨y, ys, hy, hys, rfl⟩ := mapM_cons_eq_ok_iff.mp hf
    obtain ⟨z, zs, hz, hzs, rfl⟩ := mapM_cons_eq_ok_iff.mp hg
    exact mapM_cons_eq_ok_iff.mpr ⟨z, zs, by rw [hy, ok_bind, hz], ih hys hzs, rfl⟩

/-- The value at a place is that of the element at the place. -/
theorem mapM_getElem? {f : α → Except ε β} {xs : List α} {ys : List β}
    (h : xs.mapM f = .ok ys) {i : ℕ} {x : α} (hx : xs[i]? = some x) :
    ∃ y, ys[i]? = some y ∧ f x = .ok y := by
  induction xs generalizing ys i with
  | nil => simp at hx
  | cons a xs ih =>
    obtain ⟨y, ys', hy, hys, rfl⟩ := mapM_cons_eq_ok_iff.mp h
    cases i with
    | zero =>
      obtain rfl : a = x := by simpa using hx
      exact ⟨y, by simp, hy⟩
    | succ i => simpa using ih hys (by simpa using hx)

/-- Every value comes from an element. -/
theorem mapM_mem {f : α → Except ε β} {xs : List α} {ys : List β}
    (h : xs.mapM f = .ok ys) {y : β} (hy : y ∈ ys) : ∃ x ∈ xs, f x = .ok y :=
  forall₂_mem_right (mapM_eq_ok_iff.mp h) hy

/-- Every element has its value. -/
theorem mapM_mem_left {f : α → Except ε β} {xs : List α} {ys : List β}
    (h : xs.mapM f = .ok ys) {x : α} (hx : x ∈ xs) : ∃ y ∈ ys, f x = .ok y :=
  forall₂_mem_left (mapM_eq_ok_iff.mp h) hx

/-! ## Left folds -/

/-- A fold whose steps never fail does not fail. -/
theorem foldlM_succeeds {f : β → α → Except ε β} {xs : List α}
    (h : ∀ x ∈ xs, ∀ b, Succeeds (f b x)) (b : β) : Succeeds (xs.foldlM f b) := by
  induction xs generalizing b with
  | nil => exact ⟨b, rfl⟩
  | cons x xs ih =>
    obtain ⟨c, hc⟩ := h x List.mem_cons_self b
    rw [List.foldlM_cons, hc]
    exact ih (fun x' hx' => h x' (List.mem_cons_of_mem x hx')) c

/-- In a fold that does not fail no step does. -/
theorem foldlM_mem {f : β → α → Except ε β} {xs : List α} {b c : β} (h : xs.foldlM f b = .ok c)
    {x : α} (hx : x ∈ xs) : ∃ b', Succeeds (f b' x) := by
  induction xs generalizing b with
  | nil => cases hx
  | cons y xs ih =>
    rw [List.foldlM_cons] at h
    obtain ⟨m, hm, h⟩ := bind_eq_ok_iff.mp h
    rcases List.mem_cons.mp hx with rfl | hx
    · exact ⟨b, m, hm⟩
    · exact ih h hx

/-- A fold over two lists goes on where the first has ended. -/
theorem foldlM_append_eq_ok_iff {f : β → α → Except ε β} {xs ys : List α} {b c : β} :
    (xs ++ ys).foldlM f b = .ok c ↔ ∃ m, xs.foldlM f b = .ok m ∧ ys.foldlM f m = .ok c := by
  rw [List.foldlM_append, bind_eq_ok_iff]

/-- A fold whose steps first compute something of the element is a traversal and a fold. -/
theorem foldlM_bind_eq_ok_iff {γ : Type v} {g : α → Except ε γ} {f : β → γ → Except ε β}
    {xs : List α} {b c : β} :
    xs.foldlM (fun b x => do f b (← g x)) b = .ok c ↔
      ∃ ys, xs.mapM g = .ok ys ∧ ys.foldlM f b = .ok c := by
  induction xs generalizing b with
  | nil => simp
  | cons x xs ih =>
    simp only [List.foldlM_cons, bind_eq_ok_iff, ih, mapM_cons_eq_ok_iff]
    constructor
    · rintro ⟨m, ⟨y, hy, hm⟩, ys, hys, hc⟩
      exact ⟨y :: ys, ⟨y, ys, hy, hys, rfl⟩, by simpa [hm] using hc⟩
    · rintro ⟨_, ⟨y, ys, hy, hys, rfl⟩, hc⟩
      rw [List.foldlM_cons, bind_eq_ok_iff] at hc
      obtain ⟨m, hm, hc⟩ := hc
      exact ⟨m, ⟨y, hy, hm⟩, ys, hys, hc⟩

/-- A fold whose accumulator wraps a value is the fold of the wrapped values. -/
theorem foldlM_map {γ : Type v} {f : β → α → Except ε β} {g : γ → α → Except ε γ} {w : γ → β}
    {xs : List α} (h : ∀ c, ∀ x ∈ xs, f (w c) x = w <$> g c x) (c : γ) :
    xs.foldlM f (w c) = w <$> xs.foldlM g c := by
  induction xs generalizing c with
  | nil => rfl
  | cons x xs ih =>
    rw [List.foldlM_cons, List.foldlM_cons, h c x List.mem_cons_self]
    cases g c x with
    | error e => rfl
    | ok d => exact ih (fun c y hy => h c y (List.mem_cons_of_mem x hy)) d

/-- An invariant of the accumulator that every step keeps holds of the result. -/
theorem foldlM_invariant {f : β → α → Except ε β} (P : β → Prop) {xs : List α} {b c : β}
    (hb : P b) (step : ∀ b x c, x ∈ xs → P b → f b x = .ok c → P c)
    (h : xs.foldlM f b = .ok c) : P c := by
  induction xs generalizing b with
  | nil =>
    obtain rfl : b = c := by simpa using h
    exact hb
  | cons x xs ih =>
    rw [List.foldlM_cons, bind_eq_ok_iff] at h
    obtain ⟨m, hm, h⟩ := h
    exact ih (step b x m List.mem_cons_self hb hm)
      (fun b y c hy => step b y c (List.mem_cons_of_mem x hy)) h

/-- A fold that collects lists beside its state puts what it has collected in front. -/
theorem foldlM_collect {σ : Type v} {f : α → σ → Except ε (List β × σ)} (xs : List α) (bs : List β)
    (s : σ) :
    xs.foldlM (fun acc x => do
        let (later, s) ← f x acc.2
        return (acc.1 ++ later, s)) (bs, s) = (do
      let (later, s) ← xs.foldlM (fun acc x => do
        let (later, s) ← f x acc.2
        return (acc.1 ++ later, s)) ([], s)
      return (bs ++ later, s)) := by
  induction xs generalizing bs s with
  | nil =>
    show Except.ok (bs, s) = Except.ok (bs ++ [], s)
    rw [List.append_nil]
  | cons x xs ih =>
    rw [List.foldlM_cons, List.foldlM_cons]
    dsimp only
    cases f x s with
    | error e => rfl
    | ok written =>
      simp only [ok_bind, pure_bind, ih (bs ++ written.1), ih ([] ++ written.1)]
      simp only [bind_assoc, pure_bind, List.nil_append, List.append_assoc]

/-! ## Errors that do not occur -/

/-- The computation does not end in an error of the kind. -/
def Avoids (kind : ε → Prop) (x : Except ε α) : Prop :=
  ∀ e, x = .error e → ¬ kind e

variable {kind : ε → Prop}

/-- A success avoids every kind of error. -/
theorem Succeeds.avoids {x : Except ε α} (h : Succeeds x) : Avoids kind x := by
  obtain ⟨a, rfl⟩ := h
  rintro e ⟨⟩

/-- An error of another kind avoids this one. -/
theorem avoids_error {e : ε} (h : ¬ kind e) : Avoids kind (.error e : Except ε α) := by
  rintro _ ⟨⟩
  exact h

/-- A sequence avoids a kind of error if both its parts do. -/
theorem Avoids.bind {x : Except ε α} {f : α → Except ε β} (hx : Avoids kind x)
    (hf : ∀ a, x = .ok a → Avoids kind (f a)) : Avoids kind (x >>= f) := by
  cases x with
  | error e =>
    rintro _ ⟨⟩
    exact hx e rfl
  | ok a => exact hf a rfl

/-- A pure function adds no error. -/
theorem Avoids.bind_pure {x : Except ε α} {f : α → β} (hx : Avoids kind x) :
    Avoids kind (do return f (← x)) :=
  hx.bind fun a _ => (succeeds_ok (f a)).avoids

/-- A traversal avoids what the function avoids on every element. -/
theorem Avoids.mapM {f : α → Except ε β} {xs : List α} (h : ∀ x ∈ xs, Avoids kind (f x)) :
    Avoids kind (xs.mapM f) := by
  induction xs with
  | nil => exact (succeeds_ok []).avoids
  | cons x xs ih =>
    rw [List.mapM_cons]
    refine (h x List.mem_cons_self).bind fun y _ => ?_
    exact (ih fun x' hx' => h x' (List.mem_cons_of_mem x hx')).bind_pure

end Outcome
