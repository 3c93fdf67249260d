import RQuery.Common.Outcome

/-!
# Related computations

`Related R x y` says that two computations fail in the same way or return values related by `R`. The
rules follow the structure of the computations, so that two runs over related data are compared step
by step.
-/

namespace RQuery

namespace Outcome

universe u v

variable {ε : Type u} {α β γ δ : Type v} {R : α → β → Prop} {Q : γ → δ → Prop}

/-- The computations fail with the same error or return related values. -/
inductive Related (R : α → β → Prop) : Except ε α → Except ε β → Prop
  | ok {a : α} {b : β} : R a b → Related R (.ok a) (.ok b)
  | error (e : ε) : Related R (.error e) (.error e)

@[simp] theorem related_ok {a : α} {b : β} :
    Related R (.ok a : Except ε α) (.ok b) ↔ R a b := by
  constructor
  · rintro ⟨h⟩
    exact h
  · exact .ok

/-- Outcomes related by equality are equal. -/
theorem related_eq_iff {x y : Except ε α} : Related (· = ·) x y ↔ x = y := by
  constructor
  · rintro (h | e)
    · rw [h]
    · rfl
  · rintro rfl
    cases x with
    | ok a => exact .ok rfl
    | error e => exact .error e

/-- The relation may be weakened. -/
theorem Related.imp {R' : α → β → Prop} (h : ∀ a b, R a b → R' a b) {x : Except ε α}
    {y : Except ε β} (hxy : Related R x y) : Related R' x y := by
  cases hxy with
  | ok hab => exact .ok (h _ _ hab)
  | error e => exact .error e

/-- Related outcomes stay related through related continuations. -/
theorem Related.bind {x : Except ε α} {y : Except ε β} {f : α → Except ε γ} {g : β → Except ε δ}
    (hxy : Related R x y) (hfg : ∀ a b, R a b → Related Q (f a) (g b)) :
    Related Q (x >>= f) (y >>= g) := by
  cases hxy with
  | ok hab => exact hfg _ _ hab
  | error e => exact .error e

/-- Binding the same computation. -/
theorem Related.bind_same {x : Except ε α} {f : α → Except ε γ} {g : α → Except ε δ}
    (hfg : ∀ a, Related Q (f a) (g a)) : Related Q (x >>= f) (x >>= g) :=
  (related_eq_iff.mpr rfl).bind fun a _ h => h ▸ hfg a

/-- A traversal of related lists by related functions has related outcomes. -/
theorem Related.mapM {f : α → Except ε γ} {g : β → Except ε δ} {xs : List α} {ys : List β}
    (h : List.Forall₂ R xs ys) (hfg : ∀ a b, R a b → Related Q (f a) (g b)) :
    Related (List.Forall₂ Q) (xs.mapM f) (ys.mapM g) := by
  induction h with
  | nil => exact .ok .nil
  | cons hab _ ih =>
    rw [List.mapM_cons, List.mapM_cons]
    refine (hfg _ _ hab).bind fun c d hcd => ih.bind fun cs ds hcs => ?_
    exact .ok (.cons hcd hcs)

/-- The same list, traversed by functions that are related on its elements. -/
theorem Related.mapM_same {f : α → Except ε γ} {g : α → Except ε δ} {xs : List α}
    (hfg : ∀ a ∈ xs, Related Q (f a) (g a)) : Related (List.Forall₂ Q) (xs.mapM f) (xs.mapM g) := by
  refine Related.mapM (R := fun a b => a = b ∧ a ∈ xs) ?_ ?_
  · rw [List.forall₂_same]
    exact fun a ha => ⟨rfl, ha⟩
  · rintro a _ ⟨rfl, ha⟩
    exact hfg a ha

/-- Traversals whose steps agree on related elements return the same list. -/
theorem Related.mapM_eq {f : α → Except ε γ} {g : β → Except ε γ} {xs : List α} {ys : List β}
    (h : List.Forall₂ R xs ys) (hfg : ∀ a b, R a b → f a = g b) : xs.mapM f = ys.mapM g := by
  induction h with
  | nil => rfl
  | cons hab _ ih => rw [List.mapM_cons, List.mapM_cons, hfg _ _ hab, ih]

/-! ## Errors that may differ -/

/-- Both computations fail or they return related values. -/
inductive Matched (R : α → β → Prop) : Except ε α → Except ε β → Prop
  | ok {a : α} {b : β} : R a b → Matched R (.ok a) (.ok b)
  | error (e e' : ε) : Matched R (.error e) (.error e')

/-- Matched outcomes stay matched through matched continuations. -/
theorem Matched.bind {x : Except ε α} {y : Except ε β} {f : α → Except ε γ} {g : β → Except ε δ}
    (hxy : Matched R x y) (hfg : ∀ a b, R a b → Matched Q (f a) (g b)) :
    Matched Q (x >>= f) (y >>= g) := by
  cases hxy with
  | ok hab => exact hfg _ _ hab
  | error e e' => exact .error e e'

end Outcome

end RQuery
