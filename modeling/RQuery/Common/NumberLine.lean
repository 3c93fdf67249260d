import RQuery.Common.Outcome
import Mathlib.Data.Option.NAry
import Mathlib.Data.List.Perm.Basic
import Mathlib.Order.Compare

/-!
# Number lines with incomparable values

A comparison of the kind floats have: it maps values to the numbers of a linear order, and is
undefined where a value has none. An element of a list is unbeaten when no other one compares to it
as better; among numbers alone, or among values without a number alone, unbeaten elements are equal
(`Unbeaten.unique`) and the unbeaten of the unbeaten of chunks is unbeaten (`Unbeaten.flatten`).
-/

namespace RQuery

/-- A comparison that maps values to the numbers of a linear order, and is undefined where there is
none. -/
structure NumberLine {β : Type} (D : β → Prop) (cmp : β → β → Option Ordering) where
  Number : Type
  [ord : Ord Number]
  [transOrd : Std.TransOrd Number]
  [lawfulEqOrd : Std.LawfulEqOrd Number]
  number : β → Option Number
  cmp_eq : ∀ {a b}, D a → D b → cmp a b = Option.map₂ compare (number a) (number b)

attribute [instance] NumberLine.ord NumberLine.transOrd NumberLine.lawfulEqOrd

namespace NumberLine

variable {β : Type} {D : β → Prop} {cmp : β → β → Option Ordering} {a b c : β} {o : Ordering}

/-- A value compared with itself is equal to it, or off the line. -/
theorem cmp_self (L : NumberLine D cmp) (ha : D a) :
    cmp a a = none ∧ L.number a = none ∨ cmp a a = some .eq ∧ (L.number a).isSome := by
  rw [L.cmp_eq ha ha]
  cases L.number a with
  | none => exact .inl ⟨rfl, rfl⟩
  | some x => exact .inr ⟨congrArg some Std.ReflCmp.compare_self, rfl⟩

/-- Values that compare at all are both on the line. -/
theorem isSome_of_cmp (L : NumberLine D cmp) (ha : D a) (hb : D b) (h : cmp a b = some o) :
    (L.number a).isSome ∧ (L.number b).isSome := by
  rw [L.cmp_eq ha hb, Option.map₂_eq_some_iff] at h
  obtain ⟨x, y, hx, hy, -⟩ := h
  rw [hx, hy]
  exact ⟨rfl, rfl⟩

/-- A strict comparison is transitive. -/
theorem cmp_trans (L : NumberLine D cmp) (ha : D a) (hb : D b) (hc : D c) (ho : o ≠ .eq)
    (hab : cmp a b = some o) (hbc : cmp b c = some o) : cmp a c = some o := by
  rw [L.cmp_eq ha hb, Option.map₂_eq_some_iff] at hab
  rw [L.cmp_eq hb hc, Option.map₂_eq_some_iff] at hbc
  obtain ⟨x, y, hx, hy, hxy⟩ := hab
  obtain ⟨y', z, hy', hz, hyz⟩ := hbc
  obtain rfl : y = y' := Option.some.inj (hy.symm.trans hy')
  rw [L.cmp_eq ha hc, hx, hz]
  refine congrArg some ?_
  cases o with
  | eq => exact absurd rfl ho
  | lt => exact Std.TransCmp.lt_trans hxy hyz
  | gt => exact Std.TransCmp.gt_trans hxy hyz

/-- Among numbers, not being better is transitive. -/
theorem not_cmp_trans (L : NumberLine D cmp) (ha : D a) (hb : D b) (hc : D c) (ho : o ≠ .eq)
    (hnum : (L.number b).isSome) (hab : cmp a b ≠ some o) (hbc : cmp b c ≠ some o) :
    cmp a c ≠ some o := by
  rw [L.cmp_eq ha hb] at hab
  rw [L.cmp_eq hb hc] at hbc
  rw [L.cmp_eq ha hc]
  obtain ⟨y, hy⟩ := Option.isSome_iff_exists.mp hnum
  cases hx : L.number a with
  | none => simp
  | some x =>
    cases hz : L.number c with
    | none => simp
    | some z =>
      simp only [hx, hy, hz, Option.map₂_some_some, ne_eq, Option.some.injEq] at hab hbc ⊢
      cases o with
      | eq => exact absurd rfl ho
      | lt =>
        rw [← Ordering.isGE_iff_ne_lt] at hab hbc ⊢
        exact Std.TransCmp.isGE_trans hab hbc
      | gt =>
        rw [← Ordering.isLE_iff_ne_gt] at hab hbc ⊢
        exact Std.TransCmp.isLE_trans hab hbc

/-- Numbers neither of which is better are equal. -/
theorem cmp_eq_of_not (L : NumberLine D cmp) (ha : D a) (hb : D b) (ho : o ≠ .eq)
    (hnum : (L.number a).isSome) (hnum' : (L.number b).isSome) (hab : cmp a b ≠ some o)
    (hba : cmp b a ≠ some o) : cmp a b = some .eq := by
  obtain ⟨x, hx⟩ := Option.isSome_iff_exists.mp hnum
  obtain ⟨y, hy⟩ := Option.isSome_iff_exists.mp hnum'
  rw [L.cmp_eq ha hb, hx, hy] at hab ⊢
  rw [L.cmp_eq hb ha, hx, hy] at hba
  simp only [Option.map₂_some_some, ne_eq, Option.some.injEq] at hab hba ⊢
  rw [Std.OrientedOrd.eq_swap (a := y) (b := x)] at hba
  cases hxy : compare x y with
  | eq => rfl
  | lt => cases o <;> simp_all
  | gt => cases o <;> simp_all

/-- The values all have a number, or none has. -/
def Uniform (L : NumberLine D cmp) (xs : List β) : Prop :=
  (∀ x ∈ xs, (L.number x).isSome) ∨ ∀ x ∈ xs, L.number x = none

/-- No element of the list is better than this one. -/
structure Unbeaten (cmp : β → β → Option Ordering) (o : Ordering) (xs : List β) (x : β) : Prop where
  mem : x ∈ xs
  not_better : ∀ y ∈ xs, cmp y x ≠ some o

variable {xs : List β} {x y : β}

/-- A value alone is unbeaten. -/
theorem unbeaten_singleton (L : NumberLine D cmp) (hx : D x) (ho : o ≠ .eq) :
    Unbeaten cmp o [x] x := by
  refine ⟨List.mem_singleton_self x, fun y hy => ?_⟩
  rw [List.mem_singleton.mp hy]
  rcases L.cmp_self hx with ⟨h, -⟩ | ⟨h, -⟩ <;> rw [h]
  · simp
  · simpa using ho.symm

/-- A better value replaces an unbeaten one. -/
theorem Unbeaten.replace (L : NumberLine D cmp) (hxs : ∀ z ∈ xs, D z) (hy : D y) (ho : o ≠ .eq)
    (h : Unbeaten cmp o xs x) (hyx : cmp y x = some o) : Unbeaten cmp o (xs ++ [y]) y := by
  refine ⟨by simp, fun z hz => ?_⟩
  rcases List.mem_append.mp hz with hz | hz
  · exact fun hzy => h.not_better z hz
      (L.cmp_trans (hxs z hz) hy (hxs x h.mem) ho hzy hyx)
  · exact (L.unbeaten_singleton hy ho).not_better z hz

/-- A value that is not better leaves an unbeaten one. -/
theorem Unbeaten.keep (h : Unbeaten cmp o xs x) (hyx : cmp y x ≠ some o) :
    Unbeaten cmp o (xs ++ [y]) x := by
  refine ⟨List.mem_append_left _ h.mem, fun z hz => ?_⟩
  rcases List.mem_append.mp hz with hz | hz
  · exact h.not_better z hz
  · rwa [List.mem_singleton.mp hz]

/-- Being unbeaten does not depend on the order of the others. -/
theorem Unbeaten.perm {ys : List β} (h : Unbeaten cmp o xs x) (hp : xs.Perm ys) :
    Unbeaten cmp o ys x :=
  ⟨hp.mem_iff.mp h.mem, fun y hy => h.not_better y (hp.mem_iff.mpr hy)⟩

/-- Two unbeaten elements of a uniform list are equal numbers, or have no number. -/
theorem Unbeaten.unique (L : NumberLine D cmp) (hxs : ∀ z ∈ xs, D z) (ho : o ≠ .eq)
    (hu : L.Uniform xs) (hx : Unbeaten cmp o xs x) (hy : Unbeaten cmp o xs y) :
    cmp x y = some .eq ∨ L.number x = none ∧ L.number y = none := by
  rcases hu with hu | hu
  · exact .inl (L.cmp_eq_of_not (hxs x hx.mem) (hxs y hy.mem) ho (hu x hx.mem) (hu y hy.mem)
      (hy.not_better x hx.mem) (hx.not_better y hy.mem))
  · exact .inr ⟨hu x hx.mem, hu y hy.mem⟩

/-- The unbeaten among the unbeaten elements of uniform chunks is unbeaten. -/
theorem Unbeaten.flatten (L : NumberLine D cmp) {chunks : List (List β)} {rs : List β}
    (hD : ∀ z ∈ chunks.flatten, D z) (ho : o ≠ .eq) (hu : L.Uniform chunks.flatten)
    (hrs : List.Forall₂ (Unbeaten cmp o) chunks rs) (hx : Unbeaten cmp o rs x) :
    Unbeaten cmp o chunks.flatten x := by
  have hmem : ∀ r ∈ rs, ∃ xs ∈ chunks, Unbeaten cmp o xs r := fun r hr =>
    Outcome.forall₂_mem_right hrs hr
  have hchunk : ∀ xs ∈ chunks, ∃ r ∈ rs, Unbeaten cmp o xs r := fun xs hxs =>
    Outcome.forall₂_mem_left hrs hxs
  have hflat : ∀ r ∈ rs, r ∈ chunks.flatten := by
    intro r hr
    obtain ⟨xs, hxs, h⟩ := hmem r hr
    exact List.mem_flatten.mpr ⟨xs, hxs, h.mem⟩
  refine ⟨hflat x hx.mem, fun z hz => ?_⟩
  obtain ⟨xs, hxs, hzxs⟩ := List.mem_flatten.mp hz
  obtain ⟨r, hr, hrxs⟩ := hchunk xs hxs
  rcases hu with hu | hu
  · exact L.not_cmp_trans (hD z hz) (hD r (hflat r hr)) (hD x (hflat x hx.mem)) ho
      (hu r (hflat r hr)) (hrxs.not_better z hzxs) (hx.not_better r hr)
  · rw [L.cmp_eq (hD z hz) (hD x (hflat x hx.mem)), hu z hz]
    simp

end NumberLine

end RQuery

