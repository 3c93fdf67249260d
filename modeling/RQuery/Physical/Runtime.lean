import RQuery.Datatypes.ScalarValue
import Mathlib.Data.List.Perm.Basic

/-!
# The Rust runtime

What the engine's behaviour depends on besides its code: whether integer overflow is checked (debug
builds) or wraps (release builds), the order in which a `HashMap` is iterated, and the digest of
`DefaultHasher`.
-/

namespace RQuery

/-- One call on a `Hasher`. -/
inductive HashWrite
  /-- `mem::discriminant(v).hash(state)`. -/
  | discriminant (d : ℕ)
  | bool (b : Bool)
  | int (bits : ℕ) (n : ℤ)
  | str (s : String)
  | bytes (b : List UInt8)
  deriving DecidableEq

/-- The platform the engine runs on. -/
class Runtime where
  overflowChecks : Bool
  /-- The iteration order of a map with the given entries, in one execution. Every `HashMap::new()`
  is seeded afresh, so that another execution may have another order: results are stated for every
  order, and two executions that may differ in it are compared under two. -/
  mapOrder {α : Type} : List α → List α
  mapOrder_perm {α : Type} (entries : List α) : (mapOrder entries).Perm entries
  /-- `DefaultHasher::finish` after the given writes. -/
  finish : List HashWrite → UInt64

namespace Runtime

variable [Runtime]

@[simp] theorem mem_mapOrder {α : Type} {entries : List α} {e : α} :
    e ∈ mapOrder entries ↔ e ∈ entries :=
  (mapOrder_perm entries).mem_iff

@[simp] theorem mapOrder_nil {α : Type} : mapOrder ([] : List α) = [] :=
  List.Perm.eq_nil (mapOrder_perm [])

/-- `i32` arithmetic whose exact result is `n`: it panics or wraps out of range. -/
def checkedInt32 (n : ℤ) : Result Int32 :=
  if overflowChecks && !(-2 ^ 31 ≤ n && n < 2 ^ 31) then
    .error .overflow
  else
    .ok (Int32.ofInt n)

/-- A checked result is the wrapped number; where overflow is checked, it is in range. -/
theorem checkedInt32_eq_ok_iff {n : ℤ} {m : Int32} :
    checkedInt32 n = .ok m ↔
      (overflowChecks = true → -2 ^ 31 ≤ n ∧ n < 2 ^ 31) ∧ m = Int32.ofInt n := by
  unfold checkedInt32
  have hcond : (overflowChecks && !(-2 ^ 31 ≤ n && n < 2 ^ 31)) = true ↔
      ¬(overflowChecks = true → -2 ^ 31 ≤ n ∧ n < 2 ^ 31) := by
    simp only [Bool.and_eq_true, Bool.not_eq_true', Bool.and_eq_false_iff,
      decide_eq_false_iff_not, Classical.not_imp, not_and_or]
  split
  · rename_i h
    exact iff_of_false (fun hm => nomatch hm) fun hm => hcond.mp h hm.1
  · rename_i h
    rw [Except.ok.injEq, eq_comm, and_iff_right (not_not.mp (hcond.not.mp h))]

end Runtime

/-- A debug build whose maps keep insertion order. -/
@[reducible] def insertionOrderRuntime : Runtime where
  overflowChecks := true
  mapOrder entries := entries
  mapOrder_perm entries := .refl entries
  finish _ := 0

end RQuery
