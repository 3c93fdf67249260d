import Mathlib.Algebra.GroupWithZero.Nat
import Mathlib.Algebra.Ring.Int.Defs

/-!
# Two's complement integers

A `SignedInteger α w` says that `α` is arithmetic modulo `2 ^ w` on the integers from `-2 ^ (w - 1)`
up to `2 ^ (w - 1)`, division truncating. The fixed-width types of the core library are of this kind.
-/

namespace RQuery

/-- The range of a signed integer of `w` bits. -/
def InRange (w : ℕ) (n : ℤ) : Prop := n.bmod (2 ^ w) = n

/-- A balanced remainder is in the range of its width. -/
theorem inRange_bmod (w : ℕ) (n : ℤ) : InRange w (n.bmod (2 ^ w)) := Int.bmod_bmod

/-- The range from its bounds. -/
theorem inRange_iff {w : ℕ} (hw : 0 < w) {n : ℤ} :
    InRange w n ↔ -2 ^ (w - 1) ≤ n ∧ n < 2 ^ (w - 1) := by
  obtain ⟨k, rfl⟩ : ∃ k, w = k + 1 := ⟨w - 1, by omega⟩
  have hpow : ((2 ^ (k + 1) : ℕ) : ℤ) = 2 * 2 ^ k := by
    push_cast
    rw [pow_succ, Int.mul_comm]
  have hpos : (0 : ℤ) < 2 ^ k := Int.pow_pos (by decide)
  rw [InRange, Nat.add_sub_cancel]
  constructor
  · intro h
    have hlo := Int.le_bmod (x := n) (m := 2 ^ (k + 1)) (Nat.two_pow_pos _)
    have hhi := Int.bmod_lt (x := n) (m := 2 ^ (k + 1)) (Nat.two_pow_pos _)
    rw [h, hpow] at hlo hhi
    omega
  · rintro ⟨hlo, hhi⟩
    refine Int.bmod_eq_of_le ?_ ?_ <;> rw [hpow] <;> omega

/-- `α` is arithmetic modulo `2 ^ w`. -/
structure SignedInteger (α : Type) [Add α] [Sub α] [Mul α] [Div α] (w : ℕ) where
  toInt : α → ℤ
  ofInt : ℤ → α
  ofInt_toInt : ∀ x, ofInt (toInt x) = x
  toInt_ofInt : ∀ n, toInt (ofInt n) = n.bmod (2 ^ w)
  toInt_add : ∀ x y, toInt (x + y) = (toInt x + toInt y).bmod (2 ^ w)
  toInt_sub : ∀ x y, toInt (x - y) = (toInt x - toInt y).bmod (2 ^ w)
  toInt_mul : ∀ x y, toInt (x * y) = (toInt x * toInt y).bmod (2 ^ w)
  toInt_div : ∀ x y, toInt (x / y) = ((toInt x).tdiv (toInt y)).bmod (2 ^ w)

namespace SignedInteger

section

variable {α : Type} [Add α] [Sub α] [Mul α] [Div α] {w : ℕ} (S : SignedInteger α w)
include S

/-- A machine integer is determined by its number. -/
theorem toInt_inj {x y : α} : S.toInt x = S.toInt y ↔ x = y := by
  refine ⟨fun h => ?_, congrArg S.toInt⟩
  rw [← S.ofInt_toInt x, h, S.ofInt_toInt]

/-- A number in range is stored as it is. -/
theorem toInt_ofInt_of_inRange {n : ℤ} (hn : InRange w n) : S.toInt (S.ofInt n) = n :=
  (S.toInt_ofInt n).trans hn

/-- The number of a machine integer is in range. -/
theorem inRange_toInt (x : α) : InRange w (S.toInt x) := by
  rw [← S.ofInt_toInt x, S.toInt_ofInt]
  exact inRange_bmod w _

end

def int8 : SignedInteger Int8 8 where
  toInt := Int8.toInt
  ofInt := Int8.ofInt
  ofInt_toInt _ := Int8.ofInt_toInt _
  toInt_ofInt _ := Int8.toInt_ofInt
  toInt_add := Int8.toInt_add
  toInt_sub := Int8.toInt_sub
  toInt_mul := Int8.toInt_mul
  toInt_div := Int8.toInt_div

def int16 : SignedInteger Int16 16 where
  toInt := Int16.toInt
  ofInt := Int16.ofInt
  ofInt_toInt _ := Int16.ofInt_toInt _
  toInt_ofInt _ := Int16.toInt_ofInt
  toInt_add := Int16.toInt_add
  toInt_sub := Int16.toInt_sub
  toInt_mul := Int16.toInt_mul
  toInt_div := Int16.toInt_div

def int32 : SignedInteger Int32 32 where
  toInt := Int32.toInt
  ofInt := Int32.ofInt
  ofInt_toInt _ := Int32.ofInt_toInt _
  toInt_ofInt _ := Int32.toInt_ofInt
  toInt_add := Int32.toInt_add
  toInt_sub := Int32.toInt_sub
  toInt_mul := Int32.toInt_mul
  toInt_div := Int32.toInt_div

def int64 : SignedInteger Int64 64 where
  toInt := Int64.toInt
  ofInt := Int64.ofInt
  ofInt_toInt _ := Int64.ofInt_toInt _
  toInt_ofInt _ := Int64.toInt_ofInt
  toInt_add := Int64.toInt_add
  toInt_sub := Int64.toInt_sub
  toInt_mul := Int64.toInt_mul
  toInt_div := Int64.toInt_div

end SignedInteger

end RQuery
