import RQuery.Datatypes.Panic
import Mathlib.Algebra.GroupWithZero.Nat
import Mathlib.Algebra.Ring.Int.Defs

/-!
# Floating-point numbers

The two float widths of the engine are a parameter: a carrier with the operations the engine calls
on it. Nothing is assumed of the arithmetic; only `to_bits` is injective, since a carrier's element
is a bit pattern. `==`, `<` and the other comparison operators are derived from `partial_cmp`, as
they agree with it on floats.
-/

namespace RQuery

/-- One float type, with the operations the engine uses. -/
structure FloatFormat where
  Carrier : Type
  decEq : DecidableEq Carrier
  /-- `to_bits`. -/
  toBits : Carrier → ℕ
  toBits_injective : Function.Injective toBits
  zero : Carrier
  add : Carrier → Carrier → Carrier
  sub : Carrier → Carrier → Carrier
  mul : Carrier → Carrier → Carrier
  div : Carrier → Carrier → Carrier
  /-- `partial_cmp`: `none` when one side is a NaN. -/
  partialCmp : Carrier → Carrier → Option Ordering
  /-- `n as f32` or `n as f64`, for an integer `n` of any width. -/
  ofInt : ℤ → Carrier
  /-- `f as i64`, which saturates and sends NaN to 0. -/
  toInt64 : Carrier → Int64
  /-- `str::parse`. -/
  parse : String → Option Carrier
  /-- `to_string`. -/
  display : Carrier → String

/-- The floats of the platform: `f32`, `f64` and the conversions between them. -/
class FloatModel where
  single : FloatFormat
  double : FloatFormat
  /-- `f as f64`. -/
  widen : single.Carrier → double.Carrier
  /-- `f as f32`. -/
  narrow : double.Carrier → single.Carrier

variable [FloatModel]

abbrev F32 : Type := FloatModel.single.Carrier

abbrev F64 : Type := FloatModel.double.Carrier

instance : DecidableEq F32 := FloatModel.single.decEq

instance : DecidableEq F64 := FloatModel.double.decEq

/-! ## Integers for floats

An instance to run the engine on data without floats. -/

/-- Integers as a float format. -/
def integerFormat : FloatFormat where
  Carrier := ℤ
  decEq := inferInstance
  toBits n := if 0 ≤ n then 2 * n.toNat else 2 * (-n).toNat + 1
  toBits_injective m n h := by
    simp only at h
    split at h <;> split at h <;> omega
  zero := 0
  add := (· + ·)
  sub := (· - ·)
  mul := (· * ·)
  div := Int.tdiv
  partialCmp m n := some (compare m n)
  ofInt n := n
  toInt64 n := Int64.ofInt (max (-2 ^ 63) (min n (2 ^ 63 - 1)))
  parse := String.toInt?
  display := toString

/-- The float model that computes with integers. -/
@[reducible] def integerFloats : FloatModel where
  single := integerFormat
  double := integerFormat
  widen n := n
  narrow n := n

end RQuery
