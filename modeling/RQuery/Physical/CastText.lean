import RQuery.Physical.IntegerArithmetic
import RQuery.Physical.ReferenceGrouping

/-!
# Casts by way of text

An integer is cast to a string of its decimal digits, which a cast to an integer type parses as an
`i64` and wraps to the type. So the detour changes nothing (`castTo_text_iff`) but for the `UInt64`s
from `2 ^ 63` on, which a direct cast wraps and the parser refuses.
-/

namespace RQuery

section

variable [FloatModel]

/-! ## Cells -/

namespace ScalarValue

/-- What a cast and a string show of an integer. -/
theorem exists_integer_text {t : DataType} (ht : t.isInteger) {v : ScalarValue}
    (hv : v.dataType = t) :
    ∃ z, v.integer? = some z ∧ v.castToInt64 = .ok (Int64.ofInt z) ∧ v.toText = toString z := by
  subst hv
  cases v with
  | int8 n => exact ⟨n.toInt, rfl, rfl, rfl⟩
  | int16 n => exact ⟨n.toInt, rfl, rfl, rfl⟩
  | int32 n => exact ⟨n.toInt, rfl, rfl, rfl⟩
  | int64 n => exact ⟨n.toInt, rfl, congrArg _ (Int64.ofInt_toInt n).symm, rfl⟩
  | uint8 n => exact ⟨n.toNat, rfl, congrArg _ Int64.ofInt_eq_ofNat.symm, rfl⟩
  | uint16 n => exact ⟨n.toNat, rfl, congrArg _ Int64.ofInt_eq_ofNat.symm, rfl⟩
  | uint32 n => exact ⟨n.toNat, rfl, congrArg _ Int64.ofInt_eq_ofNat.symm, rfl⟩
  | uint64 n => exact ⟨n.toNat, rfl, congrArg _ Int64.ofInt_eq_ofNat.symm, rfl⟩
  | _ => cases ht

/-- The text of an integer is parsed when an `i64` can hold it. -/
theorem castToInt64_toString (z : ℤ) :
    (utf8 (toString z)).castToInt64 =
      if -2 ^ 63 ≤ z ∧ z < 2 ^ 63 then .ok (Int64.ofInt z)
      else .error (.parseFailed (toString z)) := by
  rw [castToInt64, Text.trim_toString, Text.parseInt64_toString]
  split
  · rfl
  · rfl

/-- No integer is below the range of an `i64`. -/
theorem le_of_integer? {v : ScalarValue} {z : ℤ} (h : v.integer? = some z) : -2 ^ 63 ≤ z := by
  cases v <;> cases h
  case int8.refl n => have := n.le_toInt; omega
  case int16.refl n => have := n.le_toInt; omega
  case int32.refl n => have := n.le_toInt; omega
  case int64.refl n => have := n.le_toInt; omega
  all_goals omega

theorem cast_width (w : IntWidth) {v : ScalarValue} (hv : v ≠ null) :
    cast w.dataType v = do return w.cell (some (← v.castToInt64).toInt) := by
  unfold cast
  rw [if_neg (isNull_iff.not.mpr hv)]
  cases w with
  | w64 =>
    refine bind_congr fun n => ?_
    rw [IntWidth.cell, Int64.ofInt_toInt]
  | _ => rfl

/-- The detour of a cell: an `i64` can hold the integer, or the digits are not parsed. -/
theorem cast_text {t : DataType} (ht : t.isInteger) (w : IntWidth) {v : ScalarValue}
    (hv : v.FitsIn t) :
    ((∀ z, v.integer? = some z → z < 2 ^ 63) →
        (cast .utf8 v >>= cast w.dataType) = cast w.dataType v) ∧
      ∀ z, v.integer? = some z → 2 ^ 63 ≤ z →
        (cast .utf8 v >>= cast w.dataType) = .error (.parseFailed (toString z)) := by
  rcases hv with rfl | hv
  · exact ⟨fun _ => rfl, fun z hz => nomatch hz⟩
  have hne : v ≠ null := by
    rintro rfl
    subst hv
    cases ht
  obtain ⟨z, hz, hcast, htext⟩ := exists_integer_text ht hv
  have hutf8 : cast .utf8 v = .ok (utf8 (toString z)) := by
    unfold cast
    rw [if_neg (isNull_iff.not.mpr hne), htext]
  have hlo := le_of_integer? hz
  rw [hutf8, Outcome.ok_bind, cast_width w (by simp), cast_width w hne, castToInt64_toString, hcast,
    hz]
  constructor
  · intro h
    rw [if_pos ⟨hlo, h z rfl⟩]
  · intro y hy hhi
    obtain rfl := Option.some.inj hy
    rw [if_neg (by omega)]
    rfl

/-- A cast of an integer to an integer type succeeds. -/
theorem cast_width_succeeds {t : DataType} (ht : t.isInteger) (w : IntWidth) {v : ScalarValue}
    (hv : v.FitsIn t) : Outcome.Succeeds (cast w.dataType v) := by
  rcases hv with rfl | hv
  · exact ⟨null, rfl⟩
  · obtain ⟨z, -, hcast, -⟩ := exists_integer_text ht hv
    have hne : v ≠ null := by
      rintro rfl
      subst hv
      cases ht
    rw [cast_width w hne, hcast]
    exact ⟨_, rfl⟩

/-- A cast of a signed integer to its own type. -/
theorem cast_self (w : IntWidth) {v : ScalarValue} (hv : v.FitsIn w.dataType) :
    cast w.dataType v = .ok v := by
  rcases hv with rfl | hv
  · rfl
  · cases w <;> cases v <;> cases hv
    case inr.w8.int8.refl n =>
      exact congrArg (fun m => (Except.ok (int8 m) : Result ScalarValue)) (Int8.toInt8_toInt64 n)
    case inr.w16.int16.refl n =>
      exact congrArg (fun m => (Except.ok (int16 m) : Result ScalarValue)) (Int16.toInt16_toInt64 n)
    case inr.w32.int32.refl n =>
      exact congrArg (fun m => (Except.ok (int32 m) : Result ScalarValue)) (Int32.toInt32_toInt64 n)
    case inr.w64.int64.refl n => rfl

/-- Signed integers are in the range of an `i64`. -/
theorem lt_of_integer? {w : IntWidth} {v : ScalarValue} (hv : v.FitsIn w.dataType) {z : ℤ}
    (hz : v.integer? = some z) : z < 2 ^ 63 := by
  have hrange := (inRange_iff (by cases w <;> decide)).mp ((IntWidth.cell_integer? hv).2 z hz)
  cases w <;> simp only [IntWidth.bits] at hrange <;> omega

end ScalarValue

/-! ## Columns -/

/-- The same cells are cast to the same column. -/
theorem ColumnVector.castTo_congr {t : DataType} {column column' : ColumnVector}
    (hlen : column.len = column'.len)
    (h : ∀ k < column.len, (column.value k >>= ScalarValue.cast t) =
      (column'.value k >>= ScalarValue.cast t)) : column.castTo t = column'.castTo t := by
  unfold castTo
  rw [ArrowVectorBuilder.fill_congr h, hlen]

/-- A column can be cast only if each of its cells can. -/
theorem ColumnVector.castTo_cells {t : DataType} {column : ColumnVector}
    (h : Outcome.Succeeds (column.castTo t)) :
    ∀ k < column.len, Outcome.Succeeds (column.value k >>= ScalarValue.cast t) := by
  intro k hk
  obtain ⟨out, hout⟩ := h
  obtain ⟨a, ha, -⟩ := Outcome.bind_eq_ok_iff.mp hout
  obtain ⟨-, -, hlen, hcells⟩ := ArrowVectorBuilder.fill_eq_ok_iff.mp ha
  exact ⟨_, hcells k _ (List.getElem?_eq_getElem (hlen ▸ hk))⟩

variable [Runtime]

/-- Casting integers to an integer type always succeeds. Casting them to text first gives the same
column exactly if no cell is beyond an `i64`, and panics otherwise. It leaves a signed column that is
cast back to its own type as it was. -/
theorem castTo_text_iff {b : RecordBatch} {e : Expression} {column : ColumnVector}
    (hcolumn : e.evaluate b = .ok column) (htype : column.dataType.isInteger)
    (hvalues : ∀ k < b.numRows, Outcome.Succeeds (column.value k)) (w : IntWidth) :
    Outcome.Succeeds ((Expression.cast e w.dataType).evaluate b) ∧
      ((Expression.cast (.cast e .utf8) w.dataType).evaluate b =
          (Expression.cast e w.dataType).evaluate b ↔
        ∀ k < b.numRows, ∀ z, e.integerAt b k = some z → z < 2 ^ 63) ∧
      ((∃ panic, (Expression.cast (.cast e .utf8) w.dataType).evaluate b = .error panic) ↔
        ∃ k < b.numRows, ∃ z, e.integerAt b k = some z ∧ 2 ^ 63 ≤ z) ∧
      (column.dataType = w.dataType →
        ∃ back, (Expression.cast (.cast e .utf8) w.dataType).evaluate b = .ok back ∧
          back.dataType = column.dataType ∧ back.len = column.len ∧
          ∀ k < b.numRows, back.value k = column.value k) := by
  obtain ⟨t, -, hcomputes⟩ := Expression.evaluate_computes hcolumn
  have hself : column.Computes b.numRows column.dataType column.value :=
    ⟨rfl, hcomputes.len_eq, fun _ _ => rfl⟩
  have hcells : ∀ k < b.numRows, ∃ v, column.value k = .ok v ∧ v.FitsIn column.dataType ∧
      e.integerAt b k = v.integer? := by
    intro k hk
    obtain ⟨v, hv, -, hfits, hat⟩ := Expression.exists_cell hcolumn hk (hvalues k hk)
    exact ⟨v, hv, hfits, hat⟩
  have hdirect : Outcome.Succeeds (column.castTo w.dataType) := by
    refine ColumnVector.castTo_succeeds (by cases w <;> rfl) hself fun k hk => ?_
    obtain ⟨v, hv, hfits, -⟩ := hcells k hk
    rw [hv]
    exact ScalarValue.cast_width_succeeds htype w hfits
  obtain ⟨text, htext⟩ : Outcome.Succeeds (column.castTo .utf8) := by
    refine ColumnVector.castTo_succeeds rfl hself fun k hk => ?_
    obtain ⟨v, hv, -⟩ := hcells k hk
    rw [hv, Outcome.ok_bind, ScalarValue.cast]
    split
    · exact ⟨_, rfl⟩
    · exact ⟨_, rfl⟩
  obtain ⟨-, htextCells⟩ := ColumnVector.castTo_computes hself htext
  have hcast : (Expression.cast e w.dataType).evaluate b = column.castTo w.dataType := by
    rw [Expression.evaluate, hcolumn]
    rfl
  have hdetour : (Expression.cast (.cast e .utf8) w.dataType).evaluate b =
      text.castTo w.dataType := by
    rw [Expression.evaluate, Expression.evaluate, hcolumn, Outcome.ok_bind, htext]
    rfl
  have hlen : text.len = column.len := htextCells.len_eq.trans hself.len_eq.symm
  have hcell : ∀ k < b.numRows, ∀ v, column.value k = .ok v →
      (text.value k >>= ScalarValue.cast w.dataType) =
        (ScalarValue.cast .utf8 v >>= ScalarValue.cast w.dataType) := by
    intro k hk v hv
    rw [htextCells.value_eq k hk, hv, Outcome.ok_bind]
  have hsame : (∀ k < b.numRows, ∀ z, e.integerAt b k = some z → z < 2 ^ 63) →
      text.castTo w.dataType = column.castTo w.dataType := by
    intro h
    refine ColumnVector.castTo_congr hlen fun k hk => ?_
    have hk : k < b.numRows := htextCells.len_eq ▸ hk
    obtain ⟨v, hv, hfits, hinteger⟩ := hcells k hk
    rw [hcell k hk v hv, hv, Outcome.ok_bind]
    exact (ScalarValue.cast_text htype w hfits).1 (hinteger ▸ h k hk)
  have hsmall : Outcome.Succeeds (text.castTo w.dataType) →
      ∀ k < b.numRows, ∀ z, e.integerAt b k = some z → z < 2 ^ 63 := by
    intro h k hk z hz
    obtain ⟨v, hv, hfits, hinteger⟩ := hcells k hk
    obtain ⟨out, hout⟩ := ColumnVector.castTo_cells h k (htextCells.len_eq ▸ hk)
    by_contra hhi
    rw [hcell k hk v hv,
      (ScalarValue.cast_text htype w hfits).2 z (hinteger ▸ hz) (not_lt.mp hhi)] at hout
    cases hout
  have hiff : text.castTo w.dataType = column.castTo w.dataType ↔
      ∀ k < b.numRows, ∀ z, e.integerAt b k = some z → z < 2 ^ 63 :=
    ⟨fun heq => hsmall (heq ▸ hdirect), hsame⟩
  have hpanics : (∃ panic, text.castTo w.dataType = .error panic) ↔
      ∃ k < b.numRows, ∃ z, e.integerAt b k = some z ∧ 2 ^ 63 ≤ z := by
    constructor
    · rintro ⟨panic, hpanic⟩
      by_contra hnone
      push Not at hnone
      obtain ⟨out, hout⟩ := hdirect
      rw [hsame hnone, hout] at hpanic
      cases hpanic
    · rintro ⟨k, hk, z, hz, hhi⟩
      cases htextOut : text.castTo w.dataType with
      | error panic => exact ⟨panic, rfl⟩
      | ok out => exact absurd (hsmall ⟨out, htextOut⟩ k hk z hz) (not_lt.mpr hhi)
  rw [hcast, hdetour]
  refine ⟨hdirect, hiff, hpanics, fun hown => ?_⟩
  have hsigned : ∀ k < b.numRows, ∀ z, e.integerAt b k = some z → z < 2 ^ 63 := by
    intro k hk z hz
    obtain ⟨v, -, hfits, hinteger⟩ := hcells k hk
    exact ScalarValue.lt_of_integer? (hown ▸ hfits) (hinteger ▸ hz)
  obtain ⟨back, hback⟩ := hdirect
  obtain ⟨-, hbackCells⟩ := ColumnVector.castTo_computes hself hback
  refine ⟨back, (hsame hsigned).trans hback, hbackCells.dataType_eq.trans hown.symm,
    hbackCells.len_eq.trans hself.len_eq.symm, fun k hk => ?_⟩
  obtain ⟨v, hv, hfits, -⟩ := hcells k hk
  rw [hbackCells.value_eq k hk, hv, Outcome.ok_bind]
  exact ScalarValue.cast_self w (hown ▸ hfits)

end

section LargeUnsigned

attribute [local instance] integerFloats insertionOrderRuntime

/-- The first number that an `i64` does not hold. -/
def largeUnsigned : RecordBatch where
  schema := ⟨[⟨"u", .uint64⟩]⟩
  columns := [⟨.uint64, [.uint64 9223372036854775808], ArrayRef.fits_of_forall (by decide)⟩]
  numRows := 1
  types_eq := by decide
  lengths := by decide

/-- A direct cast wraps it, and its digits are not parsed. -/
theorem castTo_largeUnsigned :
    ((Expression.cast (.column 0) .int64).evaluate largeUnsigned).map ColumnVector.dataType =
        .ok .int64 ∧
      ((Expression.cast (.cast (.column 0) .utf8) .int64).evaluate largeUnsigned).map
        ColumnVector.dataType = .error (.parseFailed "9223372036854775808") := by
  refine ⟨by decide, by decide +kernel⟩

/-- Eight bits of 1000, with and without the detour. -/
theorem castTo_text_iff_wrapping :
    Outcome.Succeeds ((Expression.cast (.literalLong 1000) .int8).evaluate largeUnsigned) ∧
      ((Expression.cast (.cast (.literalLong 1000) .utf8) .int8).evaluate largeUnsigned =
          (Expression.cast (.literalLong 1000) .int8).evaluate largeUnsigned ↔
        ∀ k < 1, ∀ z, (Expression.literalLong 1000).integerAt largeUnsigned k = some z →
          z < 2 ^ 63) := by
  have hliteral : (Expression.literalLong 1000).evaluate largeUnsigned =
      .ok (LiteralValueVector .int64 (.int64 1000) 1) := rfl
  have h := castTo_text_iff hliteral rfl (fun k hk => ⟨.int64 1000, if_pos hk⟩) .w8
  exact ⟨h.1, h.2.1⟩

end LargeUnsigned

end RQuery
