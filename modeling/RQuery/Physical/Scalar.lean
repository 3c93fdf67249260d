import RQuery.Datatypes.RecordBatch
import RQuery.Datatypes.Text
import RQuery.Physical.Runtime

/-!
# Operations on single cells

The per-cell parts of the physical expressions: the comparison, logical and arithmetic operators,
numeric coercion, casts and date arithmetic. Each takes and returns `ScalarValue`s and panics on the
types it does not support.
-/

namespace RQuery

variable [FloatModel]

namespace ScalarValue

/-! ## Reading numbers -/

/-- `number_to_i64`. -/
def numberToInt64 : ScalarValue → Result Int64
  | int8 n => .ok n.toInt64
  | int16 n => .ok n.toInt64
  | int32 n => .ok n.toInt64
  | int64 n => .ok n
  | uint8 n => .ok (Int64.ofNat n.toNat)
  | uint16 n => .ok (Int64.ofNat n.toNat)
  | uint32 n => .ok (Int64.ofNat n.toNat)
  | uint64 n => .ok (Int64.ofNat n.toNat)
  | float32 f => .ok (FloatModel.single.toInt64 f)
  | float64 f => .ok (FloatModel.double.toInt64 f)
  | date32 d => .ok d.toInt64
  | _ => .error (.typeMismatch "expected a number")

/-- `number_to_f64`. -/
def numberToF64 : ScalarValue → Result F64
  | int8 n => .ok (FloatModel.double.ofInt n.toInt)
  | int16 n => .ok (FloatModel.double.ofInt n.toInt)
  | int32 n => .ok (FloatModel.double.ofInt n.toInt)
  | int64 n => .ok (FloatModel.double.ofInt n.toInt)
  | uint8 n => .ok (FloatModel.double.ofInt n.toNat)
  | uint16 n => .ok (FloatModel.double.ofInt n.toNat)
  | uint32 n => .ok (FloatModel.double.ofInt n.toNat)
  | uint64 n => .ok (FloatModel.double.ofInt n.toNat)
  | float32 f => .ok (FloatModel.widen f)
  | float64 f => .ok f
  | _ => .error (.typeMismatch "expected a number")

/-- `CoercedDoubleVector::value`: a numeric cell as a double. -/
def coerceToDouble : ScalarValue → Result ScalarValue
  | null => .ok null
  | float64 f => .ok (float64 f)
  | float32 f => .ok (float64 (FloatModel.widen f))
  | int64 n => .ok (float64 (FloatModel.double.ofInt n.toInt))
  | int32 n => .ok (float64 (FloatModel.double.ofInt n.toInt))
  | int16 n => .ok (float64 (FloatModel.double.ofInt n.toInt))
  | int8 n => .ok (float64 (FloatModel.double.ofInt n.toInt))
  | uint64 n => .ok (float64 (FloatModel.double.ofInt n.toNat))
  | uint32 n => .ok (float64 (FloatModel.double.ofInt n.toNat))
  | uint16 n => .ok (float64 (FloatModel.double.ofInt n.toNat))
  | uint8 n => .ok (float64 (FloatModel.double.ofInt n.toNat))
  | _ => .error (.typeMismatch "cannot coerce to Double")

/-! ## Casts -/

private def expectParse {α : Type} (text : String) : Option α → Result α
  | some a => .ok a
  | none => .error (.parseFailed text)

/-- `to_i64` of `cast_expression.rs`. -/
def castToInt64 : ScalarValue → Result Int64
  | int8 n => .ok n.toInt64
  | int16 n => .ok n.toInt64
  | int32 n => .ok n.toInt64
  | int64 n => .ok n
  | uint8 n => .ok (Int64.ofNat n.toNat)
  | uint16 n => .ok (Int64.ofNat n.toNat)
  | uint32 n => .ok (Int64.ofNat n.toNat)
  | uint64 n => .ok (Int64.ofNat n.toNat)
  | float32 f => .ok (FloatModel.single.toInt64 f)
  | float64 f => .ok (FloatModel.double.toInt64 f)
  | utf8 s => expectParse s (Text.parseInt64 (Text.trim s))
  | binary b =>
    expectParse (Text.fromUtf8Lossy b) (Text.parseInt64 (Text.trim (Text.fromUtf8Lossy b)))
  | _ => .error (.typeMismatch "Cannot cast value to integer")

/-- `to_f32`. -/
def castToF32 : ScalarValue → Result F32
  | utf8 s => expectParse s (FloatModel.single.parse (Text.trim s))
  | binary b =>
    expectParse (Text.fromUtf8Lossy b) (FloatModel.single.parse (Text.trim (Text.fromUtf8Lossy b)))
  | float32 f => .ok f
  | float64 f => .ok (FloatModel.narrow f)
  | int8 n => .ok (FloatModel.single.ofInt n.toInt)
  | int16 n => .ok (FloatModel.single.ofInt n.toInt)
  | int32 n => .ok (FloatModel.single.ofInt n.toInt)
  | int64 n => .ok (FloatModel.single.ofInt n.toInt)
  | uint8 n => .ok (FloatModel.single.ofInt n.toNat)
  | uint16 n => .ok (FloatModel.single.ofInt n.toNat)
  | uint32 n => .ok (FloatModel.single.ofInt n.toNat)
  | uint64 n => .ok (FloatModel.single.ofInt n.toNat)
  | _ => .error (.typeMismatch "Cannot cast value to float")

/-- `to_f64`. -/
def castToF64 : ScalarValue → Result F64
  | utf8 s => expectParse s (FloatModel.double.parse (Text.trim s))
  | binary b =>
    expectParse (Text.fromUtf8Lossy b) (FloatModel.double.parse (Text.trim (Text.fromUtf8Lossy b)))
  | float64 f => .ok f
  | float32 f => .ok (FloatModel.widen f)
  | int8 n => .ok (FloatModel.double.ofInt n.toInt)
  | int16 n => .ok (FloatModel.double.ofInt n.toInt)
  | int32 n => .ok (FloatModel.double.ofInt n.toInt)
  | int64 n => .ok (FloatModel.double.ofInt n.toInt)
  | uint8 n => .ok (FloatModel.double.ofInt n.toNat)
  | uint16 n => .ok (FloatModel.double.ofInt n.toNat)
  | uint32 n => .ok (FloatModel.double.ofInt n.toNat)
  | uint64 n => .ok (FloatModel.double.ofInt n.toNat)
  | _ => .error (.typeMismatch "Cannot cast value to double")

/-- `scalar_to_string`. -/
def toText : ScalarValue → String
  | null => ""
  | boolean b => toString b
  | int8 n => toString n
  | int16 n => toString n
  | int32 n => toString n
  | int64 n => toString n
  | uint8 n => toString n
  | uint16 n => toString n
  | uint32 n => toString n
  | uint64 n => toString n
  | float32 f => FloatModel.single.display f
  | float64 f => FloatModel.double.display f
  | utf8 s => s
  | binary b => Text.fromUtf8Lossy b
  | date32 d => toString d

/-- The loop body of `CastExpression::evaluate`. -/
def cast (t : DataType) (v : ScalarValue) : Result ScalarValue :=
  if v.isNull then
    .ok null
  else
    match t with
    | .int8 => do return int8 (← v.castToInt64).toInt8
    | .int16 => do return int16 (← v.castToInt64).toInt16
    | .int32 => do return int32 (← v.castToInt64).toInt32
    | .int64 => do return int64 (← v.castToInt64)
    | .float32 => do return float32 (← v.castToF32)
    | .float64 => do return float64 (← v.castToF64)
    | .utf8 => .ok (utf8 v.toText)
    | _ => .error (.unsupported "Cast")

end ScalarValue

/-! ## Comparison and logic -/

/-- The six comparison operators. -/
inductive CompareOp
  | eq
  | neq
  | lt
  | ltEq
  | gt
  | gtEq
  deriving DecidableEq, Repr

/-- The operator on the result of `partial_cmp`; `none` is an unordered pair of floats. -/
def CompareOp.test : CompareOp → Option Ordering → Bool
  | eq, o => o == some .eq
  | neq, o => o != some .eq
  | lt, o => o == some .lt
  | ltEq, o => o == some .lt || o == some .eq
  | gt, o => o == some .gt
  | gtEq, o => o == some .gt || o == some .eq

/-- The boolean operators of `boolean_expression.rs`. -/
inductive BooleanOp
  | and
  | or
  | compare (op : CompareOp)
  deriving DecidableEq, Repr

/-- `and3`: Kleene conjunction. -/
def and3 : Option Bool → Option Bool → Option Bool
  | some false, _ => some false
  | _, some false => some false
  | some true, some true => some true
  | _, _ => none

/-- `or3`: Kleene disjunction. -/
def or3 : Option Bool → Option Bool → Option Bool
  | some true, _ => some true
  | _, some true => some true
  | some false, some false => some false
  | _, _ => none

namespace ScalarValue

/-- The null-aware extractors `as_opt_i8`, `as_opt_i16`, …: a cell that is null or that `get`
accepts. -/
def asOpt {α : Type} (get : ScalarValue → Option α) (v : ScalarValue) : Result (Option α) :=
  if v.isNull then
    .ok none
  else
    match get v with
    | some a => .ok (some a)
    | none => .error (.typeMismatch "comparison operand")

/-- `as_opt_str`: bytes that are not UTF-8 count as null. -/
def asOptStr : ScalarValue → Result (Option String)
  | null => .ok none
  | utf8 s => .ok (some s)
  | binary b => .ok (Text.fromUtf8 b)
  | _ => .error (.typeMismatch "expected Utf8/Binary")

/-- `as_opt_bool`. -/
def asOptBool : ScalarValue → Result (Option Bool)
  | null => .ok none
  | boolean b => .ok (some b)
  | int8 n => .ok (some (n = 1))
  | int16 n => .ok (some (n = 1))
  | int32 n => .ok (some (n = 1))
  | int64 n => .ok (some (n = 1))
  | uint8 n => .ok (some (n = 1))
  | uint16 n => .ok (some (n = 1))
  | uint32 n => .ok (some (n = 1))
  | uint64 n => .ok (some (n = 1))
  | _ => .error (.typeMismatch "Cannot convert to bool")

/-- `cmp_opt`: a null operand makes the comparison unknown. -/
def cmpOpt {α : Type} (l r : Option α) (f : α → α → Bool) : Option Bool :=
  match l, r with
  | some l, some r => some (f l r)
  | _, _ => none

/-- `compare_typed!`. -/
def compareTyped (op : CompareOp) (l r : ScalarValue) (t : DataType) : Result (Option Bool) :=
  match t with
  | .int8 => do
    let get := asOpt fun v => match v with | int8 n => some n | _ => none
    return cmpOpt (← get l) (← get r) fun a b => op.test (some (compare a b))
  | .int16 => do
    let get := asOpt fun v => match v with | int16 n => some n | _ => none
    return cmpOpt (← get l) (← get r) fun a b => op.test (some (compare a b))
  | .int32 => do
    let get := asOpt fun v => match v with | int32 n => some n | _ => none
    return cmpOpt (← get l) (← get r) fun a b => op.test (some (compare a b))
  | .int64 => do
    let get := asOpt fun v => match v with | int64 n => some n | _ => none
    return cmpOpt (← get l) (← get r) fun a b => op.test (some (compare a b))
  | .float32 => do
    let get := asOpt fun v => match v with | float32 f => some f | _ => none
    return cmpOpt (← get l) (← get r) fun a b => op.test (FloatModel.single.partialCmp a b)
  | .float64 => do
    let get := asOpt fun v => match v with | float64 f => some f | _ => none
    return cmpOpt (← get l) (← get r) fun a b => op.test (FloatModel.double.partialCmp a b)
  | .utf8 => do
    return cmpOpt (← asOptStr l) (← asOptStr r) fun a b => op.test (some (compare a b))
  | .date32 => do
    let get := asOpt fun v => match v with | date32 n => some n | _ => none
    return cmpOpt (← get l) (← get r) fun a b => op.test (some (compare a b))
  | _ => .error (.unsupported "comparison expression")

/-- `compare_value` of the boolean operators. -/
def compareValue (op : BooleanOp) (l r : ScalarValue) (t : DataType) : Result (Option Bool) :=
  match op with
  | .and => do return and3 (← asOptBool l) (← asOptBool r)
  | .or => do return or3 (← asOptBool l) (← asOptBool r)
  | .compare op => compareTyped op l r t

/-- A three-valued boolean as a cell: unknown is null. -/
def ofOptBool : Option Bool → ScalarValue
  | some b => boolean b
  | none => null

end ScalarValue

/-! ## Arithmetic -/

/-- The operators of `math_expression.rs`. -/
inductive MathOp
  | add
  | subtract
  | multiply
  | divide
  deriving DecidableEq, Repr

/-- The operator on a signed integer width: wrapping, except that division panics on a zero divisor
and on the one quotient out of range. -/
def MathOp.applyInt {α : Type} [DecidableEq α] [Add α] [Sub α] [Mul α] [Div α]
    (zero minusOne minValue : α) (op : MathOp) (a b : α) : Result α :=
  match op with
  | add => .ok (a + b)
  | subtract => .ok (a - b)
  | multiply => .ok (a * b)
  | divide =>
    if b = zero then .error .divideByZero
    else if a = minValue ∧ b = minusOne then .error .overflow
    else .ok (a / b)

/-- The operator on floats. -/
def MathOp.applyFloat (F : FloatFormat) (op : MathOp) (a b : F.Carrier) : F.Carrier :=
  match op with
  | add => F.add a b
  | subtract => F.sub a b
  | multiply => F.mul a b
  | divide => F.div a b

namespace ScalarValue

/-- `as_i8`, `as_i16`, …: the payload of one variant. -/
def expect {α : Type} (get : ScalarValue → Option α) (v : ScalarValue) : Result α :=
  match get v with
  | some a => .ok a
  | none => .error (.typeMismatch "math operand")

/-- `MathExpression::evaluate_cell`. -/
def evaluateCell (op : MathOp) (l r : ScalarValue) (t : DataType) : Result ScalarValue :=
  if l.isNull || r.isNull then
    .ok null
  else
    match t with
    | .int8 => do
      let get := expect fun v => match v with | int8 n => some n | _ => none
      return int8 (← op.applyInt 0 (-1) Int8.minValue (← get l) (← get r))
    | .int16 => do
      let get := expect fun v => match v with | int16 n => some n | _ => none
      return int16 (← op.applyInt 0 (-1) Int16.minValue (← get l) (← get r))
    | .int32 => do
      let get := expect fun v => match v with | int32 n => some n | _ => none
      return int32 (← op.applyInt 0 (-1) Int32.minValue (← get l) (← get r))
    | .int64 => do
      let get := expect fun v => match v with | int64 n => some n | _ => none
      return int64 (← op.applyInt 0 (-1) Int64.minValue (← get l) (← get r))
    | .float32 => do
      let get := expect fun v => match v with | float32 f => some f | _ => none
      return float32 (op.applyFloat FloatModel.single (← get l) (← get r))
    | .float64 => do
      let get := expect fun v => match v with | float64 f => some f | _ => none
      return float64 (op.applyFloat FloatModel.double (← get l) (← get r))
    | _ => .error (.unsupported "math expression")

/-- Which way an interval moves a date. -/
inductive IntervalOp
  | subtract
  | add
  deriving DecidableEq, Repr

def IntervalOp.apply (op : IntervalOp) (d i : ℤ) : ℤ :=
  match op with
  | subtract => d - i
  | add => d + i

/-- The loop body of `date_interval`. -/
def dateInterval [Runtime] (op : IntervalOp) (date interval : ScalarValue) : Result ScalarValue :=
  if date.isNull || interval.isNull then
    .ok null
  else do
    let dateDays := (← date.numberToInt64).toInt32
    let intervalDays := (← interval.numberToInt64).toInt32
    return date32 (← Runtime.checkedInt32 (op.apply dateDays.toInt intervalDays.toInt))

/-! ## Types of results -/

theorem ofOptBool_fitsIn (o : Option Bool) : (ofOptBool o).FitsIn .boolean := by
  cases o with
  | none => exact .inl rfl
  | some b => exact .inr rfl

/-- A cast returns null or a cell of the target type. -/
theorem cast_fitsIn {t : DataType} {v w : ScalarValue} (h : cast t v = .ok w) : w.FitsIn t := by
  unfold cast at h
  split at h
  · cases h
    exact .inl rfl
  · split at h
    case _ => exact .inr (by obtain ⟨a, -, h⟩ := Outcome.bind_eq_ok_iff.mp h; cases h; rfl)
    case _ => exact .inr (by obtain ⟨a, -, h⟩ := Outcome.bind_eq_ok_iff.mp h; cases h; rfl)
    case _ => exact .inr (by obtain ⟨a, -, h⟩ := Outcome.bind_eq_ok_iff.mp h; cases h; rfl)
    case _ => exact .inr (by obtain ⟨a, -, h⟩ := Outcome.bind_eq_ok_iff.mp h; cases h; rfl)
    case _ => exact .inr (by obtain ⟨a, -, h⟩ := Outcome.bind_eq_ok_iff.mp h; cases h; rfl)
    case _ => exact .inr (by obtain ⟨a, -, h⟩ := Outcome.bind_eq_ok_iff.mp h; cases h; rfl)
    case _ => exact .inr (by cases h; rfl)
    case _ => cases h

/-- Arithmetic returns null or a cell of the type it works on. -/
theorem evaluateCell_fitsIn {op : MathOp} {l r : ScalarValue} {t : DataType} {v : ScalarValue}
    (h : evaluateCell op l r t = .ok v) : v.FitsIn t := by
  unfold evaluateCell at h
  split at h
  · cases h
    exact .inl rfl
  · split at h <;> simp only [Outcome.bind_eq_ok_iff, Outcome.pure_eq_ok, Except.ok.injEq,
      reduceCtorEq] at h
    · obtain ⟨_, -, _, -, _, -, rfl⟩ := h; exact .inr rfl
    · obtain ⟨_, -, _, -, _, -, rfl⟩ := h; exact .inr rfl
    · obtain ⟨_, -, _, -, _, -, rfl⟩ := h; exact .inr rfl
    · obtain ⟨_, -, _, -, _, -, rfl⟩ := h; exact .inr rfl
    · obtain ⟨_, -, _, -, rfl⟩ := h; exact .inr rfl
    · obtain ⟨_, -, _, -, rfl⟩ := h; exact .inr rfl

theorem dateInterval_fitsIn [Runtime] {op : IntervalOp} {d i v : ScalarValue}
    (h : dateInterval op d i = .ok v) : v.FitsIn .date32 := by
  unfold dateInterval at h
  split at h
  · cases h
    exact .inl rfl
  · simp only [Outcome.bind_eq_ok_iff, Outcome.pure_eq_ok, Except.ok.injEq] at h
    obtain ⟨_, -, _, -, _, -, rfl⟩ := h
    exact .inr rfl

end ScalarValue

end RQuery
