import RQuery.Physical.Scalar

/-!
# Physical expressions

An `Expression` is evaluated on a batch and returns a column. Evaluation is partly eager: a boolean,
arithmetic, cast or date node computes all of its cells at once and panics at the first one that
cannot be computed, while a column, a literal or a coercion panics only when its cells are read.

`dataType` and `evalCell` separate what an expression does into the type of its column, which
depends on the column types of the batch alone, and the value of its cell in one row.
`evaluate_eq_ok` and `evaluate_succeeds` connect the two views: `evaluate` returns a column exactly
of these cells, and it returns one whenever the type and all cells exist.
-/

namespace RQuery

variable [FloatModel]

/-- The physical expressions the planner emits. -/
inductive Expression
  | column (i : ℕ)
  | literalLong (value : Int64)
  | literalDouble (value : F64)
  | literalString (value : String)
  | literalDate (daysSinceEpoch : Int32)
  | literalIntervalDays (days : Int64)
  | boolean (op : BooleanOp) (l r : Expression)
  | math (op : MathOp) (l r : Expression)
  | cast (expr : Expression) (dataType : DataType)
  | dateInterval (op : ScalarValue.IntervalOp) (dateExpr intervalExpr : Expression)
  deriving DecidableEq

/-! ## The operators under their source names -/

abbrev AndExpression := Expression.boolean .and
abbrev OrExpression := Expression.boolean .or
abbrev EqExpression := Expression.boolean (.compare .eq)
abbrev NeqExpression := Expression.boolean (.compare .neq)
abbrev LtExpression := Expression.boolean (.compare .lt)
abbrev LtEqExpression := Expression.boolean (.compare .ltEq)
abbrev GtExpression := Expression.boolean (.compare .gt)
abbrev GtEqExpression := Expression.boolean (.compare .gtEq)
abbrev AddExpression := Expression.math .add
abbrev SubtractExpression := Expression.math .subtract
abbrev MultiplyExpression := Expression.math .multiply
abbrev DivideExpression := Expression.math .divide
abbrev DateSubtractIntervalExpression := Expression.dateInterval .subtract
abbrev DateAddIntervalExpression := Expression.dateInterval .add

/-- `is_numeric`. -/
def DataType.isNumeric : DataType → Bool
  | int8 | int16 | int32 | int64 | uint8 | uint16 | uint32 | uint64
  | float16 | float32 | float64 | decimal128 _ _ | decimal256 _ _ => true
  | _ => false

namespace ColumnVector

/-- `evaluate_boolean`, given both operands. -/
def evaluateBoolean (op : BooleanOp) (ll rr : ColumnVector) : Result ColumnVector :=
  if ll.len ≠ rr.len then
    .error (.other "assertion failed: ll.len() == rr.len()")
  else if ll.dataType ≠ rr.dataType then
    .error (.typeMismatch "Cannot compare values of different type")
  else do
    let a ← ArrowVectorBuilder.fill .boolean ll.len fun i => do
      let l ← ll.value i
      let r ← rr.value i
      return .ofOptBool (← ScalarValue.compareValue op l r ll.dataType)
    return ArrowFieldVector a

/-- `coerce_to_double`. -/
def coerceToDouble (col : ColumnVector) : ColumnVector :=
  if col.dataType = .float64 then
    col
  else
    { dataType := .float64
      len := col.len
      value := fun i => do ScalarValue.coerceToDouble (← col.value i) }

/-- `math_evaluate_pair`. -/
def mathEvaluatePair (op : MathOp) (l r : ColumnVector) : Result ColumnVector := do
  let a ← ArrowVectorBuilder.fill l.dataType l.len fun i => do
    ScalarValue.evaluateCell op (← l.value i) (← r.value i) l.dataType
  return ArrowFieldVector a

/-- `evaluate_binary`, given both operands: numeric operands of different types are coerced to
doubles. -/
def evaluateBinary (op : MathOp) (ll rr : ColumnVector) : Result ColumnVector :=
  if ll.len ≠ rr.len then
    .error (.other "assertion failed: ll.len() == rr.len()")
  else if ll.dataType ≠ rr.dataType then
    if ll.dataType.isNumeric && rr.dataType.isNumeric then
      mathEvaluatePair op ll.coerceToDouble rr.coerceToDouble
    else
      .error (.typeMismatch "Binary expression operands")
  else
    mathEvaluatePair op ll rr

/-- The loop of `CastExpression::evaluate`. -/
def castTo (t : DataType) (value : ColumnVector) : Result ColumnVector := do
  let a ← ArrowVectorBuilder.fill t value.len fun i => do
    ScalarValue.cast t (← value.value i)
  return ArrowFieldVector a

/-- The loop of `date_interval`. -/
def evaluateInterval [Runtime] (op : ScalarValue.IntervalOp) (dateCol intervalCol : ColumnVector) :
    Result ColumnVector := do
  let a ← ArrowVectorBuilder.fill .date32 dateCol.len fun i => do
    let date ← dateCol.value i
    let interval ← intervalCol.value i
    ScalarValue.dateInterval op date interval
  return ArrowFieldVector a

end ColumnVector

namespace Expression

/-- `Expression::evaluate`. -/
def evaluate [Runtime] (input : RecordBatch) : Expression → Result ColumnVector
  | column i => input.field i
  | literalLong n => .ok (LiteralValueVector .int64 (.int64 n) input.numRows)
  | literalDouble f => .ok (LiteralValueVector .float64 (.float64 f) input.numRows)
  | literalString s => .ok (LiteralValueVector .utf8 (.utf8 s) input.numRows)
  | literalDate d => .ok (LiteralValueVector .date32 (.date32 d) input.numRows)
  | literalIntervalDays n => .ok (LiteralValueVector .int64 (.int64 n) input.numRows)
  | boolean op l r => do
    let ll ← l.evaluate input
    let rr ← r.evaluate input
    ll.evaluateBoolean op rr
  | math op l r => do
    let ll ← l.evaluate input
    let rr ← r.evaluate input
    ll.evaluateBinary op rr
  | cast e t => do
    let value ← e.evaluate input
    value.castTo t
  | dateInterval op d i => do
    let dateCol ← d.evaluate input
    let intervalCol ← i.evaluate input
    dateCol.evaluateInterval op intervalCol

/-! ## Types and cells -/

/-- The operand type of an arithmetic operator, after coercion. -/
def mathType (l r : DataType) : Result DataType :=
  if l = r then .ok l
  else if l.isNumeric && r.isNumeric then .ok .float64
  else .error (.typeMismatch "Binary expression operands")

/-- The type itself, if there is a builder for it. -/
def built (t : DataType) : Result DataType :=
  if t.hasBuilder then .ok t else .error (.unsupported "ArrowVectorBuilder::new")

/-- The type of the column an expression evaluates to on a batch with the given column types. -/
def dataType (types : List DataType) : Expression → Result DataType
  | column i => index types i
  | literalLong _ => .ok .int64
  | literalDouble _ => .ok .float64
  | literalString _ => .ok .utf8
  | literalDate _ => .ok .date32
  | literalIntervalDays _ => .ok .int64
  | boolean _ l r => do
    let tl ← l.dataType types
    let tr ← r.dataType types
    if tl ≠ tr then throw (.typeMismatch "Cannot compare values of different type")
    return .boolean
  | math _ l r => do
    let tl ← l.dataType types
    let tr ← r.dataType types
    built (← mathType tl tr)
  | cast e t => do
    let _ ← e.dataType types
    built t
  | dateInterval _ d i => do
    let _ ← d.dataType types
    let _ ← i.dataType types
    return .date32

/-- A cell of type `t` as an operand of an operator that works on type `s`. -/
def coerceCell (t s : DataType) (v : ScalarValue) : Result ScalarValue :=
  if t = s then .ok v else ScalarValue.coerceToDouble v

/-- A cell of the type asked for is left as it is. -/
theorem coerceCell_self (t : DataType) : coerceCell t t = pure := by
  funext v
  simp [coerceCell]

/-- A cell of another type is turned into a double. -/
theorem coerceCell_of_ne {t s : DataType} (h : t ≠ s) :
    coerceCell t s = ScalarValue.coerceToDouble := by
  funext v
  simp [coerceCell, h]

/-- The cell of a boolean operator on operands of type `t`. -/
def booleanCell (op : BooleanOp) (t : DataType) (l r : Result ScalarValue) :
    Result ScalarValue := do
  let l ← l
  let r ← r
  return .ofOptBool (← ScalarValue.compareValue op l r t)

/-- The cell of an arithmetic operator on operands of types `tl` and `tr`. -/
def mathCell (op : MathOp) (tl tr : DataType) (l r : Result ScalarValue) :
    Result ScalarValue := do
  let t ← mathType tl tr
  let l ← coerceCell tl t (← l)
  let r ← coerceCell tr t (← r)
  ScalarValue.evaluateCell op l r t

/-- The cell of an expression in one row. -/
def evalCell [Runtime] (types : List DataType) (row : Row) : Expression → Result ScalarValue
  | column i => do
    let t ← index types i
    let v ← index row i
    if v.isNull then return .null
    else if t.hasBuilder then return v
    else throw (.unsupported "ArrowFieldVector::value")
  | literalLong n => .ok (.int64 n)
  | literalDouble f => .ok (.float64 f)
  | literalString s => .ok (.utf8 s)
  | literalDate d => .ok (.date32 d)
  | literalIntervalDays n => .ok (.int64 n)
  | boolean op l r => do
    let t ← l.dataType types
    booleanCell op t (l.evalCell types row) (r.evalCell types row)
  | math op l r => do
    let tl ← l.dataType types
    let tr ← r.dataType types
    mathCell op tl tr (l.evalCell types row) (r.evalCell types row)
  | cast e t => do
    ScalarValue.cast t (← e.evalCell types row)
  | dateInterval op d i => do
    let date ← d.evalCell types row
    let interval ← i.evalCell types row
    ScalarValue.dateInterval op date interval

end Expression

/-! ## Evaluation by cells -/

/-- The column has `n` cells of type `t`, and reading cell `i` is the computation `f i`. -/
structure ColumnVector.Computes (cv : ColumnVector) (n : ℕ) (t : DataType)
    (f : ℕ → Result ScalarValue) : Prop where
  dataType_eq : cv.dataType = t
  len_eq : cv.len = n
  value_eq : ∀ i < n, cv.value i = f i

/-- A filled builder is a column of the computed values. -/
theorem ArrowVectorBuilder.fill_computes {t : DataType} {n : ℕ} {f : ℕ → Result ScalarValue}
    {a : ArrayRef} (h : fill t n f = .ok a) : (ArrowFieldVector a).Computes n t f := by
  obtain ⟨ht, rfl, rfl, hvalues⟩ := fill_eq_ok_iff.mp h
  refine ⟨rfl, rfl, fun i hi => ?_⟩
  have hcell : a.cells[i]? = some a.cells[i] := List.getElem?_eq_getElem hi
  exact (a.value_eq_ok ht hcell).trans (hvalues i _ hcell).symm

namespace ColumnVector

variable {n : ℕ} {tl tr : DataType} {fl fr : ℕ → Result ScalarValue} {ll rr cv : ColumnVector}

/-- What a column computes depends on its own rows only. -/
theorem Computes.congr {t : DataType} {f g : ℕ → Result ScalarValue} (h : cv.Computes n t f)
    (hfg : ∀ i < n, f i = g i) : cv.Computes n t g :=
  ⟨h.dataType_eq, h.len_eq, fun i hi => (h.value_eq i hi).trans (hfg i hi)⟩

open Expression

/-- A comparison of columns of one type is computed cell by cell. -/
theorem evaluateBoolean_computes {op : BooleanOp} (hl : ll.Computes n tl fl)
    (hr : rr.Computes n tr fr) (h : ll.evaluateBoolean op rr = .ok cv) :
    tl = tr ∧ cv.Computes n .boolean fun i => booleanCell op tl (fl i) (fr i) := by
  unfold evaluateBoolean at h
  rw [hl.len_eq, hr.len_eq, hl.dataType_eq, hr.dataType_eq, if_neg (by simp)] at h
  split at h
  · cases h
  · rename_i htypes
    obtain ⟨a, ha, hcv⟩ := Outcome.bind_eq_ok_iff.mp h
    cases hcv
    refine ⟨not_not.mp htypes, (ArrowVectorBuilder.fill_computes ha).congr fun i hi => ?_⟩
    rw [hl.value_eq i hi, hr.value_eq i hi]
    rfl

/-- It succeeds if it does on every cell. -/
theorem evaluateBoolean_succeeds {op : BooleanOp} (hl : ll.Computes n tl fl)
    (hr : rr.Computes n tl fr) (h : ∀ i < n, Outcome.Succeeds (booleanCell op tl (fl i) (fr i))) :
    Outcome.Succeeds (ll.evaluateBoolean op rr) := by
  unfold evaluateBoolean
  rw [hl.len_eq, hr.len_eq, hl.dataType_eq, hr.dataType_eq, if_neg (by simp), if_neg (by simp)]
  obtain ⟨a, ha⟩ := ArrowVectorBuilder.fill_succeeds (t := .boolean) (n := n) (f := fun i => do
      let l ← ll.value i
      let r ← rr.value i
      return .ofOptBool (← ScalarValue.compareValue op l r tl)) rfl fun i hi => by
    obtain ⟨v, hv⟩ := h i hi
    refine ⟨v, by rw [hl.value_eq i hi, hr.value_eq i hi]; exact hv, ?_⟩
    obtain ⟨_, -, hv⟩ := Outcome.bind_eq_ok_iff.mp hv
    obtain ⟨_, -, hv⟩ := Outcome.bind_eq_ok_iff.mp hv
    obtain ⟨o, -, hv⟩ := Outcome.bind_eq_ok_iff.mp hv
    cases hv
    exact ScalarValue.ofOptBool_fitsIn o
  exact ⟨_, by rw [ha]; rfl⟩

/-- A column is turned into doubles cell by cell. -/
theorem coerceToDouble_computes (h : cv.Computes n tl fl) :
    cv.coerceToDouble.Computes n .float64 fun i => fl i >>= coerceCell tl .float64 := by
  unfold coerceToDouble
  rw [h.dataType_eq]
  split
  · rename_i htl
    refine ⟨h.dataType_eq.trans htl, h.len_eq, fun i hi => ?_⟩
    rw [htl, coerceCell_self, bind_pure, h.value_eq i hi]
  · rename_i htl
    refine ⟨rfl, h.len_eq, fun i hi => ?_⟩
    rw [coerceCell_of_ne htl, ← h.value_eq i hi]

/-- The operands as `evaluate_binary` passes them on. -/
theorem mathEvaluatePair_computes {op : MathOp} {t : DataType} (hl : ll.Computes n t fl)
    (hr : rr.Computes n t fr) (h : ll.mathEvaluatePair op rr = .ok cv) :
    t.hasBuilder ∧ cv.Computes n t (fun i => do
      let l ← fl i
      let r ← fr i
      ScalarValue.evaluateCell op l r t) := by
  unfold mathEvaluatePair at h
  rw [hl.len_eq, hl.dataType_eq] at h
  obtain ⟨a, ha, hcv⟩ := Outcome.bind_eq_ok_iff.mp h
  cases hcv
  refine ⟨(ArrowVectorBuilder.fill_eq_ok_iff.mp ha).1,
    (ArrowVectorBuilder.fill_computes ha).congr fun i hi => ?_⟩
  rw [hl.value_eq i hi, hr.value_eq i hi]

/-- Arithmetic on columns of one type succeeds if it does on every cell. -/
theorem mathEvaluatePair_succeeds {op : MathOp} {t : DataType} (ht : t.hasBuilder)
    (hl : ll.Computes n t fl) (hr : rr.Computes n t fr)
    (h : ∀ i < n, Outcome.Succeeds (do
      let l ← fl i
      let r ← fr i
      ScalarValue.evaluateCell op l r t)) :
    Outcome.Succeeds (ll.mathEvaluatePair op rr) := by
  unfold mathEvaluatePair
  rw [hl.len_eq, hl.dataType_eq]
  obtain ⟨a, ha⟩ := ArrowVectorBuilder.fill_succeeds (n := n) (f := fun i => do
      ScalarValue.evaluateCell op (← ll.value i) (← rr.value i) t) ht fun i hi => by
    obtain ⟨v, hv⟩ := h i hi
    refine ⟨v, by rw [hl.value_eq i hi, hr.value_eq i hi]; exact hv, ?_⟩
    obtain ⟨_, -, hv⟩ := Outcome.bind_eq_ok_iff.mp hv
    obtain ⟨_, -, hv⟩ := Outcome.bind_eq_ok_iff.mp hv
    exact ScalarValue.evaluateCell_fitsIn hv
  exact ⟨_, by rw [ha]; rfl⟩

/-- `evaluate_binary` on two columns: the common type must exist and have a builder. -/
theorem evaluateBinary_computes {op : MathOp} (hl : ll.Computes n tl fl)
    (hr : rr.Computes n tr fr) (h : ll.evaluateBinary op rr = .ok cv) :
    ∃ t, mathType tl tr = .ok t ∧ t.hasBuilder ∧
      cv.Computes n t fun i => mathCell op tl tr (fl i) (fr i) := by
  unfold evaluateBinary at h
  rw [hl.len_eq, hr.len_eq, hl.dataType_eq, hr.dataType_eq, if_neg (by simp)] at h
  by_cases htypes : tl = tr
  · subst htypes
    rw [if_neg (by simp)] at h
    obtain ⟨ht, hcv⟩ := mathEvaluatePair_computes hl hr h
    exact ⟨tl, by simp [mathType], ht, by simpa [mathCell, mathType, coerceCell] using hcv⟩
  · rw [if_pos htypes] at h
    split at h
    · rename_i hnum
      obtain ⟨ht, hcv⟩ := mathEvaluatePair_computes (coerceToDouble_computes hl)
        (coerceToDouble_computes hr) h
      have htype : mathType tl tr = .ok .float64 := by simp [mathType, htypes, hnum]
      exact ⟨.float64, htype, ht, by simpa [mathCell, htype] using hcv⟩
    · cases h

/-- Arithmetic on columns of two types succeeds if it does on every cell. -/
theorem evaluateBinary_succeeds {op : MathOp} {t : DataType} (hl : ll.Computes n tl fl)
    (hr : rr.Computes n tr fr) (htype : mathType tl tr = .ok t) (ht : t.hasBuilder)
    (h : ∀ i < n, Outcome.Succeeds (mathCell op tl tr (fl i) (fr i))) :
    Outcome.Succeeds (ll.evaluateBinary op rr) := by
  unfold evaluateBinary
  rw [hl.len_eq, hr.len_eq, hl.dataType_eq, hr.dataType_eq, if_neg (by simp)]
  by_cases htypes : tl = tr
  · subst htypes
    obtain rfl : tl = t := by simpa [mathType] using htype
    rw [if_neg (by simp)]
    exact mathEvaluatePair_succeeds ht hl hr (by simpa [mathCell, htype, coerceCell] using h)
  · rw [if_pos htypes]
    unfold mathType at htype
    rw [if_neg htypes] at htype
    split at htype
    · rename_i hnum
      cases htype
      rw [if_pos hnum]
      refine mathEvaluatePair_succeeds (t := .float64) rfl (coerceToDouble_computes hl)
        (coerceToDouble_computes hr) ?_
      simpa [mathCell, mathType, htypes, hnum] using h
    · cases htype

/-- A column is cast cell by cell. -/
theorem castTo_computes {t : DataType} (hl : ll.Computes n tl fl) (h : ll.castTo t = .ok cv) :
    t.hasBuilder ∧ cv.Computes n t fun i => fl i >>= ScalarValue.cast t := by
  unfold castTo at h
  rw [hl.len_eq] at h
  obtain ⟨a, ha, hcv⟩ := Outcome.bind_eq_ok_iff.mp h
  cases hcv
  refine ⟨(ArrowVectorBuilder.fill_eq_ok_iff.mp ha).1,
    (ArrowVectorBuilder.fill_computes ha).congr fun i hi => ?_⟩
  rw [hl.value_eq i hi]

/-- A cast succeeds if it does on every cell. -/
theorem castTo_succeeds {t : DataType} (ht : t.hasBuilder) (hl : ll.Computes n tl fl)
    (h : ∀ i < n, Outcome.Succeeds (fl i >>= ScalarValue.cast t)) :
    Outcome.Succeeds (ll.castTo t) := by
  unfold castTo
  rw [hl.len_eq]
  obtain ⟨a, ha⟩ := ArrowVectorBuilder.fill_succeeds (n := n) (f := fun i => do
      ScalarValue.cast t (← ll.value i)) ht fun i hi => by
    obtain ⟨v, hv⟩ := h i hi
    refine ⟨v, by rw [hl.value_eq i hi]; exact hv, ?_⟩
    obtain ⟨_, -, hv⟩ := Outcome.bind_eq_ok_iff.mp hv
    exact ScalarValue.cast_fitsIn hv
  exact ⟨_, by rw [ha]; rfl⟩

/-- Intervals are added to dates cell by cell. -/
theorem evaluateInterval_computes [Runtime] {op : ScalarValue.IntervalOp}
    (hl : ll.Computes n tl fl) (hr : rr.Computes n tr fr)
    (h : ll.evaluateInterval op rr = .ok cv) :
    cv.Computes n .date32 (fun i => do
      let date ← fl i
      let interval ← fr i
      ScalarValue.dateInterval op date interval) := by
  unfold evaluateInterval at h
  rw [hl.len_eq] at h
  obtain ⟨a, ha, hcv⟩ := Outcome.bind_eq_ok_iff.mp h
  cases hcv
  refine (ArrowVectorBuilder.fill_computes ha).congr fun i hi => ?_
  rw [hl.value_eq i hi, hr.value_eq i hi]

/-- That succeeds if it does on every cell. -/
theorem evaluateInterval_succeeds [Runtime] {op : ScalarValue.IntervalOp}
    (hl : ll.Computes n tl fl) (hr : rr.Computes n tr fr)
    (h : ∀ i < n, Outcome.Succeeds (do
      let date ← fl i
      let interval ← fr i
      ScalarValue.dateInterval op date interval)) :
    Outcome.Succeeds (ll.evaluateInterval op rr) := by
  unfold evaluateInterval
  rw [hl.len_eq]
  obtain ⟨a, ha⟩ := ArrowVectorBuilder.fill_succeeds (t := .date32) (n := n) (f := fun i => do
      let date ← ll.value i
      let interval ← rr.value i
      ScalarValue.dateInterval op date interval) rfl fun i hi => by
    obtain ⟨v, hv⟩ := h i hi
    refine ⟨v, by rw [hl.value_eq i hi, hr.value_eq i hi]; exact hv, ?_⟩
    obtain ⟨_, -, hv⟩ := Outcome.bind_eq_ok_iff.mp hv
    obtain ⟨_, -, hv⟩ := Outcome.bind_eq_ok_iff.mp hv
    exact ScalarValue.dateInterval_fitsIn hv
  exact ⟨_, by rw [ha]; rfl⟩

end ColumnVector

namespace Expression

variable [Runtime] {b : RecordBatch}

/-- A column of the batch computes its cells. -/
theorem column_computes {i : ℕ} {cv : ColumnVector} (h : b.field i = .ok cv) :
    ∃ t, (column i).dataType b.types = .ok t ∧
      cv.Computes b.numRows t fun k => (column i).evalCell b.types (b.row k) := by
  obtain ⟨a, ha, hcv⟩ := Outcome.bind_eq_ok_iff.mp h
  cases hcv
  have ha := index_eq_ok_iff.mp ha
  have htype : index b.types i = .ok a.dataType := by
    simp [index_eq_ok_iff, RecordBatch.types, ha]
  refine ⟨a.dataType, htype, rfl, b.lengths a (List.mem_of_getElem? ha), fun k hk => ?_⟩
  have hcell : index (b.row k) i = index a.cells k := by
    have hlt : k < a.cells.length := b.lengths a (List.mem_of_getElem? ha) ▸ hk
    rw [index_of_lt hlt, index_eq_ok_iff, b.row_getElem? hk ha, List.getElem?_eq_getElem hlt]
  simp only [evalCell, htype, hcell, Outcome.ok_bind]
  rfl

omit [Runtime] in
/-- A literal computes its value on every row. -/
theorem literal_computes {t : DataType} {v : ScalarValue} {n : ℕ} :
    (LiteralValueVector t v n).Computes n t fun _ => .ok v :=
  ⟨rfl, rfl, fun i hi => by simp [LiteralValueVector, hi]⟩

/-- An evaluated column has the expression's type, and its cells are the expression's cells. -/
theorem evaluate_computes {e : Expression} {cv : ColumnVector} (h : e.evaluate b = .ok cv) :
    ∃ t, e.dataType b.types = .ok t ∧
      cv.Computes b.numRows t fun k => e.evalCell b.types (b.row k) := by
  -- On the expression; the operands' columns come first, and the operator works on their cells.
  induction e generalizing cv with
  | column i => exact column_computes h
  | literalLong n => cases h; exact ⟨_, rfl, literal_computes⟩
  | literalDouble f => cases h; exact ⟨_, rfl, literal_computes⟩
  | literalString s => cases h; exact ⟨_, rfl, literal_computes⟩
  | literalDate d => cases h; exact ⟨_, rfl, literal_computes⟩
  | literalIntervalDays n => cases h; exact ⟨_, rfl, literal_computes⟩
  | boolean op l r ihl ihr =>
    obtain ⟨ll, hll, h⟩ := Outcome.bind_eq_ok_iff.mp h
    obtain ⟨rr, hrr, h⟩ := Outcome.bind_eq_ok_iff.mp h
    obtain ⟨tl, htl, hl⟩ := ihl hll
    obtain ⟨tr, htr, hr⟩ := ihr hrr
    obtain ⟨rfl, hcv⟩ := ColumnVector.evaluateBoolean_computes hl hr h
    exact ⟨.boolean, by simp [dataType, htl, htr], by simpa [evalCell, htl] using hcv⟩
  | math op l r ihl ihr =>
    obtain ⟨ll, hll, h⟩ := Outcome.bind_eq_ok_iff.mp h
    obtain ⟨rr, hrr, h⟩ := Outcome.bind_eq_ok_iff.mp h
    obtain ⟨tl, htl, hl⟩ := ihl hll
    obtain ⟨tr, htr, hr⟩ := ihr hrr
    obtain ⟨t, htype, ht, hcv⟩ := ColumnVector.evaluateBinary_computes hl hr h
    exact ⟨t, by simp [dataType, htl, htr, htype, built, ht], by simpa [evalCell, htl, htr] using hcv⟩
  | cast e t ih =>
    obtain ⟨ll, hll, h⟩ := Outcome.bind_eq_ok_iff.mp h
    obtain ⟨te, hte, hl⟩ := ih hll
    obtain ⟨ht, hcv⟩ := ColumnVector.castTo_computes hl h
    exact ⟨t, by simp [dataType, hte, built, ht], hcv⟩
  | dateInterval op d i ihd ihi =>
    obtain ⟨ll, hll, h⟩ := Outcome.bind_eq_ok_iff.mp h
    obtain ⟨rr, hrr, h⟩ := Outcome.bind_eq_ok_iff.mp h
    obtain ⟨tl, htl, hl⟩ := ihd hll
    obtain ⟨tr, htr, hr⟩ := ihi hrr
    exact ⟨.date32, by simp [dataType, htl, htr], ColumnVector.evaluateInterval_computes hl hr h⟩

/-- An expression of type `t` that evaluates at all evaluates to a column of its cells. -/
theorem exists_computes {e : Expression} {t : DataType} (ht : e.dataType b.types = .ok t)
    (h : Outcome.Succeeds (e.evaluate b)) :
    ∃ cv, e.evaluate b = .ok cv ∧
      cv.Computes b.numRows t fun k => e.evalCell b.types (b.row k) := by
  obtain ⟨cv, hcv⟩ := h
  obtain ⟨t', ht', hcomp⟩ := evaluate_computes hcv
  obtain rfl : t = t' := by simpa [ht] using ht'
  exact ⟨cv, hcv, hcomp⟩

/-- Evaluation succeeds when the expression has a type and every row has a cell. -/
theorem evaluate_succeeds {e : Expression} {t : DataType} (ht : e.dataType b.types = .ok t)
    (hcells : ∀ k < b.numRows, Outcome.Succeeds (e.evalCell b.types (b.row k))) :
    Outcome.Succeeds (e.evaluate b) := by
  -- An operator panics on no column when it panics on no cell of it and its type is declared.
  induction e generalizing t with
  | column i =>
    have hi := index_succeeds_iff.mp ⟨t, ht⟩
    have hi : i < b.columns.length := by simpa [RecordBatch.types] using hi
    exact ⟨_, by simp only [evaluate, RecordBatch.field, index_of_lt hi]; rfl⟩
  | literalLong n => exact ⟨_, rfl⟩
  | literalDouble f => exact ⟨_, rfl⟩
  | literalString s => exact ⟨_, rfl⟩
  | literalDate d => exact ⟨_, rfl⟩
  | literalIntervalDays n => exact ⟨_, rfl⟩
  | boolean op l r ihl ihr =>
    obtain ⟨tl, htl, ht⟩ := Outcome.bind_eq_ok_iff.mp ht
    obtain ⟨tr, htr, ht⟩ := Outcome.bind_eq_ok_iff.mp ht
    obtain rfl : tl = tr := by
      by_contra hne
      rw [if_pos hne] at ht
      cases ht
    simp only [evalCell, htl, Outcome.ok_bind] at hcells
    obtain ⟨ll, hll, hl⟩ := exists_computes htl (ihl htl fun k hk => (hcells k hk).of_bind)
    obtain ⟨rr, hrr, hr⟩ := exists_computes htr (ihr htr fun k hk => by
      obtain ⟨_, -, h⟩ := Outcome.succeeds_bind_iff.mp (hcells k hk)
      exact h.of_bind)
    simp only [evaluate, hll, hrr, Outcome.ok_bind]
    exact ColumnVector.evaluateBoolean_succeeds hl hr hcells
  | math op l r ihl ihr =>
    obtain ⟨tl, htl, ht⟩ := Outcome.bind_eq_ok_iff.mp ht
    obtain ⟨tr, htr, ht⟩ := Outcome.bind_eq_ok_iff.mp ht
    obtain ⟨tm, htype, ht⟩ := Outcome.bind_eq_ok_iff.mp ht
    obtain ⟨hsup, -⟩ : tm.hasBuilder ∧ tm = t := by
      unfold built at ht
      split at ht <;> simp_all
    simp only [evalCell, htl, htr, Outcome.ok_bind] at hcells
    -- A row's cells are evaluated left operand first, so each operand succeeds on its own.
    have hmath : ∀ k < b.numRows, Outcome.Succeeds (l.evalCell b.types (b.row k)) ∧
        Outcome.Succeeds (r.evalCell b.types (b.row k)) := by
      intro k hk
      obtain ⟨_, -, h⟩ := Outcome.succeeds_bind_iff.mp (hcells k hk)
      obtain ⟨v, hv, h⟩ := Outcome.succeeds_bind_iff.mp h
      obtain ⟨_, -, h⟩ := Outcome.succeeds_bind_iff.mp h
      exact ⟨⟨v, hv⟩, h.of_bind⟩
    obtain ⟨ll, hll, hl⟩ := exists_computes htl (ihl htl fun k hk => (hmath k hk).1)
    obtain ⟨rr, hrr, hr⟩ := exists_computes htr (ihr htr fun k hk => (hmath k hk).2)
    simp only [evaluate, hll, hrr, Outcome.ok_bind]
    exact ColumnVector.evaluateBinary_succeeds hl hr htype hsup hcells
  | cast e t' ih =>
    obtain ⟨te, hte, ht⟩ := Outcome.bind_eq_ok_iff.mp ht
    have hsup : t'.hasBuilder := by
      unfold built at ht
      split at ht <;> simp_all
    obtain ⟨ll, hll, hl⟩ := exists_computes hte (ih hte fun k hk => (hcells k hk).of_bind)
    simp only [evaluate, hll, Outcome.ok_bind]
    exact ColumnVector.castTo_succeeds hsup hl hcells
  | dateInterval op d i ihd ihi =>
    obtain ⟨tl, htl, ht⟩ := Outcome.bind_eq_ok_iff.mp ht
    obtain ⟨tr, htr, ht⟩ := Outcome.bind_eq_ok_iff.mp ht
    obtain ⟨ll, hll, hl⟩ := exists_computes htl (ihd htl fun k hk => (hcells k hk).of_bind)
    obtain ⟨rr, hrr, hr⟩ := exists_computes htr (ihi htr fun k hk => by
      obtain ⟨_, -, h⟩ := Outcome.succeeds_bind_iff.mp (hcells k hk)
      exact h.of_bind)
    simp only [evaluate, hll, hrr, Outcome.ok_bind]
    exact ColumnVector.evaluateInterval_succeeds hl hr hcells

/-! ## Types of cells -/

/-- The cell of an expression fits the expression's type. -/
theorem evalCell_fitsIn {types : List DataType} {row : Row} (hrow : RowFits types row)
    {e : Expression} {t : DataType} {v : ScalarValue} (ht : e.dataType types = .ok t)
    (h : e.evalCell types row = .ok v) : v.FitsIn t := by
  -- A column has a literal cell of the batch; every other expression builds its result under its
  -- type.
  cases e with
  | column i =>
    have ht : index types i = .ok t := ht
    simp only [evalCell, ht, Outcome.ok_bind] at h
    obtain ⟨w, hw, h⟩ := Outcome.bind_eq_ok_iff.mp h
    split at h
    · cases h
      exact .inl rfl
    · split at h
      · rename_i hsup
        cases h
        exact hrow.getElem (index_eq_ok_iff.mp ht) (index_eq_ok_iff.mp hw) hsup
      · cases h
  | literalLong n => cases ht; cases h; exact .inr rfl
  | literalDouble f => cases ht; cases h; exact .inr rfl
  | literalString s => cases ht; cases h; exact .inr rfl
  | literalDate d => cases ht; cases h; exact .inr rfl
  | literalIntervalDays n => cases ht; cases h; exact .inr rfl
  | boolean op l r =>
    obtain ⟨tl, htl, ht⟩ := Outcome.bind_eq_ok_iff.mp ht
    obtain ⟨tr, htr, ht⟩ := Outcome.bind_eq_ok_iff.mp ht
    obtain rfl : .boolean = t := by
      split at ht
      · cases ht
      · simpa using ht
    obtain ⟨_, -, h⟩ := Outcome.bind_eq_ok_iff.mp h
    obtain ⟨_, -, h⟩ := Outcome.bind_eq_ok_iff.mp h
    obtain ⟨_, -, h⟩ := Outcome.bind_eq_ok_iff.mp h
    obtain ⟨o, -, h⟩ := Outcome.bind_eq_ok_iff.mp h
    cases h
    exact ScalarValue.ofOptBool_fitsIn o
  | math op l r =>
    obtain ⟨tl, htl, ht⟩ := Outcome.bind_eq_ok_iff.mp ht
    obtain ⟨tr, htr, ht⟩ := Outcome.bind_eq_ok_iff.mp ht
    obtain ⟨tm, htype, ht⟩ := Outcome.bind_eq_ok_iff.mp ht
    obtain rfl : tm = t := by
      unfold built at ht
      split at ht <;> simp_all
    simp only [evalCell, htl, htr, mathCell, htype, Outcome.ok_bind] at h
    obtain ⟨_, -, h⟩ := Outcome.bind_eq_ok_iff.mp h
    obtain ⟨_, -, h⟩ := Outcome.bind_eq_ok_iff.mp h
    obtain ⟨_, -, h⟩ := Outcome.bind_eq_ok_iff.mp h
    obtain ⟨_, -, h⟩ := Outcome.bind_eq_ok_iff.mp h
    exact ScalarValue.evaluateCell_fitsIn h
  | cast e t' =>
    obtain ⟨te, hte, ht⟩ := Outcome.bind_eq_ok_iff.mp ht
    obtain rfl : t' = t := by
      unfold built at ht
      split at ht <;> simp_all
    obtain ⟨_, -, h⟩ := Outcome.bind_eq_ok_iff.mp h
    exact ScalarValue.cast_fitsIn h
  | dateInterval op d i =>
    obtain ⟨tl, htl, ht⟩ := Outcome.bind_eq_ok_iff.mp ht
    obtain ⟨tr, htr, ht⟩ := Outcome.bind_eq_ok_iff.mp ht
    cases ht
    obtain ⟨_, -, h⟩ := Outcome.bind_eq_ok_iff.mp h
    obtain ⟨_, -, h⟩ := Outcome.bind_eq_ok_iff.mp h
    exact ScalarValue.dateInterval_fitsIn h

end Expression

end RQuery
