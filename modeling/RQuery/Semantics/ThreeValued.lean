import RQuery.Semantics.NestedLoop
import Mathlib.Data.String.Basic

/-!
# Three-valued filters

The condition of a `SelectionExec` is a column of nullable booleans. `Predicate.truth` is what SQL
says of a row: comparisons with NULL are UNKNOWN, AND is the less true and OR the more true of its
operands. `selection_keepsTrue` says that a selection keeps the rows where the condition is TRUE.
-/

namespace RQuery

/-! ## Truth values -/

/-- The truth values of SQL. -/
inductive Truth
  | isFalse
  | unknown
  | isTrue
  deriving DecidableEq, Repr

namespace Truth

/-- FALSE, UNKNOWN, TRUE. -/
def rank : Truth → ℕ
  | isFalse => 0
  | unknown => 1
  | isTrue => 2

/-- The less true. -/
def and (a b : Truth) : Truth := if a.rank ≤ b.rank then a else b

/-- The more true. -/
def or (a b : Truth) : Truth := if a.rank ≤ b.rank then b else a

def ofBool : Bool → Truth
  | true => isTrue
  | false => isFalse

/-- The value of a nullable boolean. -/
def toOption : Truth → Option Bool
  | isFalse => some false
  | unknown => none
  | isTrue => some true

@[simp] theorem toOption_ofBool (b : Bool) : (ofBool b).toOption = some b := by
  cases b <;> rfl

/-- `and3` is the conjunction of three truth values. -/
theorem and3_toOption (a b : Truth) : and3 a.toOption b.toOption = (a.and b).toOption := by
  cases a <;> cases b <;> rfl

/-- `or3` is their disjunction. -/
theorem or3_toOption (a b : Truth) : or3 a.toOption b.toOption = (a.or b).toOption := by
  cases a <;> cases b <;> rfl

end Truth

/-! ## Comparisons -/

/-- The relation that a comparison operator stands for. -/
def CompareOp.relates {α : Type} [LinearOrder α] (op : CompareOp) (a b : α) : Bool :=
  match op with
  | eq => a = b
  | neq => a ≠ b
  | lt => a < b
  | ltEq => a ≤ b
  | gt => b < a
  | gtEq => b ≤ a

/-- On a linear order an operator tests the relation of its name. -/
theorem CompareOp.test_compare {α : Type} [LinearOrder α] (op : CompareOp) (a b : α) :
    op.test (some (compare a b)) = op.relates a b := by
  rcases lt_trichotomy a b with h | rfl | h
  · rw [compare_lt_iff_lt.mpr h]
    cases op <;> simp [test, relates, h, h.le, h.ne, h.not_gt, h.not_ge]
  · rw [compare_eq_iff_eq.mpr rfl]
    cases op <;> simp [test, relates]
  · rw [compare_gt_iff_gt.mpr h]
    cases op <;> simp [test, relates, h, h.le, h.ne', h.not_gt, h.not_ge]

/-- 8 bit numbers are compared as numbers. -/
theorem int8_compare (a b : Int8) : compare a b = compare a.toInt b.toInt := by
  show compareOfLessAndEq a b = compareOfLessAndEq a.toInt b.toInt
  simp only [compareOfLessAndEq, Int8.lt_iff_toInt_lt, Int8.toInt_inj]

/-- So are 16 bit numbers. -/
theorem int16_compare (a b : Int16) : compare a b = compare a.toInt b.toInt := by
  show compareOfLessAndEq a b = compareOfLessAndEq a.toInt b.toInt
  simp only [compareOfLessAndEq, Int16.lt_iff_toInt_lt, Int16.toInt_inj]

/-- So are 32 bit numbers. -/
theorem int32_compare (a b : Int32) : compare a b = compare a.toInt b.toInt := by
  show compareOfLessAndEq a b = compareOfLessAndEq a.toInt b.toInt
  simp only [compareOfLessAndEq, Int32.lt_iff_toInt_lt, Int32.toInt_inj]

/-- So are 64 bit numbers. -/
theorem int64_compare (a b : Int64) : compare a b = compare a.toInt b.toInt := by
  show compareOfLessAndEq a b = compareOfLessAndEq a.toInt b.toInt
  simp only [compareOfLessAndEq, Int64.lt_iff_toInt_lt, Int64.toInt_inj]

section

variable [FloatModel]

/-- What SQL says of a comparison of two cells of one type. -/
def ScalarValue.sqlCompare (op : CompareOp) : ScalarValue → ScalarValue → Truth
  | int8 a, int8 b => .ofBool (op.relates a.toInt b.toInt)
  | int16 a, int16 b => .ofBool (op.relates a.toInt b.toInt)
  | int32 a, int32 b => .ofBool (op.relates a.toInt b.toInt)
  | int64 a, int64 b => .ofBool (op.relates a.toInt b.toInt)
  | utf8 a, utf8 b => .ofBool (op.relates a b)
  | date32 a, date32 b => .ofBool (op.relates a.toInt b.toInt)
  | _, _ => .unknown

/-- `compare_typed!` is the comparison of SQL. -/
theorem ScalarValue.compareTyped_eq {op : CompareOp} {t : DataType} (ht : t.IsKeyType)
    {l r : ScalarValue} (hl : l.FitsIn t) (hr : r.FitsIn t) :
    compareTyped op l r t = .ok (sqlCompare op l r).toOption := by
  have hok : ∀ {α : Type} [LinearOrder α] {o : Ordering} {a b : α}, o = compare a b →
      (Except.ok (some (op.test (some o))) : Result (Option Bool)) =
        .ok (Truth.ofBool (op.relates a b)).toOption := by
    rintro α _ _ a b rfl
    rw [op.test_compare, Truth.toOption_ofBool]
  rcases hl with rfl | hl
  · rcases hr with rfl | hr
    · cases t <;> first | rfl | cases ht
    · cases r <;> cases hr <;> first | rfl | cases ht
  rcases hr with rfl | hr
  · cases l <;> cases hl <;> first | rfl | cases ht
  -- Two values, both of the variant of `t`.
  cases l <;> cases hl <;> first | cases ht; done | skip
  all_goals
    cases r <;> cases hr
    rename_i a b
    first
    | exact hok (int8_compare a b)
    | exact hok (int16_compare a b)
    | exact hok (int32_compare a b)
    | exact hok (int64_compare a b)
    | exact hok rfl

/-! ## Predicates -/

/-- A column or a literal. -/
inductive Operand
  | column (i : ℕ)
  | literalLong (value : Int64)
  | literalString (value : String)
  | literalDate (daysSinceEpoch : Int32)
  | literalIntervalDays (days : Int64)

namespace Operand

def expression : Operand → Expression
  | column i => .column i
  | literalLong n => .literalLong n
  | literalString s => .literalString s
  | literalDate d => .literalDate d
  | literalIntervalDays n => .literalIntervalDays n

def value (row : Row) : Operand → ScalarValue
  | column i => row.getD i .null
  | literalLong n => .int64 n
  | literalString s => .utf8 s
  | literalDate d => .date32 d
  | literalIntervalDays n => .int64 n

/-- The operand is of type `t` in a batch with these column types. -/
def HasType (types : List DataType) (t : DataType) : Operand → Prop
  | column i => types[i]? = some t
  | literalLong _ => t = .int64
  | literalString _ => t = .utf8
  | literalDate _ => t = .date32
  | literalIntervalDays _ => t = .int64

end Operand

/-- Comparisons of columns and literals under AND and OR. -/
inductive Predicate
  | compare (op : CompareOp) (l r : Operand)
  | and (p q : Predicate)
  | or (p q : Predicate)

namespace Predicate

def expression : Predicate → Expression
  | compare op l r => .boolean (.compare op) l.expression r.expression
  | and p q => AndExpression p.expression q.expression
  | or p q => OrExpression p.expression q.expression

/-- Every comparison is of operands of one type, which can be compared and is no float. -/
def WellTyped (types : List DataType) : Predicate → Prop
  | compare _ l r => ∃ t : DataType, t.IsKeyType ∧ l.HasType types t ∧ r.HasType types t
  | and p q => p.WellTyped types ∧ q.WellTyped types
  | or p q => p.WellTyped types ∧ q.WellTyped types

/-- What SQL says of a row. -/
def truth (row : Row) : Predicate → Truth
  | compare op l r => ScalarValue.sqlCompare op (l.value row) (r.value row)
  | and p q => (p.truth row).and (q.truth row)
  | or p q => (p.truth row).or (q.truth row)

end Predicate

omit [FloatModel] in
/-- The types that are compared have builders. -/
theorem DataType.hasBuilder_of_isKeyType {t : DataType} (ht : t.IsKeyType) : t.hasBuilder := by
  cases t <;> first | rfl | cases ht

variable [Runtime]

omit [Runtime] in
/-- An operand is evaluated to its type. -/
theorem Operand.dataType_eq {types : List DataType} {t : DataType} {o : Operand}
    (ho : o.HasType types t) : o.expression.dataType types = .ok t := by
  cases o with
  | column i => exact index_eq_ok_iff.mpr ho
  | literalLong n | literalString s | literalDate d | literalIntervalDays n =>
    obtain rfl := ho
    rfl

/-- An operand is evaluated to its value. -/
theorem Operand.evalCell_eq {types : List DataType} {row : Row} (hrow : RowFits types row)
    {t : DataType} (ht : t.IsKeyType) {o : Operand} (ho : o.HasType types t) :
    o.expression.evalCell types row = .ok (o.value row) ∧ (o.value row).FitsIn t := by
  have hbuilder := DataType.hasBuilder_of_isKeyType ht
  cases o with
  | column i =>
    have hi : i < types.length := (List.getElem?_eq_some_iff.mp ho).1
    have hi : i < row.length := hrow.length_eq ▸ hi
    have hcell : row[i]? = some (row.getD i .null) := by simp [hi]
    refine ⟨?_, hrow.getElem ho hcell hbuilder⟩
    show Expression.evalCell types row (.column i) = _
    rw [Expression.evalCell, index_eq_ok_iff.mpr ho, index_eq_ok_iff.mpr hcell, Outcome.ok_bind,
      Outcome.ok_bind, if_pos hbuilder]
    split
    · rename_i hnull
      rw [Operand.value, ScalarValue.isNull_iff.mp hnull]
      rfl
    · rfl
  | literalLong n | literalString s | literalDate d | literalIntervalDays n =>
    obtain rfl := ho
    exact ⟨rfl, .inr rfl⟩

omit [Runtime] in
@[simp] theorem ScalarValue.asOptBool_ofOptBool (o : Option Bool) :
    (ofOptBool o).asOptBool = .ok o := by
  cases o <;> rfl

omit [Runtime] in
/-- The type of a boolean operator on operands of one type. -/
theorem boolean_dataType {types : List DataType} {op : BooleanOp} {l r : Expression}
    {t : DataType} (hl : l.dataType types = .ok t) (hr : r.dataType types = .ok t) :
    (Expression.boolean op l r).dataType types = .ok .boolean := by
  rw [Expression.dataType, hl, hr, Outcome.ok_bind, Outcome.ok_bind, if_neg (not_not.mpr rfl)]
  rfl

/-- A comparison of two cells is the comparison of their values. -/
theorem boolean_evalCell {types : List DataType} {row : Row} {op : BooleanOp} {l r : Expression}
    {t : DataType} {v w : ScalarValue} {o : Option Bool} (ht : l.dataType types = .ok t)
    (hl : l.evalCell types row = .ok v) (hr : r.evalCell types row = .ok w)
    (ho : ScalarValue.compareValue op v w t = .ok o) :
    (Expression.boolean op l r).evalCell types row = .ok (.ofOptBool o) := by
  rw [Expression.evalCell, ht, hl, hr, Outcome.ok_bind, Expression.booleanCell, Outcome.ok_bind,
    Outcome.ok_bind, ho]
  rfl

omit [Runtime] in
/-- A predicate is evaluated to truth values. -/
theorem Predicate.dataType_eq {types : List DataType} {p : Predicate} (hp : p.WellTyped types) :
    p.expression.dataType types = .ok .boolean := by
  induction p with
  | compare op l r =>
    obtain ⟨t, -, hl, hr⟩ := hp
    exact boolean_dataType (Operand.dataType_eq hl) (Operand.dataType_eq hr)
  | and p q ihp ihq | or p q ihp ihq => exact boolean_dataType (ihp hp.1) (ihq hp.2)

/-- A predicate is evaluated to its truth, UNKNOWN being null. -/
theorem Predicate.evalCell_eq {types : List DataType} {row : Row} (hrow : RowFits types row)
    {p : Predicate} (hp : p.WellTyped types) :
    p.expression.evalCell types row = .ok (.ofOptBool (p.truth row).toOption) := by
  induction p with
  | compare op l r =>
    obtain ⟨t, ht, hl, hr⟩ := hp
    obtain ⟨hlcell, hlfits⟩ := Operand.evalCell_eq hrow ht hl
    obtain ⟨hrcell, hrfits⟩ := Operand.evalCell_eq hrow ht hr
    exact boolean_evalCell (Operand.dataType_eq hl) hlcell hrcell
      (ScalarValue.compareTyped_eq ht hlfits hrfits)
  | and p q ihp ihq =>
    refine boolean_evalCell (dataType_eq hp.1) (ihp hp.1) (ihq hp.2) ?_
    rw [truth, ← Truth.and3_toOption, ScalarValue.compareValue, ScalarValue.asOptBool_ofOptBool,
      ScalarValue.asOptBool_ofOptBool]
    rfl
  | or p q ihp ihq =>
    refine boolean_evalCell (dataType_eq hp.1) (ihp hp.1) (ihq hp.2) ?_
    rw [truth, ← Truth.or3_toOption, ScalarValue.compareValue, ScalarValue.asOptBool_ofOptBool,
      ScalarValue.asOptBool_ofOptBool]
    rfl

/-! ## Selections -/

omit [Runtime] in
/-- A filter keeps the rows of which the predicate is true. -/
theorem keepTrue_truth (p : Predicate) (rows : List Row) :
    keepTrue rows (rows.map fun r => .ofOptBool (p.truth r).toOption) =
      rows.filter fun r => p.truth r = .isTrue := by
  induction rows with
  | nil => rfl
  | cons r rows ih =>
    unfold keepTrue at ih ⊢
    rw [List.map_cons, List.zip_cons_cons, List.filter_cons, List.filter_cons]
    cases p.truth r <;> simpa [Truth.toOption, ScalarValue.ofOptBool] using ih

/-- A filtered batch holds the rows where the predicate is TRUE. -/
theorem filterBatch_keepsTrue {p : Predicate} {b : RecordBatch} (hp : p.WellTyped b.schema.types)
    (hne : b.schema.fields ≠ []) (hbuilder : ∀ t ∈ b.schema.types, t.hasBuilder) :
    ∃ out, filterBatch b.schema p.expression b = .ok out ∧ out.schema = b.schema ∧
      out.rows = b.rows.filter fun r => p.truth r = .isTrue := by
  have htypes := b.types_eq_schema
  have hcells : b.rows.mapM (p.expression.evalCell b.types) =
      .ok (b.rows.map fun r => .ofOptBool (p.truth r).toOption) := by
    rw [htypes]
    exact Outcome.mapM_eq_ok_map fun r hr => Predicate.evalCell_eq (b.rows_fit r hr) hp
  have hfits : ∀ r ∈ b.rows.filter fun r => p.truth r = .isTrue, RowFits b.schema.types r :=
    fun r hr => b.rows_fit r (List.mem_of_mem_filter hr)
  have hrows := RecordBatch.ofRows_rows b.schema _ hfits
  refine ⟨.ofRows b.schema _ hfits, filterBatch_eq_ok_iff.mpr ?_, rfl, hrows⟩
  refine ⟨⟨_, Predicate.dataType_eq (htypes ▸ hp)⟩, _, hcells, rfl, htypes, hne, hbuilder, ?_⟩
  rw [hrows, keepTrue_truth]

variable [Readers]

/-- A selection keeps, of every batch, the rows where its condition is TRUE, in order. -/
theorem selection_keepsTrue {ctx : ExecutorContext} {input : PhysicalPlan} {schema : Schema}
    (hschema : input.schema = .ok schema) {batches : List RecordBatch}
    (hinput : input.execute ctx = .ok (batches.map .ok)) (hbatches : ∀ b ∈ batches, b.schema = schema)
    (hne : schema.fields ≠ []) (hbuilder : ∀ t ∈ schema.types, t.hasBuilder)
    {p : Predicate} (hp : p.WellTyped schema.types) :
    ∃ out : List RecordBatch,
      (PhysicalPlan.selection input p.expression).execute ctx = .ok (out.map .ok) ∧
      List.Forall₂ (fun b o => o.schema = schema ∧
        o.rows = b.rows.filter fun r => p.truth r = .isTrue) batches out := by
  have hfilter : ∀ b ∈ batches, ∃ out, filterBatch schema p.expression b = .ok out ∧
      out.schema = schema ∧ out.rows = b.rows.filter fun r => p.truth r = .isTrue := by
    intro b hb
    obtain rfl := hbatches b hb
    exact filterBatch_keepsTrue hp hne hbuilder
  choose! filtered hfiltered hkeeps using hfilter
  refine ⟨batches.map filtered, ?_, ?_⟩
  · rw [PhysicalPlan.execute, hschema, hinput, Outcome.ok_bind, Outcome.ok_bind, Outcome.pure_eq_ok]
    rw [List.map_map, List.map_map]
    exact congrArg _ (List.map_congr_left fun b hb => hfiltered b hb)
  · exact List.forall₂_map_right_iff.mpr (List.forall₂_same.mpr hkeeps)

end

section UnknownComparisons

attribute [local instance] integerFloats insertionOrderRuntime

local instance noFilteredFiles : Readers := parquetDisk fun _ => none

/-- A null among two numbers. -/
def nullAmongNumbers : RecordBatch where
  schema := ⟨[⟨"n", .int64⟩]⟩
  columns := [⟨.int64, [.int64 1, .null, .int64 3], ArrayRef.fits_of_forall (by decide)⟩]
  numRows := 3
  types_eq := by decide
  lengths := by decide

/-- `n <> 3 OR 2 < n` is UNKNOWN of the null. -/
def unknownPredicate : Predicate :=
  .or (.compare .neq (.column 0) (.literalLong 3)) (.compare .lt (.literalLong 2) (.column 0))

/-- A row whose predicate is unknown is dropped. -/
theorem selection_keepsTrue_unknown :
    ∃ out : List RecordBatch,
      (PhysicalPlan.selection (.inMemory nullAmongNumbers.schema [nullAmongNumbers])
          unknownPredicate.expression).execute ⟨"", "", 0, ⟨[]⟩⟩ = .ok (out.map .ok) ∧
        List.Forall₂ (fun b o => o.schema = nullAmongNumbers.schema ∧
          o.rows = b.rows.filter fun r => unknownPredicate.truth r = .isTrue)
          [nullAmongNumbers] out :=
  selection_keepsTrue rfl rfl (by simp) (by decide) (by decide)
    ⟨⟨.int64, rfl, rfl, rfl⟩, ⟨.int64, rfl, rfl, rfl⟩⟩

/-- The first row and the last. -/
example : (nullAmongNumbers.rows.filter fun r => unknownPredicate.truth r = .isTrue) =
    [[.int64 1], [.int64 3]] := by decide

end UnknownComparisons

end RQuery
