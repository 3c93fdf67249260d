import RQuery.Semantics.Agreement
import RQuery.QueryPlanner.QueryPlanner
import RQuery.Physical.MergeHomomorphism

/-!
# Declared types

`to_field` gives a sum the type of its left operand, while evaluation takes operands of different
types to doubles. `evaluate_dataType_iff` says for which expressions the two rules agree: those whose
arithmetic starts with a double, or takes operands of one type. An interval literal is declared as
an interval and evaluated as an `i64`.

`AggregateExpr::to_field` gives an aggregate the type of its argument, which is the type of what the
accumulator returns unless it is AVG (`finalValue_declared_iff`).
-/

namespace RQuery

section

variable [FloatModel]

namespace LogicalExpr

/-- What the arithmetic at the top of an expression is applied to. -/
def operands : LogicalExpr → List LogicalExpr
  | binary op l r => if op.isMath then operands l ++ operands r else [binary op l r]
  | aliased e _ => operands e
  | e => [e]

/-- The leftmost operand. -/
def firstOperand : LogicalExpr → LogicalExpr
  | binary op l r => if op.isMath then firstOperand l else binary op l r
  | aliased e _ => firstOperand e
  | e => e

/-- The type that an operand is evaluated to. An interval literal is a number of days. -/
def operandType (input : Result Schema) : LogicalExpr → Result DataType
  | literalIntervalDays _ => .ok .int64
  | e => do return (← e.toField input).dataType

/-- No interval comes first, and the operands are all of the type of the first one, unless that is
a double, which it stays. -/
structure KeepsType (input : Result Schema) (e : LogicalExpr) : Prop where
  notInterval : ∀ days, e.firstOperand ≠ literalIntervalDays days
  sameType : e.firstOperand.operandType input = .ok .float64 ∨
    ∀ o ∈ e.operands, o.operandType input = e.firstOperand.operandType input

/-- The first operand is an operand. -/
theorem firstOperand_mem (e : LogicalExpr) : e.firstOperand ∈ e.operands := by
  induction e with
  | binary op l r ihl _ =>
    unfold firstOperand operands
    split
    · exact List.mem_append_left _ ihl
    · exact List.mem_singleton_self _
  | aliased e name ih => exact ih
  | _ => exact List.mem_singleton_self _

/-- `t` is the type of the first operand or a double, and the former exactly when all operands are of
one type. The declared type is that of the first operand. -/
structure Evaluates (input : Result Schema) (e : LogicalExpr) (t : DataType) : Prop where
  typed : ∃ first, e.firstOperand.operandType input = .ok first ∧ (t = first ∨ t = .float64) ∧
    (t = first ↔ first = .float64 ∨ ∀ o ∈ e.operands, o.operandType input = .ok first)
  declared : ∃ field, e.toField input = .ok field ∧
    ∃ first, e.firstOperand.toField input = .ok first ∧ first.dataType = field.dataType

/-- An operand is of its declared type. -/
theorem evaluates_operand {input : Result Schema} {e : LogicalExpr} (field : Field)
    (hfirst : e.firstOperand = e) (hoperands : e.operands = [e])
    (hinterval : ∀ days, e ≠ literalIntervalDays days) (hfield : e.toField input = .ok field) :
    e.Evaluates input field.dataType := by
  have htype : e.operandType input = .ok field.dataType := by
    unfold operandType
    split
    · exact absurd rfl (hinterval _)
    · rw [hfield]
      rfl
  refine ⟨⟨field.dataType, by rwa [hfirst], .inl rfl, ?_⟩, field, hfield, field, ?_, rfl⟩
  swap
  · rwa [hfirst]
  rw [hoperands]
  exact iff_of_true rfl (.inr fun o ho => List.mem_singleton.mp ho ▸ htype)

/-- Arithmetic on operands of their types. -/
theorem evaluates_math {input : Result Schema} {op : BinaryOp} (hop : op.isMath)
    {l r : LogicalExpr} {tl tr t : DataType} (hl : l.Evaluates input tl) (hr : r.Evaluates input tr)
    (ht : Expression.mathType tl tr = .ok t) : (binary op l r).Evaluates input t := by
  obtain ⟨⟨fl, hfl, hlor, hliff⟩, field, hfield, hdeclared⟩ := hl
  obtain ⟨⟨fr, hfr, hror, hriff⟩, -⟩ := hr
  have hfirst : (binary op l r).firstOperand = l.firstOperand := by
    rw [firstOperand, if_pos hop]
  have hoperands : (binary op l r).operands = l.operands ++ r.operands := by
    rw [operands, if_pos hop]
  -- Arithmetic keeps a common type and turns two different ones into a double.
  have hmath : tl = tr ∧ t = tl ∨ tl ≠ tr ∧ t = .float64 := by
    unfold Expression.mathType at ht
    split at ht
    · rename_i heq
      exact .inl ⟨heq, (Except.ok.inj ht).symm⟩
    · rename_i hne
      split at ht
      · exact .inr ⟨hne, (Except.ok.inj ht).symm⟩
      · cases ht
  have htoField : (binary op l r).toField input = .ok ⟨op.fieldName, field.dataType⟩ := by
    rw [toField, if_pos hop, hfield]
    rfl
  refine ⟨⟨fl, by rw [hfirst, hfl], ?_, ?_⟩, _, htoField, by rwa [hfirst]⟩
  · rcases hmath with ⟨-, rfl⟩ | ⟨-, rfl⟩
    · exact hlor
    · exact .inr rfl
  · rw [hoperands, List.forall_mem_append]
    by_cases hdouble : fl = .float64
    · -- A double stays a double.
      have htl : tl = .float64 := by
        rcases hlor with h | h
        · exact h.trans hdouble
        · exact h
      refine iff_of_true ?_ (.inl hdouble)
      rcases hmath with ⟨-, rfl⟩ | ⟨-, rfl⟩
      · exact htl.trans hdouble.symm
      · exact hdouble.symm
    · constructor
      · intro htfl
        obtain ⟨htr, htl⟩ : tl = tr ∧ t = tl :=
          hmath.resolve_right fun h => hdouble (htfl.symm.trans h.2)
        have hfirstl : tl = fl := htl.symm.trans htfl
        have hfirstr : tr = fl := htr.symm.trans hfirstl
        obtain rfl : fl = fr := by
          rcases hror with h | h
          · exact hfirstr.symm.trans h
          · exact absurd (hfirstr.symm.trans h) hdouble
        exact .inr ⟨(hliff.mp hfirstl).resolve_left hdouble,
          (hriff.mp hfirstr).resolve_left hdouble⟩
      · intro h
        obtain ⟨halll, hallr⟩ := h.resolve_left hdouble
        have htl : tl = fl := hliff.mpr (.inr halll)
        obtain rfl : fl = fr := by
          have := (hallr _ r.firstOperand_mem).symm.trans hfr
          exact Except.ok.inj this
        have htr : tr = fl := hriff.mpr (.inr hallr)
        rcases hmath with ⟨-, rfl⟩ | ⟨hne, -⟩
        · exact htl
        · exact absurd (htl.trans htr.symm) hne

end LogicalExpr

/-- Arithmetic is lowered to arithmetic. -/
theorem BinaryOp.createExpression_math {op : BinaryOp} (hop : op.isMath) {l r e : Expression}
    (h : op.createExpression l r = .ok e) : ∃ mathOp, e = .math mathOp l r := by
  cases op
  case add | subtract | multiply | divide => exact ⟨_, (Except.ok.inj h).symm⟩
  case modulus => cases h
  all_goals cases hop

/-- An operator that is not arithmetic makes a comparison. -/
theorem BinaryOp.createExpression_boolean {op : BinaryOp} (hop : ¬ op.isMath) {l r e : Expression}
    (h : op.createExpression l r = .ok e) : ∃ booleanOp, e = .boolean booleanOp l r := by
  cases op
  case add | subtract | multiply | divide | modulus => exact absurd rfl hop
  all_goals exact ⟨_, (Except.ok.inj h).symm⟩

/-- A lowered expression is evaluated to the type of its operands. -/
theorem createPhysicalExpr_evaluates {s : Schema} {e : LogicalExpr} {expr : Expression}
    (h : createPhysicalExpr (.ok s) e = .ok expr) {t : DataType}
    (ht : expr.dataType s.types = .ok t) : e.Evaluates (.ok s) t := by
  -- On the expression, against its lowering: only arithmetic computes its type from its operands.
  induction e generalizing expr t with
  | column name =>
    obtain ⟨i, hi, rfl⟩ := Outcome.bind_pure_eq_ok_iff.mp h
    have hposition : s.position? name = some i := by
      unfold fieldPosition at hi
      cases hpos : s.position? name with
      | none => simp [hpos] at hi
      | some j => simpa [hpos] using hi
    obtain ⟨⟨field, hfield, -⟩, -⟩ := Schema.position?_eq_some_iff.mp hposition
    obtain rfl : field.dataType = t := by
      have htype := index_eq_ok_iff.mp ht
      simpa [Schema.types, hfield] using htype
    refine LogicalExpr.evaluates_operand field rfl rfl (fun _ => by simp) ?_
    have hfind : s.fields.find? (fun f => f.name = name) = some field :=
      field?_of_position? hposition hfield
    show LogicalExpr.findField s name = _
    rw [LogicalExpr.findField, hfind]
  | columnIndex i =>
    cases h
    have htype := index_eq_ok_iff.mp ht
    rw [Schema.types, List.getElem?_map, Option.map_eq_some_iff] at htype
    obtain ⟨field, hfield, rfl⟩ := htype
    exact LogicalExpr.evaluates_operand field rfl rfl (fun _ => by simp) (index_eq_ok_iff.mpr hfield)
  | literalIntervalDays days =>
    cases h
    cases ht
    refine ⟨⟨.int64, rfl, .inl rfl, iff_of_true rfl (.inr fun o ho => ?_)⟩, _, rfl, _, rfl, rfl⟩
    exact List.mem_singleton.mp ho ▸ rfl
  | binary op l r ihl ihr =>
    obtain ⟨le, hl, h⟩ := Outcome.bind_eq_ok_iff.mp h
    obtain ⟨re, hr, h⟩ := Outcome.bind_eq_ok_iff.mp h
    by_cases hop : op.isMath
    · obtain ⟨mathOp, rfl⟩ := BinaryOp.createExpression_math hop h
      obtain ⟨tl, htl, ht⟩ := Outcome.bind_eq_ok_iff.mp ht
      obtain ⟨tr, htr, ht⟩ := Outcome.bind_eq_ok_iff.mp ht
      obtain ⟨tm, htm, ht⟩ := Outcome.bind_eq_ok_iff.mp ht
      obtain rfl : tm = t := by
        unfold Expression.built at ht
        split at ht
        · exact Except.ok.inj ht
        · cases ht
      exact LogicalExpr.evaluates_math hop (ihl hl htl) (ihr hr htr) htm
    · obtain ⟨booleanOp, rfl⟩ := BinaryOp.createExpression_boolean hop h
      obtain rfl : .boolean = t := by
        obtain ⟨tl, htl, ht⟩ := Outcome.bind_eq_ok_iff.mp ht
        obtain ⟨tr, htr, ht⟩ := Outcome.bind_eq_ok_iff.mp ht
        split at ht
        · cases ht
        · exact Except.ok.inj ht
      refine LogicalExpr.evaluates_operand ⟨op.fieldName, .boolean⟩ ?_ ?_ (fun _ => by simp) ?_
      · rw [LogicalExpr.firstOperand, if_neg hop]
      · rw [LogicalExpr.operands, if_neg hop]
      · rw [LogicalExpr.toField, if_neg hop]
  | aliased e name ih =>
    obtain ⟨htyped, field, hfield, hdeclared⟩ := ih h ht
    exact ⟨htyped, ⟨name, field.dataType⟩, by rw [LogicalExpr.toField, hfield]; rfl, hdeclared⟩
  | cast e target ih =>
    obtain ⟨inner, hinner, rfl⟩ := Outcome.bind_pure_eq_ok_iff.mp h
    obtain ⟨te, hte, ht⟩ := Outcome.bind_eq_ok_iff.mp ht
    obtain rfl : target = t := by
      unfold Expression.built at ht
      split at ht
      · exact Except.ok.inj ht
      · cases ht
    obtain ⟨-, field, hfield, -⟩ := ih hinner hte
    exact LogicalExpr.evaluates_operand ⟨field.name, target⟩ rfl rfl (fun _ => by simp)
      (by rw [LogicalExpr.toField, hfield]; rfl)
  | dateSubtractInterval date interval =>
    obtain ⟨d, hd, h⟩ := Outcome.bind_eq_ok_iff.mp h
    obtain ⟨i, hi, rfl⟩ := Outcome.bind_pure_eq_ok_iff.mp h
    obtain rfl : .date32 = t := by
      obtain ⟨_, -, ht⟩ := Outcome.bind_eq_ok_iff.mp ht
      obtain ⟨_, -, ht⟩ := Outcome.bind_eq_ok_iff.mp ht
      exact Except.ok.inj ht
    exact LogicalExpr.evaluates_operand ⟨"date_subtract", .date32⟩ rfl rfl
      (fun _ => by simp) rfl
  | dateAddInterval date interval =>
    obtain ⟨d, hd, h⟩ := Outcome.bind_eq_ok_iff.mp h
    obtain ⟨i, hi, rfl⟩ := Outcome.bind_pure_eq_ok_iff.mp h
    obtain rfl : .date32 = t := by
      obtain ⟨_, -, ht⟩ := Outcome.bind_eq_ok_iff.mp ht
      obtain ⟨_, -, ht⟩ := Outcome.bind_eq_ok_iff.mp ht
      exact Except.ok.inj ht
    exact LogicalExpr.evaluates_operand ⟨"date_add", .date32⟩ rfl rfl
      (fun _ => by simp) rfl
  | literalFloat f => cases h
  | not e => cases h
  | scalarFunction name t => cases h
  | aggregateExpr fn e => cases h
  | literalLong n =>
    cases h
    cases ht
    exact LogicalExpr.evaluates_operand ⟨toString n, .int64⟩ rfl rfl (fun _ => by simp)
      rfl
  | literalDouble f =>
    cases h
    cases ht
    exact LogicalExpr.evaluates_operand ⟨FloatModel.double.display f, .float64⟩ rfl rfl
      (fun _ => by simp) rfl
  | literalString text =>
    cases h
    cases ht
    exact LogicalExpr.evaluates_operand ⟨text, .utf8⟩ rfl rfl (fun _ => by simp) rfl
  | literalDate date =>
    cases h
    cases ht
    exact LogicalExpr.evaluates_operand ⟨date.display, .date32⟩ rfl rfl
      (fun _ => by simp) rfl

namespace LogicalExpr

/-- The type of evaluation is the declared one exactly for expressions that keep their type. -/
theorem Evaluates.eq_iff {input : Result Schema} {e : LogicalExpr} {t : DataType}
    (h : e.Evaluates input t) :
    (∃ field, e.toField input = .ok field ∧ t = field.dataType) ↔ e.KeepsType input := by
  obtain ⟨⟨first, hfirst, hor, hiff⟩, field, hfield, declared, hdeclared, htype⟩ := h
  have hunique : (∃ f, e.toField input = .ok f ∧ t = f.dataType) ↔ t = field.dataType := by
    constructor
    · rintro ⟨f, hf, rfl⟩
      rw [Except.ok.inj (hfield.symm.trans hf)]
    · exact fun h => ⟨field, hfield, h⟩
  rw [hunique]
  by_cases hinterval : ∃ days, e.firstOperand = literalIntervalDays days
  · -- Declared as an interval, evaluated as a number.
    obtain ⟨days, hdays⟩ := hinterval
    rw [hdays] at hfirst hdeclared
    cases hfirst
    cases hdeclared
    refine iff_of_false ?_ fun h => h.notInterval days hdays
    rw [← htype]
    rcases hor with rfl | rfl <;> simp
  · have hoperand : e.firstOperand.operandType input = .ok declared.dataType := by
      unfold operandType
      split
      · rename_i days hdays
        exact absurd ⟨days, hdays⟩ hinterval
      · rw [hdeclared]
        rfl
    obtain rfl : first = field.dataType := by
      rw [hfirst] at hoperand
      exact (Except.ok.inj hoperand).trans htype
    rw [hiff]
    constructor
    · intro hsame
      refine ⟨fun days hdays => hinterval ⟨days, hdays⟩, ?_⟩
      rw [hfirst]
      exact hsame.imp (congrArg Except.ok) id
    · intro hkeeps
      rw [← hfirst]
      exact hkeeps.sameType.imp (fun h => Except.ok.inj (hfirst.symm.trans h)) id

end LogicalExpr

variable [Readers] [Runtime]

/-- The column that an expression evaluates to is of the declared type exactly when the expression
keeps its type. -/
theorem evaluate_dataType_iff {P : LogicalPlan} {e : LogicalExpr} {expr : Expression}
    (h : createPhysicalExpr P.schema e = .ok expr) {b : RecordBatch}
    (hb : P.schema = .ok b.schema) {column : ColumnVector} (hcolumn : expr.evaluate b = .ok column) :
    (∃ field, e.toField P.schema = .ok field ∧ column.dataType = field.dataType) ↔
      e.KeepsType P.schema := by
  obtain ⟨t, ht, hcomputes⟩ := Expression.evaluate_computes hcolumn
  rw [hcomputes.dataType_eq]
  rw [hb] at h ⊢
  rw [RecordBatch.types_eq_schema] at ht
  exact (createPhysicalExpr_evaluates h ht).eq_iff

end

section MixedSum

attribute [local instance] integerFloats insertionOrderRuntime

local instance noDeclaredFiles : Readers := parquetDisk fun _ => none

/-- A scan of one 32-bit column. -/
def numbersScan : LogicalPlan := .scan (countingScan ["n"] (by decide))

/-- `n + 1` is declared a 32-bit integer and evaluated to doubles, on which the projection panics. -/
theorem evaluate_dataType_mixedSum :
    createPhysicalExpr numbersScan.schema (.binary .add (.column "n") (.literalLong 1)) =
        .ok (AddExpression (.column 0) (.literalLong 1)) ∧
      numbersScan.schema = .ok countingBatch.schema ∧
      LogicalExpr.toField numbersScan.schema (.binary .add (.column "n") (.literalLong 1)) =
        .ok ⟨"add", .int32⟩ ∧
      ((AddExpression (.column 0) (.literalLong 1)).evaluate countingBatch).map
        ColumnVector.dataType = .ok .float64 ∧
      projectBatch ⟨[⟨"add", .int32⟩]⟩ [AddExpression (.column 0) (.literalLong 1)] countingBatch =
        .error (.invalidBatch "column types must match schema types") := by
  refine ⟨rfl, by decide, by decide, by decide, by decide⟩

/-- The condition for a number doubled. -/
theorem evaluate_dataType_iff_double :
    (∃ field, LogicalExpr.toField numbersScan.schema
        (.binary .add (.column "n") (.column "n")) = .ok field ∧
        (ArrowFieldVector (Int32Array [2, 4])).dataType = field.dataType) ↔
      LogicalExpr.KeepsType numbersScan.schema (.binary .add (.column "n") (.column "n")) :=
  evaluate_dataType_iff (b := countingBatch) rfl rfl rfl

end MixedSum

/-! ## Aggregates -/

section

variable [FloatModel] [Readers] [Runtime]

omit [Readers] [Runtime] in
/-- A sum fits the type of its operands. -/
theorem ScalarValue.scalarAdd_fitsIn {a b c : ScalarValue} {t : DataType} (ha : a.FitsIn t)
    (h : a.scalarAdd b = .ok c) : c.FitsIn t := by
  cases a
  case null => cases h
  all_goals
    obtain rfl := ha.dataType_eq (by simp)
    cases b
  all_goals
    first
    | cases h; done
    | exact Except.ok.inj h ▸ .inr rfl

omit [Readers] [Runtime] in
/-- The better of two values fits their type. -/
theorem Accumulator.better_fitsIn {o : Ordering} {current v w : ScalarValue} {t : DataType}
    (hcurrent : current.FitsIn t) (hv : v.FitsIn t) (h : better o current v = .ok w) :
    w.FitsIn t := by
  unfold better at h
  split at h
  · exact Except.ok.inj h ▸ hcurrent
  · split at h
    · exact Except.ok.inj h ▸ hv
    · obtain ⟨c, -, rfl⟩ := Outcome.bind_pure_eq_ok_iff.mp h
      split
      · exact hv
      · exact hcurrent

namespace Accumulator

/-- The accumulator of a function after values of type `t`, `n` of them not null. The counters
wrap. -/
inductive Holds (t : DataType) : AggregateFunction → ℕ → Accumulator → Prop
  | sum {n : ℕ} {v : ScalarValue} (h : v.FitsIn t) : Holds t .sum n (sum v)
  | min {n : ℕ} {v : ScalarValue} (h : v.FitsIn t) : Holds t .min n (min v)
  | max {n : ℕ} {v : ScalarValue} (h : v.FitsIn t) : Holds t .max n (max v)
  | avg (n : ℕ) (s : F64) : Holds t .avg n (avg s (Int32.ofInt n))
  | count (n : ℕ) : Holds t .count n (count (Int32.ofInt n))

variable {t : DataType} {f : AggregateFunction}

omit [Readers] [Runtime] in
/-- A new accumulator holds no values. -/
theorem holds_create (f : AggregateFunction) : Holds t f 0 (create f) := by
  cases f with
  | sum => exact .sum (ScalarValue.null_fitsIn t)
  | min => exact .min (ScalarValue.null_fitsIn t)
  | max => exact .max (ScalarValue.null_fitsIn t)
  | avg => exact .avg 0 _
  | count => exact .count 0

omit [FloatModel] [Readers] in
/-- A counter that is counted up is the next number, wrapped. -/
theorem checkedInt32_succ {n : ℕ} {m : Int32}
    (h : Runtime.checkedInt32 ((Int32.ofInt n).toInt + 1) = .ok m) : m = Int32.ofInt (n + 1 : ℕ) := by
  obtain ⟨-, rfl⟩ := Runtime.checkedInt32_eq_ok_iff.mp h
  rw [Int32.ofInt_add, Int32.ofInt_toInt, ← Int32.ofInt_add]
  norm_cast

omit [Readers] in
/-- An accumulator holds one value more, unless it was null. -/
theorem Holds.accumulate {n : ℕ} {acc acc' : Accumulator} (h : Holds t f n acc) {v : ScalarValue}
    (hv : v.FitsIn t) (hacc : acc.accumulate v = .ok acc') :
    Holds t f (n + if v.isNull then 0 else 1) acc' := by
  -- What an accumulator holds comes from a cell it was given, or from adding two such.
  cases h with
  | @sum _ current hcurrent =>
    rw [Accumulator.accumulate] at hacc
    split at hacc
    · exact Except.ok.inj hacc ▸ .sum hcurrent
    · split at hacc
      · exact Except.ok.inj hacc ▸ .sum hv
      · obtain ⟨c, hc, rfl⟩ := Outcome.bind_pure_eq_ok_iff.mp hacc
        exact .sum (ScalarValue.scalarAdd_fitsIn hcurrent hc)
  | min hcurrent =>
    obtain ⟨c, hc, rfl⟩ := Outcome.bind_pure_eq_ok_iff.mp hacc
    exact .min (better_fitsIn hcurrent hv hc)
  | max hcurrent =>
    obtain ⟨c, hc, rfl⟩ := Outcome.bind_pure_eq_ok_iff.mp hacc
    exact .max (better_fitsIn hcurrent hv hc)
  | avg _ s =>
    rw [Accumulator.accumulate] at hacc
    split at hacc
    · rename_i hnull
      rw [if_pos hnull]
      exact Except.ok.inj hacc ▸ .avg n s
    · rename_i hnull
      obtain ⟨m, hm, hacc⟩ := Outcome.bind_eq_ok_iff.mp hacc
      obtain ⟨x, -, rfl⟩ := Outcome.bind_pure_eq_ok_iff.mp hacc
      rw [if_neg hnull, checkedInt32_succ hm]
      exact .avg (n + 1) _
  | count _ =>
    rw [Accumulator.accumulate] at hacc
    split at hacc
    · rename_i hnull
      rw [if_pos hnull]
      exact Except.ok.inj hacc ▸ .count n
    · rename_i hnull
      obtain ⟨m, hm, rfl⟩ := Outcome.bind_pure_eq_ok_iff.mp hacc
      rw [if_neg hnull, checkedInt32_succ hm]
      exact .count (n + 1)

omit [Readers] in
/-- A run of accumulations. -/
theorem Holds.foldlM {vs : List ScalarValue} {n : ℕ} {acc acc' : Accumulator}
    (h : Holds t f n acc) (hvs : ∀ v ∈ vs, v.FitsIn t)
    (hacc : vs.foldlM Accumulator.accumulate acc = .ok acc') :
    Holds t f (n + vs.countP fun v => !v.isNull) acc' := by
  induction vs generalizing n acc with
  | nil => exact Except.ok.inj hacc ▸ h
  | cons v vs ih =>
    rw [List.foldlM_cons] at hacc
    obtain ⟨acc₁, hstep, hrest⟩ := Outcome.bind_eq_ok_iff.mp hacc
    have hhead := h.accumulate (hvs v List.mem_cons_self) hstep
    have hall := ih hhead (fun w hw => hvs w (List.mem_cons_of_mem _ hw)) hrest
    rw [List.countP_cons]
    convert hall using 1
    cases v.isNull
    · simp only [Bool.not_false, if_true, Bool.false_eq_true, if_false]
      omega
    · simp

end Accumulator

omit [FloatModel] [Readers] [Runtime] in
/-- A counter is back at zero after a multiple of `2 ^ 32` steps. -/
theorem int32_ofInt_eq_zero_iff {n : ℕ} : Int32.ofInt n = 0 ↔ 2 ^ 32 ∣ n := by
  rw [← Int32.toInt_inj, Int32.toInt_ofInt, Int32.toInt_zero, ← Int.dvd_iff_bmod_eq_zero]
  norm_cast

/-- What an accumulator returns is of the declared type, and any builder of that type takes it,
exactly when the function is not AVG, or its argument is a double, or the counter is back at zero. -/
theorem finalValue_declared_iff {P : LogicalPlan} {agg : AggregateExpr}
    {physical : AggregateExpression} (h : createAggregateExpr P.schema agg = .ok physical)
    {argument : Field} (hargument : agg.expr.toField P.schema = .ok argument)
    {vs : List ScalarValue} (hvs : ∀ v ∈ vs, v.FitsIn argument.dataType) {acc : Accumulator}
    (hacc : accumulateAll physical.function vs = .ok acc) :
    (∃ field, agg.toField P.schema = .ok field ∧ acc.finalValue.FitsIn field.dataType ∧
        ∀ builder : ArrowVectorBuilder, builder.array.dataType = field.dataType →
          Outcome.Succeeds (builder.appendValue acc.finalValue)) ↔
      (agg.fn = .avg → argument.dataType = .float64 ∨
        2 ^ 32 ∣ vs.countP fun v => !v.isNull) := by
  have hholds := (Accumulator.holds_create physical.function).foldlM hvs hacc
  rw [Nat.zero_add] at hholds
  have hfits : ∀ field : Field, agg.toField P.schema = .ok field →
      (acc.finalValue.FitsIn field.dataType ↔
        (agg.fn = .avg → argument.dataType = .float64 ∨
          2 ^ 32 ∣ vs.countP fun v => !v.isNull)) := by
    intro field hfield
    unfold AggregateExpr.toField at hfield
    rw [hargument] at hfield
    unfold createAggregateExpr at h
    cases hfn : agg.fn <;> rw [hfn] at h hfield
    case countDistinct => cases h
    all_goals
      obtain ⟨e, -, rfl⟩ := Outcome.bind_pure_eq_ok_iff.mp h
      obtain rfl := Except.ok.inj hfield
    case avg =>
      cases hholds with
      | avg _ s =>
        rw [Accumulator.finalValue, imp_iff_right rfl, ← int32_ofInt_eq_zero_iff]
        split
        · rename_i hzero
          exact iff_of_true (ScalarValue.null_fitsIn _) (.inr hzero)
        · rename_i hzero
          rw [or_iff_left hzero]
          exact ⟨fun h => (h.dataType_eq (by simp)).symm, fun h => .inr h.symm⟩
    all_goals refine iff_of_true ?_ (by simp)
    case count =>
      cases hholds
      exact .inr rfl
    all_goals
      cases hholds with
      | _ h => exact h
  obtain ⟨field, hfield⟩ : ∃ field, agg.toField P.schema = .ok field := by
    unfold AggregateExpr.toField
    rw [hargument]
    cases agg.fn <;> exact ⟨_, rfl⟩
  rw [← hfits field hfield]
  constructor
  · rintro ⟨field', hfield', hfit, -⟩
    rwa [Except.ok.inj (hfield.symm.trans hfield')]
  · intro hfit
    refine ⟨field, hfield, hfit, fun builder hbuilder => ?_⟩
    unfold ArrowVectorBuilder.appendValue
    rw [dif_pos (hbuilder ▸ hfit)]
    exact ⟨_, rfl⟩

end

section AverageOfIntegers

attribute [local instance] integerFloats insertionOrderRuntime

local instance noAveragedFiles : Readers := parquetDisk fun _ => none

/-- The average of 1 and 2, a double. -/
def averageOfOneAndTwo : ScalarValue :=
  .float64 (FloatModel.double.div (FloatModel.double.ofInt 3) (FloatModel.double.ofInt 2))

/-- AVG of a 32-bit column is declared a 32-bit integer and returns a double, which no builder of
integers takes. -/
theorem finalValue_averageOfIntegers :
    createAggregateExpr numbersScan.schema ⟨.avg, .column "n"⟩ = .ok (AvgExpression (.column 0)) ∧
      AggregateExpr.toField numbersScan.schema ⟨.avg, .column "n"⟩ = .ok ⟨"AVG", .int32⟩ ∧
      (accumulateAll .avg [.int32 1, .int32 2]).map Accumulator.finalValue =
        .ok averageOfOneAndTwo ∧
      ¬ averageOfOneAndTwo.FitsIn .int32 ∧
      (ArrowVectorBuilder.new .int32 >>= fun builder => builder.appendValue averageOfOneAndTwo) =
        .error (.typeMismatch "ArrowVectorBuilder::append_value") := by
  refine ⟨rfl, by decide, by decide, by decide, rfl⟩

/-- The sum of two integers. -/
theorem finalValue_declared_iff_sum :
    (∃ field, AggregateExpr.toField numbersScan.schema ⟨.sum, .column "n"⟩ = .ok field ∧
        (Accumulator.sum (.int32 7)).finalValue.FitsIn field.dataType ∧
        ∀ builder : ArrowVectorBuilder, builder.array.dataType = field.dataType →
          Outcome.Succeeds (builder.appendValue (Accumulator.sum (.int32 7)).finalValue)) ↔
      (AggregateFn.sum = .avg → DataType.int32 = .float64 ∨
        2 ^ 32 ∣ [ScalarValue.int32 3, .null, .int32 4].countP fun v => !v.isNull) :=
  finalValue_declared_iff
    (show createAggregateExpr numbersScan.schema ⟨.sum, .column "n"⟩ =
      .ok (SumExpression (.column 0)) from rfl)
    (show LogicalExpr.toField numbersScan.schema (.column "n") = .ok ⟨"n", .int32⟩ from rfl)
    (by decide) (by decide)

end AverageOfIntegers

end RQuery
