import RQuery.Sql.Planner
import RQuery.QueryPlanner.QueryPlanner

/-!
# Dates and intervals

A date-typed SQL expression is a date literal, a column of dates, or such an expression plus or
minus a number of days. Its exact value is a date that many days away, in 32 bits. The planner
builds date arithmetic only from the two literals `DATE` and `INTERVAL`; every other sum of a date
and an interval becomes the arithmetic of numbers, which has no dates. And the two literals are
added as 32-bit integers, to which the number of days is cut.

`computesExactly_iff` says when a query computes the exact values and fails where there are none.
-/

namespace RQuery

section

/-- A day count that a `Date32` can hold. -/
def FitsDate (n : ℤ) : Prop := -2 ^ 31 ≤ n ∧ n < 2 ^ 31

instance (n : ℤ) : Decidable (FitsDate n) := inferInstanceAs (Decidable (_ ∧ _))

/-- A day number in the range of a Date32 is stored as it is. -/
theorem FitsDate.toInt_ofInt {n : ℤ} (h : FitsDate n) : (Int32.ofInt n).toInt = n :=
  Int32.toInt_ofInt_of_le h.1 h.2

/-- Date-typed SQL: `DATE text`, a column, and a date plus or minus `INTERVAL text`. -/
inductive DateSql
  | literal (text : String)
  | column (name : String)
  | interval (op : ScalarValue.IntervalOp) (date : DateSql) (text : String)

variable [FloatModel]

namespace DateSql

/-- The text of the operator. -/
def operator : ScalarValue.IntervalOp → String
  | .subtract => "-"
  | .add => "+"

/-- The parsed expression. -/
def toSql : DateSql → SqlExpr
  | literal text => .date text
  | column name => .identifier name
  | interval op date text => .binaryExpr date.toSql (operator op) (.interval text)

variable [UnicodeTables] [DateParser]

/-- The dates and the intervals parse, and the columns are columns of dates. -/
def Valid (s : Schema) : DateSql → Prop
  | literal text => ∃ date, DateParser.parse text = some date
  | column name => ∃ i, s.position? name = some i ∧ s.types[i]? = some .date32
  | interval _ date text =>
    date.Valid s ∧ ∃ days, SqlPlanner.parseIntervalDays (Text.trim text) = some days

/-- The exact value in a row, unless a day count leaves the range of a date. Null plus an interval
is null. -/
def exact (s : Schema) (row : Row) : DateSql → Option ScalarValue
  | literal text => do return .date32 (← DateParser.parse text).daysSinceUnixEpoch
  | column name => do row[← s.position? name]?
  | interval op date text => do
    let days ← SqlPlanner.parseIntervalDays (Text.trim text)
    match ← date.exact s row with
    | .date32 d =>
      let count := op.apply d.toInt days.toInt
      if FitsDate count then some (.date32 (Int32.ofInt count)) else none
    | v => some v

/-- Plan, lower and evaluate the expression. -/
def evaluate [Runtime] (b : RecordBatch) (e : DateSql) : Result ColumnVector := do
  let logical ← SqlPlanner.createLogicalExpr e.toSql
  let physical ← createPhysicalExpr (.ok b.schema) logical
  physical.evaluate b

/-- The query computes the exact value in every row, and fails where a row has none. -/
structure ComputesExactly [Runtime] (b : RecordBatch) (e : DateSql) : Prop where
  exact : (∀ row ∈ b.rows, (e.exact b.schema row).isSome) →
    ∃ col, e.evaluate b = .ok col ∧ col.dataType = .date32 ∧ col.len = b.numRows ∧
      ∀ k < b.numRows, ∃ v, e.exact b.schema (b.row k) = some v ∧ col.value k = .ok v
  fails : ∀ row ∈ b.rows, e.exact b.schema row = none → ¬ Outcome.Succeeds (e.evaluate b)

/-- What the 32-bit sum of a date and a number of days does is right. In a build with overflow
checks, the number of days is not cut, or the exact count and the one with the cut number are both
out of range. Without them, nothing is ever out of range. -/
def AddsExactly [Runtime] (op : ScalarValue.IntervalOp) (d n : ℤ) : Prop :=
  if Runtime.overflowChecks then
    FitsDate n ∨ ¬ FitsDate (op.apply d n) ∧ ¬ FitsDate (op.apply d (n.bmod (2 ^ 32)))
  else FitsDate (op.apply d n)

/-! ## Planning -/

variable {s : Schema} {e date : DateSql} {op : ScalarValue.IntervalOp} {text : String}

/-- A date plus an interval is planned as date arithmetic if the date is planned as a literal, else
as the arithmetic of numbers. -/
theorem createLogicalExpr_interval (op : ScalarValue.IntervalOp) {l : LogicalExpr} {days : Int64}
    (hl : SqlPlanner.createLogicalExpr date.toSql = .ok l)
    (hdays : SqlPlanner.parseIntervalDays (Text.trim text) = some days) :
    SqlPlanner.createLogicalExpr (interval op date text).toSql = .ok (match op with
      | .subtract => SqlPlanner.additive .subtract .dateSubtractInterval l (.literalIntervalDays days)
      | .add => SqlPlanner.additive .add .dateAddInterval l (.literalIntervalDays days)) := by
  rw [toSql, SqlPlanner.createLogicalExpr_binaryExpr, hl, SqlPlanner.createLogicalExpr_interval,
    SqlPlanner.parseInterval, hdays]
  cases op <;> rfl

omit [UnicodeTables] [DateParser] in
/-- The arithmetic of numbers has no type on a date and an interval. -/
theorem dataType_math {p : Expression} {mop : MathOp} {types : List DataType} {days : Int64}
    (hp : ∀ t, p.dataType types = .ok t → t = .date32) (t : DataType) :
    (Expression.math mop p (.literalIntervalDays days)).dataType types ≠ .ok t := by
  intro h
  obtain ⟨tp, htp, h⟩ := Outcome.bind_eq_ok_iff.mp h
  obtain rfl := hp tp htp
  cases h

omit [UnicodeTables] [DateParser] in
/-- A sum whose left operand is no date literal is planned as plain arithmetic. -/
theorem additive_of_ne {l r : LogicalExpr} (hl : ∀ d, l ≠ .literalDate d) (bop : BinaryOp)
    (dateOp : LogicalExpr → LogicalExpr → LogicalExpr) :
    SqlPlanner.additive bop dateOp l r = .binary bop l r := by
  unfold SqlPlanner.additive
  split
  · rename_i d _
    exact absurd rfl (hl d)
  · rfl

/-- A date plus an interval, where the date is not planned as a literal. -/
theorem exists_math (op : ScalarValue.IntervalOp) {l : LogicalExpr} {p : Expression} {days : Int64}
    (hl : SqlPlanner.createLogicalExpr date.toSql = .ok l) (hliteral : ∀ d, l ≠ .literalDate d)
    (hp : createPhysicalExpr (.ok s) l = .ok p)
    (hdays : SqlPlanner.parseIntervalDays (Text.trim text) = some days) :
    ∃ bop mop, SqlPlanner.createLogicalExpr (interval op date text).toSql =
        .ok (.binary bop l (.literalIntervalDays days)) ∧
      createPhysicalExpr (.ok s) (.binary bop l (.literalIntervalDays days)) =
        .ok (.math mop p (.literalIntervalDays days)) := by
  have hplan := createLogicalExpr_interval op hl hdays
  simp only [additive_of_ne hliteral] at hplan
  cases op with
  | subtract =>
    refine ⟨.subtract, .subtract, hplan, ?_⟩
    simp only [createPhysicalExpr, hp, Outcome.ok_bind]
    rfl
  | add =>
    refine ⟨.add, .add, hplan, ?_⟩
    simp only [createPhysicalExpr, hp, Outcome.ok_bind]
    rfl

/-- A date literal plus an interval. -/
theorem exists_dateInterval (op : ScalarValue.IntervalOp) {d : NaiveDate} {days : Int64} {v : String}
    (hd : DateParser.parse v = some d)
    (hdays : SqlPlanner.parseIntervalDays (Text.trim text) = some days) :
    ∃ l, SqlPlanner.createLogicalExpr (interval op (literal v) text).toSql = .ok l ∧
      (∀ d, l ≠ .literalDate d) ∧
      createPhysicalExpr (.ok s) l =
        .ok (.dateInterval op (.literalDate d.daysSinceUnixEpoch) (.literalIntervalDays days)) := by
  have hl : SqlPlanner.createLogicalExpr (literal v).toSql = .ok (.literalDate d) := by
    rw [toSql, SqlPlanner.createLogicalExpr_date, hd]
  have hplan := createLogicalExpr_interval op hl hdays
  cases op with
  | subtract =>
    exact ⟨.dateSubtractInterval (.literalDate d) (.literalIntervalDays days), hplan, by simp, rfl⟩
  | add =>
    exact ⟨.dateAddInterval (.literalDate d) (.literalIntervalDays days), hplan, by simp, rfl⟩

/-- Every date expression is planned and lowered, to one of dates if it has a type; and only a
literal is planned as a date literal. -/
theorem exists_lowered (h : e.Valid s) :
    ∃ l p, SqlPlanner.createLogicalExpr e.toSql = .ok l ∧ createPhysicalExpr (.ok s) l = .ok p ∧
      (∀ t, p.dataType s.types = .ok t → t = .date32) ∧
      ((∀ v, e ≠ literal v) → ∀ d, l ≠ .literalDate d) := by
  -- On the sum: its innermost operand decides whether the planner sees a date literal.
  induction e with
  | literal v =>
    obtain ⟨d, hd⟩ := h
    refine ⟨.literalDate d, .literalDate d.daysSinceUnixEpoch, ?_, rfl, ?_, ?_⟩
    · rw [toSql, SqlPlanner.createLogicalExpr_date, hd]
    · intro t ht
      exact (Except.ok.inj ht).symm
    · intro hne
      exact absurd rfl (hne v)
  | column name =>
    obtain ⟨i, hi, htype⟩ := h
    refine ⟨.column name, .column i, rfl, ?_, ?_, fun _ d h => nomatch h⟩
    · simp only [createPhysicalExpr, fieldPosition, hi, Outcome.ok_bind]
      rfl
    · intro t ht
      exact Option.some.inj ((index_eq_ok_iff.mp ht).symm.trans htype)
  | interval op date text ih =>
    obtain ⟨hdate, days, hdays⟩ := h
    obtain ⟨l, p, hl, hp, htype, hliteral⟩ := ih hdate
    -- Over anything but a literal the sum is planned as arithmetic, which has no type.
    by_cases hne : ∀ v, date ≠ literal v
    · obtain ⟨bop, mop, hplan, hlower⟩ := exists_math op hl (hliteral hne) hp hdays
      exact ⟨_, _, hplan, hlower, fun t ht => absurd ht (dataType_math htype t),
        fun _ d h => nomatch h⟩
    · push Not at hne
      obtain ⟨v, rfl⟩ := hne
      obtain ⟨d, hd⟩ := hdate
      obtain ⟨l', hplan, hdate, hlower⟩ := exists_dateInterval op hd hdays
      exact ⟨l', _, hplan, hlower, fun t ht => (Except.ok.inj ht).symm, fun _ => hdate⟩

/-! ## Evaluation -/

variable [Runtime] {b : RecordBatch}

/-- A date sum evaluates as its lowered expression does. -/
theorem evaluate_eq {l : LogicalExpr} {p : Expression}
    (hl : SqlPlanner.createLogicalExpr e.toSql = .ok l)
    (hp : createPhysicalExpr (.ok b.schema) l = .ok p) : e.evaluate b = p.evaluate b := by
  rw [evaluate, hl, Outcome.ok_bind, hp, Outcome.ok_bind]

/-- Only a literal plus an interval can be evaluated. -/
theorem not_succeeds_evaluate (hvalid : (interval op date text).Valid b.schema)
    (hdate : ∀ v, date ≠ literal v) :
    ¬ Outcome.Succeeds ((interval op date text).evaluate b) := by
  obtain ⟨hdatevalid, days, hdays⟩ := hvalid
  obtain ⟨l, p, hl, hp, htype, hliteral⟩ := exists_lowered hdatevalid
  obtain ⟨bop, mop, hplan, hlower⟩ := exists_math op hl (hliteral hdate) hp hdays
  rw [evaluate_eq hplan hlower]
  rintro ⟨col, hcol⟩
  obtain ⟨t, ht, -⟩ := Expression.evaluate_computes hcol
  rw [b.types_eq_schema] at ht
  exact dataType_math htype t ht

omit [FloatModel] [UnicodeTables] [DateParser] [Runtime] in
/-- The 32-bit sum is the exact one, modulo `2 ^ 32`. -/
theorem ofInt_apply_bmod (op : ScalarValue.IntervalOp) (d n : ℤ) :
    Int32.ofInt (op.apply d (n.bmod (2 ^ 32))) = Int32.ofInt (op.apply d n) := by
  rw [← Int32.toInt_inj, Int32.toInt_ofInt, Int32.toInt_ofInt]
  cases op with
  | subtract => exact Int.sub_bmod_bmod
  | add => exact Int.add_bmod_bmod

omit [UnicodeTables] [DateParser] in
/-- The cell of a date plus an interval. -/
theorem dateInterval_eq_ok_iff {d : Int32} {n : Int64} {v : ScalarValue} :
    ScalarValue.dateInterval op (.date32 d) (.int64 n) = .ok v ↔
      (Runtime.overflowChecks = true → FitsDate (op.apply d.toInt (n.toInt.bmod (2 ^ 32)))) ∧
        v = .date32 (Int32.ofInt (op.apply d.toInt n.toInt)) := by
  have hdays : n.toInt32.toInt = n.toInt.bmod (2 ^ 32) := Int64.toInt_toInt32 n
  have hdate : d.toInt64.toInt32 = d := Int32.toInt32_toInt64 d
  have hcell : ScalarValue.dateInterval op (.date32 d) (.int64 n) = (do
      return .date32 (← Runtime.checkedInt32 (op.apply d.toInt (n.toInt.bmod (2 ^ 32))))) := by
    rw [← hdays]
    nth_rewrite 2 [← hdate]
    rfl
  rw [hcell, Outcome.bind_pure_eq_ok_iff]
  simp only [Runtime.checkedInt32_eq_ok_iff, ofInt_apply_bmod]
  constructor
  · rintro ⟨m, ⟨hfits, rfl⟩, rfl⟩
    exact ⟨hfits, rfl⟩
  · rintro ⟨hfits, rfl⟩
    exact ⟨_, ⟨hfits, rfl⟩, rfl⟩

omit [FloatModel] [UnicodeTables] [DateParser] in
/-- The 32-bit sum is right if it overflows exactly where the exact count is out of range. -/
theorem addsExactly_iff {d n : ℤ} :
    AddsExactly op d n ↔ (FitsDate (op.apply d n) ↔
      (Runtime.overflowChecks = true → FitsDate (op.apply d (n.bmod (2 ^ 32))))) := by
  unfold AddsExactly
  by_cases hchecks : Runtime.overflowChecks = true
  · rw [if_pos hchecks, forall_prop_of_true hchecks]
    have huncut : FitsDate n ↔ n.bmod (2 ^ 32) = n := by
      have hlo := Int.le_bmod (x := n) (m := 2 ^ 32) (by decide)
      have hhi := Int.bmod_lt (x := n) (m := 2 ^ 32) (by decide)
      constructor
      · rintro ⟨hn, hn'⟩
        apply Int.bmod_eq_of_le <;> omega
      · intro h
        rw [h] at hlo hhi
        constructor <;> omega
    -- Two counts in range that agree modulo `2 ^ 32` are equal.
    have hboth : FitsDate (op.apply d n) → FitsDate (op.apply d (n.bmod (2 ^ 32))) →
        FitsDate n := by
      intro hx hy
      have hxy := congrArg Int32.toInt (ofInt_apply_bmod op d n)
      rw [hx.toInt_ofInt, hy.toInt_ofInt] at hxy
      rw [huncut]
      cases op with
      | subtract => exact (Int.sub_right_inj d).mp hxy
      | add => exact Int.add_left_cancel hxy
    constructor
    · rintro (hn | ⟨hx, hy⟩)
      · rw [huncut.mp hn]
      · exact iff_of_false hx hy
    · intro h
      by_cases hx : FitsDate (op.apply d n)
      · exact .inl (hboth hx (h.mp hx))
      · exact .inr ⟨hx, fun hy => hx (h.mpr hy)⟩
  · rw [if_neg hchecks]
    simp [hchecks]

/-- When the query of a date plus an interval is right. Where the date is no literal, it fails in
any case. -/
def IntervalExact (b : RecordBatch) (op : ScalarValue.IntervalOp) (date : DateSql)
    (text : String) : Prop :=
  match date with
  | literal v => b.numRows = 0 ∨ ∀ d n, DateParser.parse v = some d →
      SqlPlanner.parseIntervalDays (Text.trim text) = some n →
      AddsExactly op d.daysSinceUnixEpoch.toInt n.toInt
  | _ => ∃ row ∈ b.rows, (interval op date text).exact b.schema row = none

/-- A sum that fails is exact only where some row has no exact value. -/
theorem computesExactly_of_not_succeeds (h : ¬ Outcome.Succeeds (e.evaluate b)) :
    e.ComputesExactly b ↔ ∃ row ∈ b.rows, e.exact b.schema row = none := by
  constructor
  · intro hexact
    by_contra hall
    push Not at hall
    obtain ⟨col, hcol, -⟩ := hexact.exact fun row hrow => Option.isSome_iff_ne_none.mpr (hall row hrow)
    exact h ⟨col, hcol⟩
  · rintro ⟨row, hrow, hnone⟩
    refine ⟨fun hall => ?_, fun _ _ _ => h⟩
    exact absurd hnone (Option.isSome_iff_ne_none.mp (hall row hrow))

omit [Runtime] in
/-- A literal plus an interval has one exact value. -/
theorem exact_literal (op : ScalarValue.IntervalOp) (s : Schema) {v : String} {d : NaiveDate}
    {n : Int64} (hd : DateParser.parse v = some d)
    (hn : SqlPlanner.parseIntervalDays (Text.trim text) = some n) (row : Row) :
    (interval op (literal v) text).exact s row =
      if FitsDate (op.apply d.daysSinceUnixEpoch.toInt n.toInt) then
        some (.date32 (Int32.ofInt (op.apply d.daysSinceUnixEpoch.toInt n.toInt)))
      else none := by
  simp only [exact, hd, hn, Option.bind_eq_bind, Option.bind_some]
  rfl

omit [UnicodeTables] [DateParser] in
/-- Two literals can be evaluated if there is no row or their sum has a value. -/
theorem succeeds_literals_iff {d : Int32} {n : Int64} :
    Outcome.Succeeds
        ((Expression.dateInterval op (.literalDate d) (.literalIntervalDays n)).evaluate b) ↔
      (b.numRows ≠ 0 →
        Outcome.Succeeds (ScalarValue.dateInterval op (.date32 d) (.int64 n))) := by
  constructor
  · rintro ⟨col, hcol⟩ hrows
    simp only [Expression.evaluate, Outcome.ok_bind, ColumnVector.evaluateInterval] at hcol
    obtain ⟨a, ha, -⟩ := Outcome.bind_eq_ok_iff.mp hcol
    obtain ⟨-, -, hlen, hcells⟩ := ArrowVectorBuilder.fill_eq_ok_iff.mp ha
    have hlen : a.cells.length = b.numRows := hlen
    have hpos := Nat.pos_of_ne_zero hrows
    have hcell := hcells 0 _ (List.getElem?_eq_getElem (hlen ▸ hpos))
    rw [Expression.literal_computes.value_eq 0 hpos, Expression.literal_computes.value_eq 0 hpos,
      Outcome.ok_bind, Outcome.ok_bind] at hcell
    exact ⟨_, hcell⟩
  · intro h
    have htype : (Expression.dateInterval op (.literalDate d) (.literalIntervalDays n)).dataType
        b.types = .ok .date32 := rfl
    refine Expression.evaluate_succeeds htype fun k hk => ?_
    simp only [Expression.evalCell, Outcome.ok_bind]
    exact h (Nat.ne_zero_of_lt hk)

/-- A date literal plus an interval. -/
theorem computesExactly_literal_iff {v : String} {d : NaiveDate} {n : Int64}
    (hd : DateParser.parse v = some d)
    (hn : SqlPlanner.parseIntervalDays (Text.trim text) = some n) :
    (interval op (literal v) text).ComputesExactly b ↔
      b.numRows = 0 ∨ AddsExactly op d.daysSinceUnixEpoch.toInt n.toInt := by
  obtain ⟨l, hl, -, hp⟩ := exists_dateInterval op (s := b.schema) hd hn
  have hexact := exact_literal op b.schema hd hn
  have heval := evaluate_eq hl hp
  have hcell := @dateInterval_eq_ok_iff _ op _ d.daysSinceUnixEpoch n
  -- The cells are the same in every row, so one row decides.
  have hsucceeds : Outcome.Succeeds ((interval op (literal v) text).evaluate b) ↔
      (b.numRows ≠ 0 → Runtime.overflowChecks = true →
        FitsDate (op.apply d.daysSinceUnixEpoch.toInt (n.toInt.bmod (2 ^ 32)))) := by
    rw [heval, succeeds_literals_iff]
    simp only [Outcome.Succeeds, hcell, exists_and_left, exists_eq, and_true]
  rw [addsExactly_iff]
  constructor
  · intro h
    by_cases hrows : b.numRows = 0
    · exact .inl hrows
    have hrow : b.row 0 ∈ b.rows :=
      RecordBatch.mem_rows_iff.mpr ⟨0, Nat.pos_of_ne_zero hrows, rfl⟩
    refine .inr ⟨fun hfits => ?_, fun hcut => ?_⟩
    · obtain ⟨col, hcol, -⟩ := h.exact fun row _ => by rw [hexact, if_pos hfits]; rfl
      exact hsucceeds.mp ⟨col, hcol⟩ hrows
    · by_contra hfits
      exact h.fails _ hrow (by rw [hexact, if_neg hfits]) (hsucceeds.mpr fun _ => hcut)
  · intro h
    have hcut : b.numRows ≠ 0 → (FitsDate (op.apply d.daysSinceUnixEpoch.toInt n.toInt) ↔
        Outcome.Succeeds ((interval op (literal v) text).evaluate b)) := by
      intro hrows
      rw [hsucceeds, forall_prop_of_true hrows]
      exact h.resolve_left hrows
    constructor
    · intro hall
      have hfits : ∀ k < b.numRows, FitsDate (op.apply d.daysSinceUnixEpoch.toInt n.toInt) := by
        intro k hk
        have hsome := hall _ (RecordBatch.mem_rows_iff.mpr ⟨k, hk, rfl⟩)
        by_contra hnone
        rw [hexact, if_neg hnone] at hsome
        cases hsome
      have hok : Outcome.Succeeds ((interval op (literal v) text).evaluate b) := by
        by_cases hrows : b.numRows = 0
        · exact hsucceeds.mpr fun h => absurd hrows h
        · exact (hcut hrows).mp (hfits 0 (Nat.pos_of_ne_zero hrows))
      rw [heval] at hok ⊢
      obtain ⟨col, hcol, hcomputes⟩ := Expression.exists_computes rfl hok
      refine ⟨col, hcol, hcomputes.dataType_eq, hcomputes.len_eq, fun k hk => ?_⟩
      refine ⟨_, (hexact _).trans (if_pos (hfits k hk)), ?_⟩
      rw [hcomputes.value_eq k hk]
      simp only [Expression.evalCell, Outcome.ok_bind]
      exact hcell.mpr ⟨hsucceeds.mp (heval ▸ hok) (Nat.ne_zero_of_lt hk), rfl⟩
    · intro row hrow hnone hok
      obtain ⟨k, hk, -⟩ := RecordBatch.mem_rows_iff.mp hrow
      have hfits := (hcut (Nat.ne_zero_of_lt hk)).mpr hok
      rw [hexact, if_pos hfits] at hnone
      cases hnone

/-- A query of a date plus or minus an interval computes the exact dates, and fails where there are
none, if and only if it is one of the two literals with a sum that is right in 32 bits, or it has to
fail. -/
theorem computesExactly_iff (h : (interval op date text).Valid b.schema) :
    (interval op date text).ComputesExactly b ↔ IntervalExact b op date text := by
  by_cases hdate : ∀ v, date ≠ literal v
  · rw [computesExactly_of_not_succeeds (not_succeeds_evaluate h hdate)]
    unfold IntervalExact
    split
    · exact absurd rfl (hdate _)
    · rfl
  · push Not at hdate
    obtain ⟨v, rfl⟩ := hdate
    obtain ⟨⟨d, hd⟩, n, hn⟩ := h
    rw [computesExactly_literal_iff hd hn]
    refine or_congr_right ⟨fun hexact d' n' hd' hn' => ?_, fun hall => hall d n hd hn⟩
    obtain rfl := Option.some.inj (hd.symm.trans hd')
    obtain rfl := Option.some.inj (hn.symm.trans hn')
    exact hexact

end DateSql

end

/-! ## Dates next to the Unix epoch -/

section DatesAndIntervals

attribute [local instance] integerFloats insertionOrderRuntime asciiTables

/-- The first day of 1970. -/
def unixEpoch : NaiveDate := ⟨1970, 1, 1, by decide⟩

local instance unixEpochDates : DateParser where
  parse text := if text = "1970-01-01" then some unixEpoch else none
  parse_range text date h := by
    split at h
    · obtain rfl := Option.some.inj h
      decide
    · cases h

/-- A column `d` with one date. -/
def shipped : RecordBatch where
  schema := ⟨[⟨"d", .date32⟩]⟩
  columns := [⟨.date32, [.date32 7], by decide⟩]
  numRows := 1
  types_eq := by decide
  lengths := by decide

open DateSql

/-- Thirty days after the first of January 1970. -/
theorem computesExactly_iff_month :
    (interval .add (literal "1970-01-01") "30 days").ComputesExactly shipped := by
  have hdays : SqlPlanner.parseIntervalDays (Text.trim "30 days") = some 30 := by decide +kernel
  have hvalid : (interval .add (literal "1970-01-01") "30 days").Valid shipped.schema :=
    ⟨⟨unixEpoch, by decide⟩, 30, hdays⟩
  refine (computesExactly_iff hvalid).mpr (.inr fun d n hd hn => ?_)
  obtain rfl : unixEpoch = d := Option.some.inj hd
  obtain rfl : 30 = n := Option.some.inj (hdays.symm.trans hn)
  have hchecks : Runtime.overflowChecks = true := rfl
  rw [AddsExactly, if_pos hchecks]
  exact .inl (by decide)

/-- 2^32 days after a date the date is back, and the day after a date in a column is an error. -/
theorem not_computesExactly_epoch :
    ¬ (interval .add (literal "1970-01-01") "4294967296 days").ComputesExactly shipped ∧
      ¬ (interval .add (column "d") "1 day").ComputesExactly shipped := by
  constructor
  · intro h
    exact h.fails [.date32 7] (by decide) (by decide +kernel) (by decide +kernel)
  · intro h
    obtain ⟨col, hcol, -⟩ := h.exact (by decide +kernel)
    have herror : ¬ Outcome.Succeeds ((interval .add (column "d") "1 day").evaluate shipped) := by
      decide +kernel
    exact herror ⟨col, hcol⟩

end DatesAndIntervals

end RQuery
