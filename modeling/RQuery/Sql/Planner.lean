import RQuery.Sql.Parser
import RQuery.LogicalPlan.Plan

/-!
# The SQL planner

`SqlPlanner` translates a parsed statement into a data frame. Without aggregates it projects the
select items, adds the columns that only the filter refers to, filters and drops them again. With
aggregates the select items become positions in the output of the `Aggregate`, which lists the
group columns first.
-/

namespace RQuery

/-- `chrono::NaiveDate::parse_from_str` with `%Y-%m-%d`. It only gives dates that `chrono` can
represent. -/
class DateParser where
  parse : String → Option NaiveDate
  parse_range : ∀ text date, parse text = some date → -262143 ≤ date.year ∧ date.year ≤ 262142

/-- A parser that knows no date is in the range of dates. -/
theorem DateParser.none_range (_text : String) (date : NaiveDate)
    (h : (none : Option NaiveDate) = some date) : -262143 ≤ date.year ∧ date.year ≤ 262142 := by
  cases h

section Columns

variable [FloatModel]

/-- Collect the column names of an expression, in first-seen order. -/
def visit : LogicalExpr → List String → List String
  | .column name, acc => if name ∈ acc then acc else acc ++ [name]
  | .aliased e _, acc => visit e acc
  | .binary _ l r, acc => visit r (visit l acc)
  | .aggregateExpr _ e, acc => visit e acc
  | _, acc => acc

/-- `visit_aggregate`: the column names of an aggregate's argument. -/
def visitAggregate (agg : AggregateExpr) (acc : List String) : List String := visit agg.expr acc

/-- The column names that a list of expressions refers to. -/
def referencedColumns (exprs : List LogicalExpr) : List String :=
  exprs.foldl (fun acc e => visit e acc) []

/-- Whether the expression is an aggregate, or an alias of one. -/
def isAggregateExpr : LogicalExpr → Bool
  | .aggregateExpr _ _ => true
  | .aliased (.aggregateExpr _ _) _ => true
  | _ => false

end Columns

/-- Append every item of `extra` that is not there yet. -/
def orderedExtend (target extra : List String) : List String :=
  extra.foldl (fun acc item => if item ∈ acc then acc else acc ++ [item]) target

/-- The items of `from` that are not in `remove`, in their order. -/
def orderedDifference (source remove : List String) : List String :=
  source.filter fun c => c ∉ remove

namespace SqlPlanner

/-- `str::strip_suffix`. -/
def stripSuffix (text suffix : List Char) : Option (List Char) :=
  if suffix <:+ text then some (text.take (text.length - suffix.length)) else none

section

variable [UnicodeTables]

/-- `parse_interval_days`: a number, white space and `day` or `days`, in any case. -/
def parseIntervalDays (s : String) : Option Int64 := do
  let lower := (UnicodeTables.toLowercase s).toList
  let head ← (stripSuffix lower "days".toList).or (stripSuffix lower "day".toList)
  let digits := (head.reverse.dropWhile Text.isWhitespace).reverse
  if digits.length = head.length then none
  else if digits.isEmpty || !digits.all Char.isDigit then none
  else Text.parseInt64 (String.ofList digits)

def parseInterval [FloatModel] (value : String) : Result LogicalExpr :=
  match parseIntervalDays (Text.trim value) with
  | some days => .ok (.literalIntervalDays days)
  | none => .error (.unsupported "Invalid interval format")

end

def parseDataType (id : String) : Result DataType :=
  match id with
  | "double" => .ok .float64
  | _ => .error (.unsupported "Invalid data type")

variable [FloatModel]

/-- A sum or difference: of a date literal and an interval literal it is date arithmetic. -/
def additive (op : BinaryOp) (dateOp : LogicalExpr → LogicalExpr → LogicalExpr) :
    LogicalExpr → LogicalExpr → LogicalExpr
  | .literalDate date, .literalIntervalDays days => dateOp (.literalDate date) (.literalIntervalDays days)
  | l, r => .binary op l r

/-- The operators, by their exact text. -/
def createBinaryExpr (op : String) (l r : LogicalExpr) : Result LogicalExpr :=
  match op with
  | "=" => .ok (.binary .eq l r)
  | "!=" | "<>" => .ok (.binary .neq l r)
  | ">" => .ok (.binary .gt l r)
  | ">=" => .ok (.binary .gtEq l r)
  | "<" => .ok (.binary .lt l r)
  | "<=" => .ok (.binary .ltEq l r)
  | "AND" => .ok (.binary .and l r)
  | "OR" => .ok (.binary .or l r)
  | "+" => .ok (additive .add .dateAddInterval l r)
  | "-" => .ok (additive .subtract .dateSubtractInterval l r)
  | "*" => .ok (.binary .multiply l r)
  | "/" => .ok (.binary .divide l r)
  | "%" => .ok (.binary .modulus l r)
  | _ => .error (.unsupported ("Invalid operator " ++ op))

variable [UnicodeTables] [DateParser]

/-- `create_logical_expr`. A function has its name in any case, and reads its first argument. -/
def createLogicalExpr : SqlExpr → Result LogicalExpr
  | .identifier id => .ok (.column id)
  | .string v => .ok (.literalString v)
  | .long v => .ok (.literalLong v)
  | .double v => .ok (.literalDouble v)
  | .date v =>
    match DateParser.parse v with
    | some date => .ok (.literalDate date)
    | none => .error (.parseFailed v)
  | .interval v => parseInterval v
  | .binaryExpr l op r => do
    let l ← createLogicalExpr l
    createBinaryExpr op l (← createLogicalExpr r)
  | .aliased e name => do return .aliased (← createLogicalExpr e) name
  | .cast e dataType => do
    let e ← createLogicalExpr e
    return .cast e (← parseDataType dataType)
  | .function id (arg :: _) =>
    match Text.toUppercase id with
    | "MIN" => do return .aggregateExpr .min (← createLogicalExpr arg)
    | "MAX" => do return .aggregateExpr .max (← createLogicalExpr arg)
    | "SUM" => do return .aggregateExpr .sum (← createLogicalExpr arg)
    | "AVG" => do return .aggregateExpr .avg (← createLogicalExpr arg)
    | "COUNT" =>
      match arg with
      | .identifier "*" => .ok (.aggregateExpr .count (.literalLong 1))
      | arg => do return .aggregateExpr .count (← createLogicalExpr arg)
    | _ => .error (.unsupported ("Invalid aggregate function: " ++ id))
  | .function id [] => .error (.unsupported (id ++ "() requires an argument"))
  | .sort _ _ | .select _ =>
    .error (.unsupported "Cannot create logical expression from sql expression")

/-! ## Planned expressions -/

/-- A date literal is parsed. -/
theorem createLogicalExpr_date (v : String) :
    createLogicalExpr (.date v) =
      match DateParser.parse v with
      | some date => .ok (.literalDate date)
      | none => .error (.parseFailed v) := rfl

/-- An interval is parsed. -/
theorem createLogicalExpr_interval (v : String) :
    createLogicalExpr (.interval v) = parseInterval v := rfl

/-- An operation is planned from its operands. -/
theorem createLogicalExpr_binaryExpr (l : SqlExpr) (op : String) (r : SqlExpr) :
    createLogicalExpr (.binaryExpr l op r) = (do
      let l ← createLogicalExpr l
      createBinaryExpr op l (← createLogicalExpr r)) := rfl

/-- An alias is put on the planned operand. -/
theorem createLogicalExpr_aliased (e : SqlExpr) (name : String) :
    createLogicalExpr (.aliased e name) = (do return .aliased (← createLogicalExpr e) name) := rfl

/-- A cast is put on the planned operand, if its type is known. -/
theorem createLogicalExpr_cast (e : SqlExpr) (dataType : String) :
    createLogicalExpr (.cast e dataType) = (do
      let e ← createLogicalExpr e
      return .cast e (← parseDataType dataType)) := rfl

/-- The aggregate that an upper-case function name stands for. -/
def aggregateNamed (name : String) : Option AggregateFn :=
  match name with
  | "MIN" => some .min
  | "MAX" => some .max
  | "SUM" => some .sum
  | "AVG" => some .avg
  | "COUNT" => some .count
  | _ => none

/-- The argument of an aggregate: `COUNT(*)` counts the literal 1. -/
def createArgument (fn : AggregateFn) (arg : SqlExpr) : Result LogicalExpr :=
  match fn, arg with
  | .count, .identifier "*" => .ok (.literalLong 1)
  | _, arg => createLogicalExpr arg

/-- A call is planned as the aggregate of its name. -/
theorem createLogicalExpr_function (id : String) (arg : SqlExpr) (args : List SqlExpr) :
    createLogicalExpr (.function id (arg :: args)) =
      match aggregateNamed (Text.toUppercase id) with
      | some fn => do return .aggregateExpr fn (← createArgument fn arg)
      | none => .error (.unsupported ("Invalid aggregate function: " ++ id)) := by
  conv_lhs => unfold createLogicalExpr
  -- The arms of the source, in its order: MIN, MAX, SUM, AVG, COUNT and the rest.
  split
  case h_1 h | h_2 h | h_3 h | h_4 h =>
    rw [h]
    rfl
  case h_5 h =>
    rw [h]
    split
    · rfl
    · rename_i hstar
      -- COUNT plans its argument like the others, a star apart.
      have hargument : createArgument .count arg = createLogicalExpr arg := by
        unfold createArgument
        split
        · exact absurd rfl hstar
        · rfl
      exact (congrArg (· >>= fun e => pure (LogicalExpr.aggregateExpr .count e)) hargument).symm
  case h_6 hmin hmax hsum havg hcount =>
    have hnone : aggregateNamed (Text.toUppercase id) = none := by
      unfold aggregateNamed
      split
      case h_1 h => exact absurd h hmin
      case h_2 h => exact absurd h hmax
      case h_3 h => exact absurd h hsum
      case h_4 h => exact absurd h havg
      case h_5 h => exact absurd h hcount
      case h_6 => rfl
    rw [hnone]

/-- A function that is planned is an aggregate. -/
theorem createLogicalExpr_function_ok {id : String} {args : List SqlExpr} {e : LogicalExpr}
    (h : createLogicalExpr (.function id args) = .ok e) : ∃ fn a, e = .aggregateExpr fn a := by
  cases args with
  | nil => cases h
  | cons arg args =>
    rw [createLogicalExpr_function] at h
    split at h
    · obtain ⟨argument, -, rfl⟩ := Outcome.bind_pure_eq_ok_iff.mp h
      exact ⟨_, argument, rfl⟩
    · cases h

variable [Readers]

/-- The tables by name. -/
abbrev Tables := String → Option DataFrame

/-- `columns_referenced_by_selection`: the columns of the table that the filter refers to. -/
def columnsReferencedBySelection (select : SqlSelect) (table : DataFrame) :
    Result (List String) :=
  match select.selection with
  | none => .ok []
  | some selection => do
    let accumulator := visit (← createLogicalExpr selection) []
    let schema ← table.schema
    return accumulator.filter fun name => name ∈ schema.names

/-- The select items in the output of the aggregate, with the aggregates. Of the items so far,
`aggregates` were aggregates and `groupCount` were not. -/
def splitProjection (numGroupCols : ℕ) :
    ℕ → ℕ → List LogicalExpr → Result (List LogicalExpr × List AggregateExpr)
  | _, _, [] => .ok ([], [])
  | aggregates, groupCount, .aggregateExpr fn e :: rest => do
    let (projection, aggr) ← splitProjection numGroupCols (aggregates + 1) groupCount rest
    return (.columnIndex (numGroupCols + aggregates) :: projection, ⟨fn, e⟩ :: aggr)
  | aggregates, groupCount, .aliased (.aggregateExpr fn e) name :: rest => do
    let (projection, aggr) ← splitProjection numGroupCols (aggregates + 1) groupCount rest
    return (.aliased (.columnIndex (numGroupCols + aggregates)) name :: projection, ⟨fn, e⟩ :: aggr)
  | _, _, .aliased _ _ :: _ =>
    .error (.unsupported "Alias in aggregate query must wrap an aggregate expression")
  | aggregates, groupCount, _ :: rest => do
    let (projection, aggr) ← splitProjection numGroupCols aggregates (groupCount + 1) rest
    return (.columnIndex groupCount :: projection, aggr)

/-- A limit, where there is one. -/
def limited (plan : DataFrame) : Option Int32 → DataFrame
  | some n => plan.limit n
  | none => plan

def planNonAggregateQuery (select : SqlSelect) (df : DataFrame) (projectionExpr : List LogicalExpr)
    (columnNamesInSelection columnNamesInProjection : List String) : Result DataFrame :=
  match select.selection with
  | none => .ok (limited (df.project projectionExpr) select.limit)
  | some selection => do
    let missing := orderedDifference columnNamesInSelection columnNamesInProjection
    if missing.isEmpty then
      let plan := df.project projectionExpr
      return limited (plan.filter (← createLogicalExpr selection)) select.limit
    else
      let plan := df.project (projectionExpr ++ missing.map .column)
      let plan := plan.filter (← createLogicalExpr selection)
      -- drop the columns that were added for the selection
      let schema ← plan.schema
      let expr ← (List.range projectionExpr.length).mapM fun i => do
        return .column (← index schema.fields i).name
      return limited (plan.project expr) select.limit

def planAggregateQuery (projectionExpr : List LogicalExpr) (select : SqlSelect)
    (columnNamesInSelection : List String) (df : DataFrame) (aggregateExpr : List AggregateExpr) :
    Result DataFrame := do
  let projectionWithoutAggregates := projectionExpr.filter fun e => !isAggregateExpr e
  let columnNamesInAggregates := aggregateExpr.foldl (fun acc agg => visitAggregate agg acc) []
  let plan ←
    match select.selection with
    | none => pure df
    | some selection => do
      let columnNames := referencedColumns projectionWithoutAggregates
      let allRequiredColumns :=
        orderedExtend (orderedExtend columnNames columnNamesInSelection) columnNamesInAggregates
      let missing := orderedDifference allRequiredColumns columnNames
      let plan := df.project (projectionWithoutAggregates ++ missing.map .column)
      pure (plan.filter (← createLogicalExpr selection))
  return plan.aggregate (← select.groupBy.mapM createLogicalExpr) aggregateExpr

/-- The aggregate branch of `create_data_frame`. -/
def planAggregateSelect (select : SqlSelect) (table : DataFrame) (projectionExpr : List LogicalExpr)
    (columnNamesInSelection : List String) : Result DataFrame := do
  let (projection, aggrExpr) ← splitProjection select.groupBy.length 0 0 projectionExpr
  let plan ← planAggregateQuery projectionExpr select columnNamesInSelection table aggrExpr
  let plan := plan.project projection
  let plan ←
    match select.having with
    | some having => do pure (plan.filter (← createLogicalExpr having))
    | none => pure plan
  return limited plan select.limit

/-- Create a logical plan from a parsed `SELECT`. -/
def createDataFrame (select : SqlSelect) (tables : Tables) : Result DataFrame := do
  let table ←
    match tables select.tableName with
    | some table => pure table
    | none => throw (.other "No table of this name")
  let projectionExpr ← select.projection.mapM createLogicalExpr
  let columnNamesInProjection := referencedColumns projectionExpr
  let aggregateExprCount := (projectionExpr.filter isAggregateExpr).length
  if aggregateExprCount = 0 && !select.groupBy.isEmpty then
    throw (.unsupported "GROUP BY without aggregate expressions is not supported")
  let columnNamesInSelection ← columnsReferencedBySelection select table
  if aggregateExprCount = 0 then
    planNonAggregateQuery select table projectionExpr columnNamesInSelection
      columnNamesInProjection
  else
    planAggregateSelect select table projectionExpr columnNamesInSelection

/-- What a statement is planned as: the branch depends on whether a select item is an aggregate. -/
theorem createDataFrame_eq_ok_iff {select : SqlSelect} {tables : Tables} {df : DataFrame} :
    createDataFrame select tables = .ok df ↔
      ∃ table projectionExpr inSelection, tables select.tableName = some table ∧
        select.projection.mapM createLogicalExpr = .ok projectionExpr ∧
        columnsReferencedBySelection select table = .ok inSelection ∧
        ((projectionExpr.all fun e => !isAggregateExpr e) = true ∧ select.groupBy = [] ∧
          planNonAggregateQuery select table projectionExpr inSelection
            (referencedColumns projectionExpr) = .ok df ∨
        (projectionExpr.any isAggregateExpr) = true ∧
          planAggregateSelect select table projectionExpr inSelection = .ok df) := by
  -- The source branches on how many items are aggregates; all that counts is whether any is.
  have hcount : ∀ es : List LogicalExpr, (es.filter isAggregateExpr).length = 0 ↔
      (es.all fun e => !isAggregateExpr e) = true := by
    intro es
    rw [List.length_eq_zero_iff, List.filter_eq_nil_iff, List.all_eq_true]
    exact forall₂_congr fun e _ => by simp
  have hany : ∀ es : List LogicalExpr, ¬ (es.filter isAggregateExpr).length = 0 ↔
      (es.any isAggregateExpr) = true := by
    intro es
    rw [hcount]
    simp
  have hthrow : ∀ {α : Type} {β : Type} (e : Panic) (f : α → Result β) (b : β),
      ¬ ((throw e : Result α) >>= f) = .ok b := fun e f b h => by cases h
  rw [createDataFrame]
  cases tables select.tableName with
  | none => simp [hthrow]
  | some table =>
    simp only [Outcome.pure_eq_ok, Outcome.ok_bind, Outcome.bind_eq_ok_iff, Option.some.injEq,
      exists_eq_left', exists_and_left]
    refine exists_congr fun projectionExpr => and_congr_right fun _ => ?_
    by_cases hzero : (projectionExpr.filter isAggregateExpr).length = 0
    · have hnone := (hany projectionExpr).not.mp (not_not.mpr hzero)
      have hall := (hcount projectionExpr).mp hzero
      -- GROUP BY without an aggregate is an error.
      by_cases hgroup : select.groupBy = []
      · simp [hzero, hgroup, hall, hnone, Outcome.bind_eq_ok_iff]
      · simp [hzero, hgroup, hnone, hthrow]
    · have hsome := (hany projectionExpr).mp hzero
      have hnot := (hcount projectionExpr).not.mp hzero
      simp [hzero, hnot, hsome, Outcome.bind_eq_ok_iff]

/-- An aggregate query is an aggregate over the table, or over the filtered table. -/
theorem planAggregateQuery_ok {projectionExpr : List LogicalExpr} {select : SqlSelect}
    {inSelection : List String} {df plan : DataFrame} {aggregateExpr : List AggregateExpr}
    (h : planAggregateQuery projectionExpr select inSelection df aggregateExpr = .ok plan) :
    ∃ input group, select.groupBy.mapM createLogicalExpr = .ok group ∧
      plan = input.aggregate group aggregateExpr ∧
      match select.selection with
      | none => input = df
      | some selection => ∃ e exprs, createLogicalExpr selection = .ok e ∧
        input = (df.project exprs).filter e := by
  unfold planAggregateQuery at h
  cases hselection : select.selection with
  | none =>
    rw [hselection] at h
    obtain ⟨group, hgroup, rfl⟩ := Outcome.bind_pure_eq_ok_iff.mp h
    exact ⟨df, group, hgroup, rfl, rfl⟩
  | some selection =>
    rw [hselection] at h
    obtain ⟨e, he, h⟩ := Outcome.bind_eq_ok_iff.mp h
    obtain ⟨group, hgroup, rfl⟩ := Outcome.bind_pure_eq_ok_iff.mp h
    exact ⟨_, group, hgroup, rfl, e, _, he, rfl⟩

/-- The filter of a `HAVING` clause. -/
def havingFilter (plan : DataFrame) : Option SqlExpr → Result DataFrame
  | some having => do return plan.filter (← createLogicalExpr having)
  | none => .ok plan

/-- The steps of planning a query with aggregates. -/
theorem planAggregateSelect_eq_ok_iff {select : SqlSelect} {table df : DataFrame}
    {projectionExpr : List LogicalExpr} {inSelection : List String} :
    planAggregateSelect select table projectionExpr inSelection = .ok df ↔
      ∃ projection aggr plan filtered,
        splitProjection select.groupBy.length 0 0 projectionExpr = .ok (projection, aggr) ∧
        planAggregateQuery projectionExpr select inSelection table aggr = .ok plan ∧
        havingFilter (plan.project projection) select.having = .ok filtered ∧
        limited filtered select.limit = df := by
  rw [planAggregateSelect, Outcome.bind_eq_ok_iff, Prod.exists]
  refine exists₂_congr fun projection aggr => ?_
  simp only [exists_and_left]
  refine and_congr_right fun _ => ?_
  rw [Outcome.bind_eq_ok_iff]
  refine exists_congr fun plan => and_congr_right fun _ => ?_
  unfold havingFilter
  cases select.having with
  | none => simp
  | some having => simp [Outcome.bind_eq_ok_iff]

end SqlPlanner

end RQuery
