import RQuery.LogicalPlan.References
import Mathlib.Data.List.Sort
import Mathlib.Data.Finset.Lattice.Basic

/-!
# Projection push-down

`ProjectionPushDownRule` collects the column names that the operators refer to on the way down and
trims the projection of every scan to the requested columns of its source, sorted by name. One set
of names is threaded through the whole tree: the right side of a join also sees the names collected
on its left side.
-/

namespace RQuery

variable [FloatModel]

/-- Insert names into a set of names. -/
def insertNames (accum : Finset String) (names : List String) : Finset String :=
  accum ∪ names.toFinset

/-- Collect the column names referenced by a single expression. -/
def extractColumns (input : Result Schema) (accum : Finset String) :
    LogicalExpr → Result (Finset String)
  | .columnIndex i => do return insert (← index (← input).fields i).name accum
  | .column name => .ok (insert name accum)
  | .binary _ l r => do extractColumns input (← extractColumns input accum l) r
  | .aliased e _ => extractColumns input accum e
  | .cast e _ => extractColumns input accum e
  | .literalString _ | .literalLong _ | .literalDouble _ | .literalDate _
  | .literalIntervalDays _ => .ok accum
  | .dateSubtractInterval date interval | .dateAddInterval date interval => do
    extractColumns input (← extractColumns input accum date) interval
  | .literalFloat _ | .not _ | .scalarFunction _ _ | .aggregateExpr _ _ =>
    .error (.unsupported "extractColumns does not support expression")

/-- Collect the column names referenced by each expression. -/
def extractColumnsList (input : Result Schema) (accum : Finset String) (exprs : List LogicalExpr) :
    Result (Finset String) :=
  exprs.foldlM (extractColumns input) accum

/-- `aggregate_inner`: the argument expression inside an aggregate. -/
def aggregateInner (agg : AggregateExpr) : LogicalExpr := agg.expr

/-- The names a join passes on: those requested of it, all columns of both sides if there are none
(the join is at the root), and its keys. -/
def joinNames (left right : Result Schema) (on : List (String × String))
    (columnNames : Finset String) : Result (Finset String) := do
  let keys := on.flatMap fun k => [k.1, k.2]
  if columnNames = ∅ then
    let columnNames := insertNames columnNames (← left).names
    return insertNames (insertNames columnNames (← right).names) keys
  else
    return insertNames columnNames keys

variable [Readers]

/-- Rewrite a plan, accumulating referenced column names on the way down and trimming the scan's
projection at the leaf. -/
def pushDown : LogicalPlan → Finset String → Result (LogicalPlan × Finset String)
  | .projection input expr, columnNames => do
    let columnNames ← extractColumnsList input.schema columnNames expr
    let (input, columnNames) ← pushDown input columnNames
    return (.projection input expr, columnNames)
  | .selection input expr, columnNames => do
    let columnNames ← extractColumns input.schema columnNames expr
    let (input, columnNames) ← pushDown input columnNames
    return (.selection input expr, columnNames)
  | .aggregate input groupExpr aggregateExpr, columnNames => do
    let columnNames ← extractColumnsList input.schema columnNames groupExpr
    let columnNames ← extractColumnsList input.schema columnNames
      (aggregateExpr.map aggregateInner)
    let (input, columnNames) ← pushDown input columnNames
    return (.aggregate input groupExpr aggregateExpr, columnNames)
  | .limit input n, columnNames => do
    let (input, columnNames) ← pushDown input columnNames
    return (.limit input n, columnNames)
  | .join left right joinType on, columnNames => do
    let columnNames ← joinNames left.schema right.schema on columnNames
    let (left, columnNames) ← pushDown left columnNames
    let (right, columnNames) ← pushDown right columnNames
    return (.join left right joinType on, columnNames)
  | .scan s, columnNames => do
    let schema ← s.dataSource.schema
    let pushdown := (schema.names.filter fun name => name ∈ columnNames).insertionSort (· ≤ ·)
    return (.scan (← Scan.new s.path s.dataSource pushdown), columnNames)

/-- `Optimizer::optimize`, with its one rule. -/
def optimize (plan : LogicalPlan) : Result LogicalPlan := do
  return (← pushDown plan ∅).1

end RQuery
