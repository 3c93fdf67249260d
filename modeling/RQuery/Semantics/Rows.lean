import RQuery.QueryPlanner.QueryPlanner
import RQuery.Common.Joins

/-!
# The row semantics of logical plans

What a logical plan says of the rows of its sources, without batches: an expression is evaluated in
every row of its input, a name being the first field of that name; a selection keeps the rows for
which its condition is true; a limit keeps a prefix; an aggregate has a row for every group, in the
order in which the groups first occur; a join pairs rows by key and lays a pair out as its schema
does. Expressions mean what the expressions they are lowered to compute.
-/

namespace RQuery

variable [FloatModel] [Readers]

/-- The rows of every source, with all columns. -/
structure Content where
  rows : DataSource → List Row
  fits : ∀ ds schema, ds.schema = .ok schema → ∀ r ∈ rows ds, RowFits schema.types r

/-- The cells at the given positions. -/
def cellsAt (positions : List ℕ) (row : Row) : Row :=
  positions.map fun i => row.getD i .null

/-- The cells of the fields that are not dropped. -/
def keptCells (dropped : List String) (schema : Schema) (row : Row) : Row :=
  ((schema.fields.zip row).filter fun c => c.1.name ∉ dropped).map Prod.snd

/-- The row of a pair, laid out as the join's schema. -/
def joinRow (joinType : JoinType) (on : List (String × String)) (left right : Schema)
    (l r : Row) : Row :=
  match joinType with
  | .inner | .left => l ++ keptCells (duplicateKeys on) right r
  | .right => keptCells (duplicateKeys on) left l ++ r

/-- A row without values. -/
def nullRow (schema : Schema) : Row := List.replicate schema.fields.length .null

/-- The rows of a join. -/
def joinRows (joinType : JoinType) (on : List (String × String)) (left right : Schema)
    (keyL keyR : Row → List ScalarValue) (ls rs : List Row) : List Row :=
  let pair := joinRow joinType on left right
  match joinType with
  | .inner => Joins.inner keyL keyR pair ls rs
  | .left => Joins.left keyL keyR pair (fun l => pair l (nullRow right)) ls rs
  | .right => Joins.right keyL keyR pair (fun r => pair (nullRow left) r) ls rs

variable [Runtime]

/-- The rows of a plan. -/
def LogicalPlan.denote (content : Content) : LogicalPlan → Result (List Row)
  | .scan s => do
    let schema ← s.dataSource.schema
    if s.projection.isEmpty then
      return content.rows s.dataSource
    else
      let positions ← schema.resolve s.projection
      return (content.rows s.dataSource).map (cellsAt positions)
  | .projection input expr => do
    let schema ← input.schema
    let expr ← expr.mapM (createPhysicalExpr (.ok schema))
    let rows ← input.denote content
    rows.mapM fun r => expr.mapM fun e => e.evalCell schema.types r
  | .selection input expr => do
    let schema ← input.schema
    let expr ← createPhysicalExpr (.ok schema) expr
    let rows ← input.denote content
    return keepTrue rows (← rows.mapM (expr.evalCell schema.types))
  | .aggregate input groupExpr aggregateExpr => do
    let schema ← input.schema
    let group ← groupExpr.mapM (createPhysicalExpr (.ok schema))
    let aggregate ← aggregateExpr.mapM (createAggregateExpr (.ok schema))
    let agg : HashAggregate :=
      ⟨group, aggregate, ← (LogicalPlan.aggregate input groupExpr aggregateExpr).schema⟩
    let rows ← input.denote content
    agg.outputRows .completeMode (← rows.mapM (agg.readItem schema.types))
  | .join left right joinType on => do
    let leftSchema ← left.schema
    let rightSchema ← right.schema
    let leftKeys ← on.mapM fun k => fieldPosition leftSchema k.1
    let rightKeys ← on.mapM fun k => fieldPosition rightSchema k.2
    let ls ← left.denote content
    let rs ← right.denote content
    return joinRows joinType on leftSchema rightSchema (cellsAt leftKeys) (cellsAt rightKeys) ls rs
  | .limit input n => do
    return (← input.denote content).take (asUsize n)

end RQuery
