import RQuery.Sql.Planner
import RQuery.Optimizer.ProjectionPushDown
import RQuery.QueryPlanner.QueryPlanner

/-!
# The execution context

`ExecutionContext` takes a SQL text or a data frame through the whole pipeline: tokens, statement,
logical plan, optimized plan, physical plan, rows.
-/

namespace RQuery

variable [FloatModel] [Readers] [UnicodeTables] [DateParser]

open SqlPlanner

/-- Single-node execution context. -/
structure ExecutionContext where
  batchSize : ℕ
  tables : Tables

/-- The statement that a text starts with, and the tokens behind it. -/
def parseStatement (tokens : TokenStream) : Result (SqlSelect × TokenStream) := do
  let (parsed, rest) ← SqlParser.parse 0 tokens
  match parsed with
  | some (.select s) => return (s, rest)
  | _ => throw (.other "Expected a SELECT statement")

namespace ExecutionContext

/-- Create a data frame for a SQL `SELECT`. The tokens behind the statement are dropped. -/
def sql (ctx : ExecutionContext) (text : String) : Result DataFrame := do
  let (select, _) ← parseStatement (← tokenize text)
  createDataFrame select ctx.tables

/-- A data frame of a CSV file with a header line. -/
def csv (ctx : ExecutionContext) (filename : String) : Result DataFrame := do
  let source := CsvDataSource.new filename none true ctx.batchSize
  return ⟨.scan (← Scan.new filename (.csv source) [])⟩

def register (ctx : ExecutionContext) (tableName : String) (df : DataFrame) : ExecutionContext :=
  { ctx with tables := fun name => if name = tableName then some df else ctx.tables name }

/-- Register a CSV file. -/
def registerCsv (ctx : ExecutionContext) (tableName filename : String) :
    Result ExecutionContext := do
  return ctx.register tableName (← ctx.csv filename)

end ExecutionContext

/-- `ExecutionContext::execute`: optimize a plan, lower it and run it. -/
def executePlan [Runtime] (executor : ExecutorContext) (plan : LogicalPlan) :
    Result BatchStream := do
  let physical ← createPhysicalPlan (← optimize plan)
  physical.execute executor

/-- The rows that executing a plan yields. -/
def queryRows [Runtime] (executor : ExecutorContext) (plan : LogicalPlan) : Result (List Row) := do
  streamRows (← executePlan executor plan)

end RQuery
