import RQuery.Physical.HashAggregate
import RQuery.Physical.HashJoin
import RQuery.Physical.Shuffle

/-!
# Physical plans

The operator tree, the schema each operator declares and its execution. The streaming operators map
the batches of their input; an aggregation and a join consume their inputs when `execute` is called.
-/

namespace RQuery

variable [FloatModel]

/-- A physical plan: an executable tree of operators. -/
inductive PhysicalPlan
  | scan (ds : DataSource) (projection : List String)
  | projection (input : PhysicalPlan) (schema : Schema) (expr : List Expression)
  | selection (input : PhysicalPlan) (expr : Expression)
  | limit (input : PhysicalPlan) (limit : ℕ)
  | hashAggregate (input : PhysicalPlan) (agg : HashAggregate) (mode : AggregateMode)
  | hashJoin (left right : PhysicalPlan) (join : HashJoin)
  | shuffleReader (shuffleSchema : Schema) (shuffleLocations : List ShuffleLocation)
  | shuffleWriter (input : PhysicalPlan) (writer : ShuffleWriter)
  /-- `InMemoryPlan`: replays batches that were already read. -/
  | inMemory (schema : Schema) (batches : List RecordBatch)
  deriving DecidableEq

namespace PhysicalPlan

variable [Readers]

/-- The schema of the data the plan declares to produce. -/
def schema : PhysicalPlan → Result Schema
  | scan ds columns => do (← ds.schema).select columns
  | projection _ schema _ => .ok schema
  | selection input _ => input.schema
  | limit input _ => input.schema
  | hashAggregate _ agg _ => .ok agg.schema
  | hashJoin _ _ join => .ok join.schema
  | shuffleReader shuffleSchema _ => .ok shuffleSchema
  | shuffleWriter input _ => input.schema
  | inMemory schema _ => .ok schema

variable [Runtime]

/-- Execute the plan: a stream of batches. -/
def execute (ctx : ExecutorContext) : PhysicalPlan → Result BatchStream
  | scan ds columns => ds.scan columns
  | projection input schema expr => do
    return (← input.execute ctx).map fun item => do projectBatch schema expr (← item)
  | selection input expr => do
    let schema ← input.schema
    return (← input.execute ctx).map fun item => do filterBatch schema expr (← item)
  | limit input n => do
    let schema ← input.schema
    return limitStream schema n (← input.execute ctx)
  | hashAggregate input agg mode => do
    return [.ok (← agg.run mode (← input.execute ctx))]
  | hashJoin left right join => do
    join.run left.schema right.schema (← left.execute ctx) (← right.execute ctx)
  | shuffleReader _ locations => readShuffle ctx locations
  | shuffleWriter _ _ => .error (.unsupported "ShuffleWriterExec::execute()")
  | inMemory _ batches => .ok (batches.map .ok)

end PhysicalPlan

/-- Pull every batch of a stream. -/
def collect (stream : BatchStream) : Result (List RecordBatch) := stream.mapM id

/-- The rows of the batches, in order. -/
def rowsOf (batches : List RecordBatch) : List Row := batches.flatMap RecordBatch.rows

/-- The rows of a stream. -/
def streamRows (stream : BatchStream) : Result (List Row) := do
  return rowsOf (← collect stream)

@[simp] theorem streamRows_single (b : RecordBatch) : streamRows [.ok b] = .ok b.rows := by
  show Except.ok (rowsOf [b]) = _
  rw [rowsOf, List.flatMap_singleton]

/-- The rows that executing a plan yields. -/
def PhysicalPlan.rows [Readers] [Runtime] (ctx : ExecutorContext) (plan : PhysicalPlan) :
    Result (List Row) := do
  streamRows (← plan.execute ctx)

/-- A unit of distributed work: the plan to run for one partition of one stage of a job. -/
structure Task where
  jobUuid : String
  stageId : Int32
  taskId : Int32
  partitionId : Int32
  plan : PhysicalPlan
  deriving DecidableEq

end RQuery
