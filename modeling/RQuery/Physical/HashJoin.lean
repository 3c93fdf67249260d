import RQuery.LogicalPlan.Plan
import RQuery.Physical.Runtime
import RQuery.Datatypes.RowBuilder
import RQuery.Common.KeyedFold

/-!
# Hash join

`HashJoinExec` builds a hash table of the right rows by key and probes it with every left row. A
right join also emits the right rows whose key no left row has, in the order of the hash table. The
columns in `rightColumnsToExclude`, the keys called the same on both sides, are dropped from the
right row, whatever the join type.
-/

namespace RQuery

variable [FloatModel]

/-- The values a row is hashed and compared by; floats by bit pattern. -/
abbrev RowKey := List ScalarValue

/-- `HashJoinExec` without its inputs. -/
structure HashJoin where
  joinType : JoinType
  leftKeys : List ℕ
  rightKeys : List ℕ
  schema : Schema
  rightColumnsToExclude : List ℕ
  deriving DecidableEq

namespace HashJoin

/-- The right rows by key. -/
abbrev HashTable := List (RowKey × List Row)

/-- The rows of one key. -/
def get? (table : HashTable) (key : RowKey) : Option (List Row) :=
  (table.find? fun entry => entry.1 = key).map Prod.snd

/-- `combine_rows`: a left row and a right row, without the right columns that are excluded. -/
def combineRows (join : HashJoin) (leftRow rightRow : Row) : Row :=
  leftRow ++ (rightRow.zipIdx.filter fun x => x.2 ∉ join.rightColumnsToExclude).map Prod.fst

/-- `key_of`. -/
def keyOf (batch : RecordBatch) (keys : List ℕ) (row : ℕ) : Result RowKey :=
  keys.mapM fun k => do (← batch.field k).value row

/-- `full_row`: every column value for one row. -/
def fullRow (batch : RecordBatch) (row : ℕ) : Result Row :=
  batch.columns.mapM fun c => c.value row

/-- The build phase: push the rows of a right batch into the table. -/
def insertBatch (join : HashJoin) (table : HashTable) (batch : RecordBatch) : Result HashTable :=
  (List.range batch.numRows).foldlM
    (fun table row => do
      let key ← keyOf batch join.rightKeys row
      let rightRow ← fullRow batch row
      KeyedFold.upsert [] (fun rows => .ok (rows ++ [rightRow])) table key) table

/-- The output rows of one left row. Only a left join keeps a row without a match. -/
def probeRow (join : HashJoin) (table : HashTable) (rightFieldCount : ℕ) (probeKey : RowKey)
    (leftRow : Row) : List Row :=
  match get? table probeKey, join.joinType with
  | some rows, _ => rows.map (join.combineRows leftRow)
  | none, .left => [join.combineRows leftRow (List.replicate rightFieldCount .null)]
  | none, _ => []

/-- The output rows of one left batch. -/
def probeBatch (join : HashJoin) (table : HashTable) (rightFieldCount : ℕ) (batch : RecordBatch) :
    Result (List Row) := do
  let rows ← (List.range batch.numRows).mapM fun row => do
    let probeKey ← keyOf batch join.leftKeys row
    return join.probeRow table rightFieldCount probeKey (← fullRow batch row)
  return rows.flatten

/-- `create_batch` on the rows that were output, if any. -/
def createBatches (join : HashJoin) (rows : List Row) : Result (List RecordBatch) :=
  if rows.isEmpty then .ok [] else do return [← buildRows join.schema rows]

/-- The right rows that no left row matches, after a row of nulls. -/
def unmatchedRows [Runtime] (join : HashJoin) (table : HashTable) (matchedKeys : List RowKey)
    (leftFieldCount : ℕ) : List Row :=
  (Runtime.mapOrder table).flatMap fun entry =>
    if entry.1 ∈ matchedKeys then []
    else entry.2.map (join.combineRows (List.replicate leftFieldCount .null))

/-- The keys of the left rows that match. -/
def matchedKeys (join : HashJoin) (table : HashTable) (left : BatchStream) :
    Result (List RowKey) := do
  let keys ← left.mapM fun item => do
    let batch ← item
    (List.range batch.numRows).mapM (keyOf batch join.leftKeys)
  return keys.flatten.filter fun key => (get? table key).isSome

/-- `HashJoinExec::execute`, on the batches and schemas of its inputs. -/
def run [Runtime] (join : HashJoin) (leftSchema rightSchema : Result Schema)
    (left right : BatchStream) : Result BatchStream := do
  let table ← right.foldlM (fun table item => do join.insertBatch table (← item)) []
  let rightFieldCount := (← rightSchema).fields.length
  let outputs ← left.mapM fun item => do
    join.createBatches (← join.probeBatch table rightFieldCount (← item))
  let unmatched ←
    if join.joinType = .right then do
      let matched ← join.matchedKeys table left
      let leftFieldCount := (← leftSchema).fields.length
      join.createBatches (join.unmatchedRows table matched leftFieldCount)
    else
      pure []
  return (outputs.flatten ++ unmatched).map .ok

end HashJoin

end RQuery
