import RQuery.Physical.Operators

/-!
# Shuffle files

The exchange between the stages of a distributed job. `ShuffleWriterExec` hashes the rows of its
input into partitions and writes each non-empty partition to a file named by job, stage and
partition; `ShuffleReaderExec` reads such files back. A file holds the batches last written to it.
-/

namespace RQuery

/-- `n as usize`, which extends the sign of an `i32`. -/
def asUsize (n : Int32) : ℕ := (n.toInt % 2 ^ 64).toNat

variable [FloatModel]

/-- A reference to one partition file and the executor that holds it. -/
structure ShuffleLocation where
  jobUuid : String
  stageId : Int32
  partitionId : Int32
  executorId : String
  executorHost : String
  executorPort : Int32
  deriving DecidableEq

/-- The name of a partition file. -/
structure PartitionFile where
  jobUuid : String
  stageId : Int32
  partitionId : Int32
  deriving DecidableEq

/-- The files below the base directory of one `ShuffleManager`. -/
structure ShuffleManager where
  files : List (PartitionFile × List RecordBatch)
  deriving DecidableEq

namespace ShuffleManager

/-- No files. -/
def empty : ShuffleManager := ⟨[]⟩

/-- The batches in a file. -/
def file? (m : ShuffleManager) (file : PartitionFile) : Option (List RecordBatch) :=
  (m.files.find? fun entry => entry.1 = file).map Prod.snd

/-- `write_partition`: a no-op without batches, else the file is replaced. -/
def writePartition (m : ShuffleManager) (file : PartitionFile) (batches : List RecordBatch) :
    ShuffleManager :=
  if batches.isEmpty then m
  else ⟨(file, batches) :: m.files.filter fun entry => entry.1 ≠ file⟩

/-- `read_partition`. -/
def readPartition (m : ShuffleManager) (file : PartitionFile) : BatchStream :=
  match m.file? file with
  | some batches => batches.map .ok
  | none => [.error (.inputOutput s!"partition_{file.partitionId}.arrow")]

end ShuffleManager

/-- The executor that runs a plan, with its shuffle storage. -/
structure ExecutorContext where
  executorId : String
  executorHost : String
  executorPort : Int32
  shuffleManager : ShuffleManager
  deriving DecidableEq

/-! ## Hashing -/

/-- The position of a value's variant in the enum. -/
def ScalarValue.discriminant : ScalarValue → ℕ
  | null => 0
  | boolean _ => 1
  | int8 _ => 2
  | int16 _ => 3
  | int32 _ => 4
  | int64 _ => 5
  | uint8 _ => 6
  | uint16 _ => 7
  | uint32 _ => 8
  | uint64 _ => 9
  | float32 _ => 10
  | float64 _ => 11
  | utf8 _ => 12
  | binary _ => 13
  | date32 _ => 14

/-- `hash_scalar`: the variant, then the value; floats by bit pattern. -/
def ScalarValue.hashWrites (v : ScalarValue) : List HashWrite :=
  .discriminant v.discriminant ::
    match v with
    | null => []
    | boolean b => [.bool b]
    | int8 n => [.int 8 n.toInt]
    | int16 n => [.int 16 n.toInt]
    | int32 n => [.int 32 n.toInt]
    | int64 n => [.int 64 n.toInt]
    | uint8 n => [.int 8 n.toNat]
    | uint16 n => [.int 16 n.toNat]
    | uint32 n => [.int 32 n.toNat]
    | uint64 n => [.int 64 n.toNat]
    | float32 f => [.int 32 (FloatModel.single.toBits f)]
    | float64 f => [.int 64 (FloatModel.double.toBits f)]
    | utf8 s => [.str s]
    | binary b => [.bytes b]
    | date32 d => [.int 32 d.toInt]

variable [Runtime]

/-- The partition of one key: `hasher.finish() % partition_count`. -/
def hashTarget (key : List ScalarValue) (partitionCount : ℕ) : Result ℕ :=
  if partitionCount = 0 then .error .divideByZero
  else .ok ((Runtime.finish (key.flatMap ScalarValue.hashWrites)).toNat % partitionCount)

/-! ## The writer -/

/-- `ShuffleWriterExec` without its input. -/
structure ShuffleWriter where
  partitionExpr : List Expression
  jobUuid : String
  stageId : Int32
  partitionCount : Int32
  deriving DecidableEq

namespace ShuffleWriter

/-- `compute_targets`: the partition of every row of a batch. -/
def computeTargets (keyColumns : List ColumnVector) (rowCount partitionCount : ℕ) :
    Result (List ℕ) :=
  (List.range rowCount).mapM fun row => do
    let key ← keyColumns.mapM fun c => c.value row
    hashTarget key partitionCount

/-- Add to every buffer the batch of the rows that belong to its partition. -/
def pushBatch (w : ShuffleWriter) (schema : Schema) (buffers : List (List RecordBatch))
    (batch : RecordBatch) : Result (List (List RecordBatch)) := do
  let keyColumns ← w.partitionExpr.mapM fun e => e.evaluate batch
  let targets ← computeTargets keyColumns batch.numRows (asUsize w.partitionCount)
  buffers.zipIdx.mapM fun x => do
    let take := (List.range batch.numRows).filter fun row => targets[row]? = some x.2
    if take.isEmpty then return x.1 else return x.1 ++ [← takeRows schema batch take]

/-- The batches of every partition. -/
def partitionBatches (w : ShuffleWriter) (schema : Schema) (input : BatchStream) :
    Result (List (List RecordBatch)) :=
  input.foldlM (fun buffers item => do w.pushBatch schema buffers (← item))
    (List.replicate (asUsize w.partitionCount) [])

/-- The file of one partition. -/
def partitionFile (w : ShuffleWriter) (partitionId : ℕ) : PartitionFile :=
  ⟨w.jobUuid, w.stageId, Int32.ofNat partitionId⟩

/-- Write the partitions that are not empty, and return their locations. -/
def storePartitions (w : ShuffleWriter) (ctx : ExecutorContext)
    (buffers : List (List RecordBatch)) : List ShuffleLocation × ShuffleManager :=
  buffers.zipIdx.foldl
    (fun acc x =>
      if x.1.isEmpty then acc
      else
        let file := w.partitionFile x.2
        (acc.1 ++ [⟨file.jobUuid, file.stageId, file.partitionId, ctx.executorId,
          ctx.executorHost, ctx.executorPort⟩], acc.2.writePartition file x.1))
    ([], ctx.shuffleManager)

/-- `write_shuffle`, on the batches and the schema of the input. -/
def writeShuffle (w : ShuffleWriter) (schema : Result Schema) (input : Result BatchStream)
    (ctx : ExecutorContext) : Result (List ShuffleLocation × ShuffleManager) := do
  let schema ← schema
  let buffers ← w.partitionBatches schema (← input)
  return w.storePartitions ctx buffers

end ShuffleWriter

/-! ## The reader -/

/-- `ShuffleReaderExec::execute`: all locations must be local, and are read in order. -/
def readShuffle (ctx : ExecutorContext) (locations : List ShuffleLocation) : Result BatchStream :=
  if locations.any fun loc => loc.executorId ≠ ctx.executorId then
    .error (.unsupported "remote shuffle reads require an Arrow Flight client")
  else
    .ok (locations.flatMap fun loc =>
      ctx.shuffleManager.readPartition ⟨loc.jobUuid, loc.stageId, loc.partitionId⟩)

end RQuery
