import RQuery.Physical.Plan

/-!
# Wire messages

The messages of `rquery.proto`, as far as the serializers write them and the deserializers read
them. A sub-message may be unset, a `oneof` too, and an enumeration is stored as its number.
-/

namespace RQuery

/-- `Option::expect`. -/
def expect {α : Type} (x : Option α) (message : String) : Result α :=
  match x with
  | some a => .ok a
  | none => .error (.other message)

namespace pb

/-! ## Enumerations -/

inductive ArrowType
  | none
  | bool
  | uint8
  | int8
  | uint16
  | int16
  | uint32
  | int32
  | uint64
  | int64
  | halfFloat
  | float
  | double
  | utf8
  | binary
  | fixedSizeBinary
  | date32
  | date64
  | timestamp
  | time32
  | time64
  | interval
  | decimal
  | list
  | struct
  | union
  | dictionary
  | map
  deriving DecidableEq, Repr

namespace ArrowType

/-- The types, each at the position of its number. -/
def all : List ArrowType :=
  [none, bool, uint8, int8, uint16, int16, uint32, int32, uint64, int64, halfFloat, float, double,
    utf8, binary, fixedSizeBinary, date32, date64, timestamp, time32, time64, interval, decimal,
    list, struct, union, dictionary, map]

/-- `as i32`. -/
def number (t : ArrowType) : Int32 := Int32.ofNat (all.idxOf t)

def tryFrom (n : Int32) : Option ArrowType := all.find? fun t => t.number = n

@[simp] theorem tryFrom_number (t : ArrowType) : tryFrom t.number = some t := by
  cases t <;> decide

end ArrowType

inductive AggregateFunction
  | min
  | max
  | sum
  | avg
  | count
  | countDistinct
  deriving DecidableEq, Repr

namespace AggregateFunction

def all : List AggregateFunction := [min, max, sum, avg, count, countDistinct]

/-- `as i32`. -/
def number (f : AggregateFunction) : Int32 := Int32.ofNat (all.idxOf f)

def tryFrom (n : Int32) : Option AggregateFunction := all.find? fun f => f.number = n

@[simp] theorem tryFrom_number (f : AggregateFunction) : tryFrom f.number = some f := by
  cases f <;> decide

end AggregateFunction

inductive AggregateMode
  | complete
  | partialMode
  | final
  deriving DecidableEq, Repr

namespace AggregateMode

def all : List AggregateMode := [complete, partialMode, final]

/-- `as i32`. -/
def number (m : AggregateMode) : Int32 := Int32.ofNat (all.idxOf m)

def tryFrom (n : Int32) : Option AggregateMode := all.find? fun m => m.number = n

@[simp] theorem tryFrom_number (m : AggregateMode) : tryFrom m.number = some m := by
  cases m <;> decide

end AggregateMode

/-! ## Schemas -/

structure Field where
  name : String
  arrowType : Int32
  deriving DecidableEq

structure Schema where
  columns : List Field
  deriving DecidableEq

/-! ## Physical plans -/

structure ShuffleLocation where
  jobUuid : String
  stageId : Int32
  partitionId : Int32
  executorId : String
  executorHost : String
  executorPort : Int32
  deriving DecidableEq

variable [FloatModel]

inductive PhysicalExprNode
  | unset
  | column (i : Int32)
  | literalString (s : String)
  | literalLong (n : Int64)
  | literalDouble (n : F64)
  | literalDate (days : Int32)
  | binaryExpr (l r : Option PhysicalExprNode) (op : String)
  | castExpr (expr : Option PhysicalExprNode) (arrowType : Int32)

structure PhysicalAggregateExprNode where
  aggrFunction : Int32
  inputExpr : Option PhysicalExprNode

inductive PhysicalPlanNode
  | unset
  | scan (path : String) (schema : Option Schema) (projection : List String) (fileFormat : String)
  | projection (input : Option PhysicalPlanNode) (schema : Option Schema)
      (expr : List PhysicalExprNode)
  | selection (input : Option PhysicalPlanNode) (expr : Option PhysicalExprNode)
  | hashAggregate (input : Option PhysicalPlanNode) (groupExpr : List PhysicalExprNode)
      (aggregateExpr : List PhysicalAggregateExprNode) (schema : Option Schema) (mode : Int32)
  | shuffleWriter (input : Option PhysicalPlanNode) (partitionExpr : List PhysicalExprNode)
      (jobUuid : String) (stageId partitionCount : Int32)
  | shuffleReader (schema : Option Schema) (shuffleLocations : List ShuffleLocation)

structure TaskInfo where
  jobUuid : String
  stageId : Int32
  taskId : Int32
  partitionId : Int32
  plan : Option PhysicalPlanNode

/-! ## Logical plans -/

inductive LogicalExprNode
  | unset
  | columnName (name : String)
  | aliasNode (expr : Option LogicalExprNode) (name : String)
  | literalString (s : String)
  | literalInt8 (n : Int32)
  | literalInt16 (n : Int32)
  | literalInt32 (n : Int32)
  | literalInt64 (n : Int64)
  | literalUint8 (n : UInt32)
  | literalUint16 (n : UInt32)
  | literalUint32 (n : UInt32)
  | literalUint64 (n : UInt64)
  | literalF32 (n : F32)
  | literalF64 (n : F64)
  | literalDate (days : Int32)
  | binaryExpr (l r : Option LogicalExprNode) (op : String)
  | aggregateExpr (aggrFunction : Int32) (expr : Option LogicalExprNode)
  | isNullExpr (expr : Option LogicalExprNode)
  | isNotNullExpr (expr : Option LogicalExprNode)
  | notExpr (expr : Option LogicalExprNode)

structure CsvTableScanNode where
  path : String
  hasHeader : Bool
  projection : Option (List String)

structure ParquetTableScanNode where
  path : String
  projection : Option (List String)

structure AggregateNode where
  groupExpr : List LogicalExprNode
  aggrExpr : List LogicalExprNode

mutual

/-- The input is a field of the node, and every operator has a field of its own. -/
inductive LogicalPlanNode
  | mk (input : Option LogicalPlanNode) (csvScan : Option CsvTableScanNode)
      (parquetScan : Option ParquetTableScanNode) (selection : Option (Option LogicalExprNode))
      (projection : Option (List LogicalExprNode)) (limit : Option UInt32)
      (aggregate : Option AggregateNode) (join : Option JoinNode)

inductive JoinNode
  | mk (left right : Option LogicalPlanNode) (joinType : Int32)
      (leftJoinColumn rightJoinColumn : List String)

end

end pb

end RQuery
