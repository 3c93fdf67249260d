import RQuery.Protobuf.Messages

/-!
# Physical plans on the wire

`serialize_task` and `deserialize_task`, with what they call for plans, expressions, aggregates,
schemas and shuffle locations. A plan that is shipped comes back as a plan of the same shape
(`deserialize_serializePhysicalPlan`) whose sources and column indices are those that the receiver
reads off the message: a CSV source is rebuilt with a header line, a comma and batches of 1024 rows,
and a column index has been through an `i32`.
-/

namespace RQuery

/-! ## Types and schemas -/

/-- `data_type_to_proto`. -/
def dataTypeToProto : DataType → Result pb.ArrowType
  | .boolean => .ok .bool
  | .int8 => .ok .int8
  | .int16 => .ok .int16
  | .int32 => .ok .int32
  | .int64 => .ok .int64
  | .uint8 => .ok .uint8
  | .uint16 => .ok .uint16
  | .uint32 => .ok .uint32
  | .uint64 => .ok .uint64
  | .float32 => .ok .float
  | .float64 => .ok .double
  | .utf8 => .ok .utf8
  | .date32 => .ok .date32
  | _ => .error (.unsupported "Cannot serialize Arrow type to protobuf")

/-- `from_proto_arrow_type`. -/
def fromProtoArrowType (arrowType : Int32) : Result DataType :=
  match pb.ArrowType.tryFrom arrowType with
  | none => .error (.unsupported "Cannot deserialize Arrow data type enum from protobuf")
  | some .bool => .ok .boolean
  | some .int8 => .ok .int8
  | some .int16 => .ok .int16
  | some .int32 => .ok .int32
  | some .int64 => .ok .int64
  | some .uint8 => .ok .uint8
  | some .uint16 => .ok .uint16
  | some .uint32 => .ok .uint32
  | some .uint64 => .ok .uint64
  | some .float => .ok .float32
  | some .double => .ok .float64
  | some .utf8 => .ok .utf8
  | some .date32 => .ok .date32
  | some _ => .error (.unsupported "Cannot deserialize Arrow type from protobuf")

/-- The types that have a number on the wire. -/
def DataType.isMapped : DataType → Bool
  | boolean | int8 | int16 | int32 | int64 | uint8 | uint16 | uint32 | uint64
  | float32 | float64 | utf8 | date32 => true
  | _ => false

/-- The mapped types have a message. -/
theorem dataTypeToProto_succeeds_iff {t : DataType} :
    Outcome.Succeeds (dataTypeToProto t) ↔ t.isMapped := by
  cases t <;> simp [dataTypeToProto, DataType.isMapped]

/-- A type is read back from its number. -/
theorem fromProto_dataTypeToProto {t : DataType} {a : pb.ArrowType}
    (h : dataTypeToProto t = .ok a) : fromProtoArrowType a.number = .ok t := by
  cases t <;> first
    | (cases h; rfl)
    | cases h

/-- `impl From<&Field> for pb::Field`. -/
def Field.toProto (f : Field) : Result pb.Field := do
  return ⟨f.name, (← dataTypeToProto f.dataType).number⟩

/-- `impl From<&Schema> for pb::Schema`. -/
def Schema.toProto (s : Schema) : Result pb.Schema := do
  return ⟨← s.fields.mapM Field.toProto⟩

def deserializeField (f : pb.Field) : Result Field := do
  return ⟨f.name, ← fromProtoArrowType f.arrowType⟩

def deserializeSchema (s : pb.Schema) : Result Schema := do
  return ⟨← s.columns.mapM deserializeField⟩

/-- A field is read back. -/
theorem deserializeField_toProto {f : Field} {m : pb.Field} (h : f.toProto = .ok m) :
    deserializeField m = .ok f := by
  obtain ⟨a, ha, rfl⟩ := Outcome.bind_pure_eq_ok_iff.mp h
  rw [deserializeField, fromProto_dataTypeToProto ha]
  rfl

/-- A schema that is written is read back. -/
theorem deserializeSchema_toProto {s : Schema} {m : pb.Schema} (h : s.toProto = .ok m) :
    deserializeSchema m = .ok s := by
  obtain ⟨columns, hcolumns, rfl⟩ := Outcome.bind_pure_eq_ok_iff.mp h
  obtain ⟨fields, hfields, heq⟩ := Outcome.mapM_roundTrip (g := deserializeField) (R := Eq) hcolumns
    fun f _ m hm => ⟨f, deserializeField_toProto hm, rfl⟩
  rw [List.forall₂_eq_eq_eq] at heq
  rw [deserializeSchema, hfields, ← heq]
  rfl

/-- A schema of mapped types has a message. -/
theorem Schema.toProto_succeeds_iff {s : Schema} :
    Outcome.Succeeds s.toProto ↔ ∀ t ∈ s.types, t.isMapped := by
  -- A field is sent where its type is mapped, and a schema where all of its fields are.
  have hfield : ∀ f : Field, Outcome.Succeeds f.toProto ↔ f.dataType.isMapped := by
    intro f
    rw [← dataTypeToProto_succeeds_iff]
    constructor
    · exact fun h => h.of_bind
    · rintro ⟨a, ha⟩
      exact ⟨_, by rw [Field.toProto, ha]; rfl⟩
  have hschema : Outcome.Succeeds s.toProto ↔ Outcome.Succeeds (s.fields.mapM Field.toProto) := by
    constructor
    · exact fun h => h.of_bind
    · rintro ⟨columns, hcolumns⟩
      exact ⟨_, by rw [Schema.toProto, hcolumns]; rfl⟩
  rw [hschema, Outcome.mapM_succeeds_iff, Schema.types, List.forall_mem_map]
  exact forall₂_congr fun f _ => hfield f

/-! ## Expressions -/

/-- `BooleanExpression::op_name`. -/
def BooleanOp.opName : BooleanOp → String
  | .and => "and"
  | .or => "or"
  | .compare .eq => "eq"
  | .compare .neq => "neq"
  | .compare .lt => "lt"
  | .compare .ltEq => "lteq"
  | .compare .gt => "gt"
  | .compare .gtEq => "gteq"

/-- `MathExpression::op_name`. -/
def MathOp.opName : MathOp → String
  | .add => "add"
  | .subtract => "subtract"
  | .multiply => "multiply"
  | .divide => "divide"

section

variable [FloatModel]

/-- `serialize_physical_expr`. A column index is written `as i32`. -/
def serializePhysicalExpr : Expression → Result pb.PhysicalExprNode
  | .column i => .ok (.column (Int32.ofNat i))
  | .literalString s => .ok (.literalString s)
  | .literalLong n => .ok (.literalLong n)
  | .literalDouble n => .ok (.literalDouble n)
  | .literalDate days => .ok (.literalDate days)
  | .boolean op l r => do
    let l ← serializePhysicalExpr l
    return .binaryExpr (some l) (some (← serializePhysicalExpr r)) op.opName
  | .math op l r => do
    let l ← serializePhysicalExpr l
    return .binaryExpr (some l) (some (← serializePhysicalExpr r)) op.opName
  | .cast e t => do
    let e ← serializePhysicalExpr e
    return .castExpr (some e) (← dataTypeToProto t).number
  | .literalIntervalDays _ | .dateInterval _ _ _ =>
    .error (.unsupported "Cannot serialize physical expression to protobuf")

/-- The operators that a binary node can name. -/
def binaryExpression (op : String) (l r : Expression) : Result Expression :=
  match op with
  | "eq" => .ok (EqExpression l r)
  | "neq" => .ok (NeqExpression l r)
  | "lt" => .ok (LtExpression l r)
  | "lteq" => .ok (LtEqExpression l r)
  | "gt" => .ok (GtExpression l r)
  | "gteq" => .ok (GtEqExpression l r)
  | "and" => .ok (AndExpression l r)
  | "or" => .ok (OrExpression l r)
  | "add" => .ok (AddExpression l r)
  | "subtract" => .ok (SubtractExpression l r)
  | "multiply" => .ok (MultiplyExpression l r)
  | "divide" => .ok (DivideExpression l r)
  | _ => .error (.unsupported ("Unsupported binary operator: '" ++ op ++ "'"))

/-- `deserialize_physical_expr`. -/
def deserializePhysicalExpr : pb.PhysicalExprNode → Result Expression
  | .column i => .ok (.column (asUsize i))
  | .literalString s => .ok (.literalString s)
  | .literalLong n => .ok (.literalLong n)
  | .literalDouble n => .ok (.literalDouble n)
  | .literalDate days => .ok (.literalDate days)
  | .binaryExpr (some l) (some r) op => do
    let l ← deserializePhysicalExpr l
    binaryExpression op l (← deserializePhysicalExpr r)
  | .binaryExpr (some l) none _ => do
    let _ ← deserializePhysicalExpr l
    throw (.other "PhysicalBinaryExprNode.r unset")
  | .binaryExpr none _ _ => .error (.other "PhysicalBinaryExprNode.l unset")
  | .castExpr (some e) arrowType => do
    let e ← deserializePhysicalExpr e
    return .cast e (← fromProtoArrowType arrowType)
  | .castExpr none _ => .error (.other "PhysicalCastExprNode.expr unset")
  | .unset => .error (.other "Physical expression type not set in protobuf")

/-- `serialize_physical_aggr_expr`. -/
def serializePhysicalAggrExpr (a : AggregateExpression) : Result pb.PhysicalAggregateExprNode := do
  let fnKind : pb.AggregateFunction :=
    match a.function with
    | .sum => .sum
    | .min => .min
    | .max => .max
    | .avg => .avg
    | .count => .count
  return ⟨fnKind.number, some (← serializePhysicalExpr a.inputExpression)⟩

/-- `deserialize_physical_aggr_expr`. -/
def deserializePhysicalAggrExpr (node : pb.PhysicalAggregateExprNode) :
    Result AggregateExpression := do
  let input ← deserializePhysicalExpr
    (← expect node.inputExpr "PhysicalAggregateExprNode.input_expr unset")
  match pb.AggregateFunction.tryFrom node.aggrFunction with
  | none => throw (.unsupported "Unknown AggregateFunction enum value")
  | some .sum => return SumExpression input
  | some .min => return MinExpression input
  | some .max => return MaxExpression input
  | some .avg => return AvgExpression input
  | some .count => return CountExpression input
  | some .countDistinct => throw (.unsupported "Unsupported aggregate function: CountDistinct")

/-- The expression that comes back: its column indices have been through an `i32`. -/
def Expression.shipped : Expression → Expression
  | column i => column (asUsize (Int32.ofNat i))
  | boolean op l r => boolean op l.shipped r.shipped
  | math op l r => math op l.shipped r.shipped
  | cast e t => cast e.shipped t
  | dateInterval op d i => dateInterval op d.shipped i.shipped
  | e => e

/-- An expression is read back as it is shipped. -/
theorem deserialize_serializePhysicalExpr {e : Expression} {m : pb.PhysicalExprNode}
    (h : serializePhysicalExpr e = .ok m) : deserializePhysicalExpr m = .ok e.shipped := by
  induction e generalizing m with
  | column i => cases h; rfl
  | literalLong n => cases h; rfl
  | literalDouble n => cases h; rfl
  | literalString s => cases h; rfl
  | literalDate days => cases h; rfl
  | literalIntervalDays days => cases h
  | dateInterval op d i ihd ihi => cases h
  | boolean op l r ihl ihr =>
    obtain ⟨ml, hl, h⟩ := Outcome.bind_eq_ok_iff.mp h
    obtain ⟨mr, hr, rfl⟩ := Outcome.bind_pure_eq_ok_iff.mp h
    rw [deserializePhysicalExpr, ihl hl, Outcome.ok_bind, ihr hr, Outcome.ok_bind]
    -- The operator is sent by its name, and every name is read back as the operator it came from.
    cases op with
    | and => rfl
    | or => rfl
    | compare op => cases op <;> rfl
  | math op l r ihl ihr =>
    obtain ⟨ml, hl, h⟩ := Outcome.bind_eq_ok_iff.mp h
    obtain ⟨mr, hr, rfl⟩ := Outcome.bind_pure_eq_ok_iff.mp h
    rw [deserializePhysicalExpr, ihl hl, Outcome.ok_bind, ihr hr, Outcome.ok_bind]
    cases op <;> rfl
  | cast e t ih =>
    obtain ⟨me, he, h⟩ := Outcome.bind_eq_ok_iff.mp h
    obtain ⟨a, ha, rfl⟩ := Outcome.bind_pure_eq_ok_iff.mp h
    rw [deserializePhysicalExpr, ih he, Outcome.ok_bind, fromProto_dataTypeToProto ha]
    rfl

/-- The aggregate that comes back. -/
def AggregateExpression.shipped (a : AggregateExpression) : AggregateExpression :=
  ⟨a.function, a.inputExpression.shipped⟩

/-- An aggregate is read back as it is shipped. -/
theorem deserialize_serializePhysicalAggrExpr {a : AggregateExpression}
    {m : pb.PhysicalAggregateExprNode} (h : serializePhysicalAggrExpr a = .ok m) :
    deserializePhysicalAggrExpr m = .ok a.shipped := by
  obtain ⟨e, he, rfl⟩ := Outcome.bind_pure_eq_ok_iff.mp h
  obtain ⟨f, input⟩ := a
  have he := deserialize_serializePhysicalExpr he
  cases f <;>
    simp only [deserializePhysicalAggrExpr, expect, Outcome.ok_bind, he,
      pb.AggregateFunction.tryFrom_number] <;> rfl

/-! ## Plans -/

/-- `data_source_path_and_format`. -/
def dataSourcePathAndFormat : DataSource → Result (String × String)
  | .csv s => .ok (s.filename, "csv")
  | .parquet s => .ok (s.filename, "parquet")
  | .inMemory _ => .error (.unsupported "Unsupported data-source type for protobuf serialisation")

/-- `impl From<&ShuffleLocation> for pb::ShuffleLocation`. -/
def ShuffleLocation.toProto (l : ShuffleLocation) : pb.ShuffleLocation :=
  ⟨l.jobUuid, l.stageId, l.partitionId, l.executorId, l.executorHost, l.executorPort⟩

def deserializeShuffleLocation (l : pb.ShuffleLocation) : ShuffleLocation :=
  ⟨l.jobUuid, l.stageId, l.partitionId, l.executorId, l.executorHost, l.executorPort⟩

omit [FloatModel] in
@[simp] theorem deserializeShuffleLocation_toProto (l : ShuffleLocation) :
    deserializeShuffleLocation l.toProto = l := rfl

/-- `aggregate_mode_to_proto`. -/
def aggregateModeToProto : AggregateMode → pb.AggregateMode
  | .completeMode => .complete
  | .partialMode => .partialMode
  | .finalMode => .final

/-- `aggregate_mode_from_proto`: an unknown number is the complete mode. -/
def aggregateModeFromProto (mode : Int32) : AggregateMode :=
  match pb.AggregateMode.tryFrom mode with
  | some .complete => .completeMode
  | some .partialMode => .partialMode
  | some .final => .finalMode
  | none => .completeMode

omit [FloatModel] in
/-- A mode is read back from its number. -/
@[simp] theorem aggregateModeFromProto_toProto (mode : AggregateMode) :
    aggregateModeFromProto (aggregateModeToProto mode).number = mode := by
  cases mode <;> rfl

variable [Readers]

/-- `serialize_physical_plan`. A scan sends the schema of its source, not the projected one. -/
def serializePhysicalPlan : PhysicalPlan → Result pb.PhysicalPlanNode
  | .scan ds columns => do
    let (path, fileFormat) ← dataSourcePathAndFormat ds
    let schema ← (← ds.schema).toProto
    return .scan path (some schema) columns fileFormat
  | .projection input schema expr => do
    let input ← serializePhysicalPlan input
    let schema ← schema.toProto
    return .projection (some input) (some schema) (← expr.mapM serializePhysicalExpr)
  | .selection input expr => do
    let input ← serializePhysicalPlan input
    return .selection (some input) (some (← serializePhysicalExpr expr))
  | .hashAggregate input agg mode => do
    let input ← serializePhysicalPlan input
    let groupExpr ← agg.groupExpr.mapM serializePhysicalExpr
    let aggregateExpr ← agg.aggregateExpr.mapM serializePhysicalAggrExpr
    let schema ← agg.schema.toProto
    return .hashAggregate (some input) groupExpr aggregateExpr (some schema)
      (aggregateModeToProto mode).number
  | .shuffleWriter input writer => do
    let input ← serializePhysicalPlan input
    return .shuffleWriter (some input) (← writer.partitionExpr.mapM serializePhysicalExpr)
      writer.jobUuid writer.stageId writer.partitionCount
  | .shuffleReader shuffleSchema shuffleLocations => do
    return .shuffleReader (some (← shuffleSchema.toProto))
      (shuffleLocations.map ShuffleLocation.toProto)
  | .limit _ _ | .hashJoin _ _ _ | .inMemory _ _ =>
    .error (.unsupported "Cannot serialize physical operator to protobuf")

omit [Readers] in
/-- `deserialize_physical_plan`. -/
def deserializePhysicalPlan : pb.PhysicalPlanNode → Result PhysicalPlan
  | .scan path schema projection fileFormat => do
    let schema ← deserializeSchema (← expect schema "ScanExecNode.schema unset")
    match fileFormat with
    | "csv" => return .scan (.csv (.new path (some schema) true 1024)) projection
    | "parquet" => return .scan (.parquet ⟨path⟩) projection
    | _ => throw (.unsupported "Unsupported file format")
  | .projection (some input) schema expr => do
    let input ← deserializePhysicalPlan input
    let schema ← deserializeSchema (← expect schema "ProjectionExecNode.schema unset")
    return .projection input schema (← expr.mapM deserializePhysicalExpr)
  | .projection none _ _ => .error (.other "ProjectionExecNode.input unset")
  | .selection (some input) expr => do
    let input ← deserializePhysicalPlan input
    return .selection input
      (← deserializePhysicalExpr (← expect expr "SelectionExecNode.expr unset"))
  | .selection none _ => .error (.other "SelectionExecNode.input unset")
  | .hashAggregate (some input) groupExpr aggregateExpr schema mode => do
    let input ← deserializePhysicalPlan input
    let groupExpr ← groupExpr.mapM deserializePhysicalExpr
    let aggregateExpr ← aggregateExpr.mapM deserializePhysicalAggrExpr
    let schema ← deserializeSchema (← expect schema "HashAggregateExecNode.schema unset")
    return .hashAggregate input ⟨groupExpr, aggregateExpr, schema⟩ (aggregateModeFromProto mode)
  | .hashAggregate none _ _ _ _ => .error (.other "HashAggregateExecNode.input unset")
  | .shuffleWriter (some input) partitionExpr jobUuid stageId partitionCount => do
    let input ← deserializePhysicalPlan input
    return .shuffleWriter input
      ⟨← partitionExpr.mapM deserializePhysicalExpr, jobUuid, stageId, partitionCount⟩
  | .shuffleWriter none _ _ _ _ => .error (.other "ShuffleWriterExecNode.input unset")
  | .shuffleReader schema locations => do
    let schema ← deserializeSchema (← expect schema "ShuffleReaderExecNode.schema unset")
    return .shuffleReader schema (locations.map deserializeShuffleLocation)
  | .unset => .error (.other "Failed to parse physical plan node: plan_type unset")

def serializeTask (task : Task) : Result pb.TaskInfo := do
  return ⟨task.jobUuid, task.stageId, task.taskId, task.partitionId,
    some (← serializePhysicalPlan task.plan)⟩

omit [Readers] in
def deserializeTask (task : pb.TaskInfo) : Result Task := do
  return ⟨task.jobUuid, task.stageId, task.taskId, task.partitionId,
    ← deserializePhysicalPlan (← expect task.plan "TaskInfo.plan unset")⟩

/-! ## What can be written -/

omit [Readers] in
/-- The expressions with a message: the types of casts have a number. -/
def Expression.Serializable : Expression → Prop
  | boolean _ l r => l.Serializable ∧ r.Serializable
  | math _ l r => l.Serializable ∧ r.Serializable
  | cast e t => e.Serializable ∧ t.isMapped
  | literalIntervalDays _ => False
  | dateInterval _ _ _ => False
  | _ => True

/-- The plans with a message: sources are files whose schema can be read, and the types of all
columns have a number. -/
def PhysicalPlan.Serializable : PhysicalPlan → Prop
  | scan ds _ => (∀ m, ds ≠ .inMemory m) ∧ ∃ s, ds.schema = .ok s ∧ ∀ t ∈ s.types, t.isMapped
  | projection input schema expr =>
    input.Serializable ∧ (∀ t ∈ schema.types, t.isMapped) ∧ ∀ e ∈ expr, e.Serializable
  | selection input expr => input.Serializable ∧ expr.Serializable
  | hashAggregate input agg _ =>
    input.Serializable ∧ (∀ e ∈ agg.groupExpr, e.Serializable) ∧
      (∀ a ∈ agg.aggregateExpr, a.inputExpression.Serializable) ∧
        ∀ t ∈ agg.schema.types, t.isMapped
  | shuffleWriter input writer =>
    input.Serializable ∧ ∀ e ∈ writer.partitionExpr, e.Serializable
  | shuffleReader schema _ => ∀ t ∈ schema.types, t.isMapped
  | _ => False

omit [Readers] in
/-- The expressions that can be sent. -/
theorem serializePhysicalExpr_succeeds_iff {e : Expression} :
    Outcome.Succeeds (serializePhysicalExpr e) ↔ e.Serializable := by
  induction e with
  | boolean op l r ihl ihr =>
    simp only [serializePhysicalExpr, Outcome.succeeds_bind_iff, Expression.Serializable, ← ihl,
      ← ihr]
    exact ⟨fun ⟨a, ha, b, hb, _⟩ => ⟨⟨a, ha⟩, ⟨b, hb⟩⟩,
      fun ⟨⟨a, ha⟩, ⟨b, hb⟩⟩ => ⟨a, ha, b, hb, _, rfl⟩⟩
  | math op l r ihl ihr =>
    simp only [serializePhysicalExpr, Outcome.succeeds_bind_iff, Expression.Serializable, ← ihl,
      ← ihr]
    exact ⟨fun ⟨a, ha, b, hb, _⟩ => ⟨⟨a, ha⟩, ⟨b, hb⟩⟩,
      fun ⟨⟨a, ha⟩, ⟨b, hb⟩⟩ => ⟨a, ha, b, hb, _, rfl⟩⟩
  | cast e t ih =>
    simp only [serializePhysicalExpr, Outcome.succeeds_bind_iff, Expression.Serializable, ← ih,
      ← dataTypeToProto_succeeds_iff]
    exact ⟨fun ⟨a, ha, b, hb, _⟩ => ⟨⟨a, ha⟩, ⟨b, hb⟩⟩,
      fun ⟨⟨a, ha⟩, ⟨b, hb⟩⟩ => ⟨a, ha, b, hb, _, rfl⟩⟩
  | literalIntervalDays n => exact iff_of_false (Outcome.not_succeeds_error _) id
  | dateInterval op d i _ _ => exact iff_of_false (Outcome.not_succeeds_error _) id
  | _ => exact iff_of_true ⟨_, rfl⟩ trivial

omit [Readers] in
/-- A list of expressions can be sent if each of them can. -/
theorem serializePhysicalExprs_succeeds_iff {es : List Expression} :
    Outcome.Succeeds (es.mapM serializePhysicalExpr) ↔ ∀ e ∈ es, e.Serializable := by
  rw [Outcome.mapM_succeeds_iff]
  exact forall₂_congr fun e _ => serializePhysicalExpr_succeeds_iff

omit [Readers] in
/-- Aggregates can be sent if their arguments can. -/
theorem serializePhysicalAggrExprs_succeeds_iff {as : List AggregateExpression} :
    Outcome.Succeeds (as.mapM serializePhysicalAggrExpr) ↔
      ∀ a ∈ as, a.inputExpression.Serializable := by
  rw [Outcome.mapM_succeeds_iff]
  refine forall₂_congr fun a _ => ?_
  rw [← serializePhysicalExpr_succeeds_iff]
  constructor
  · exact fun h => h.of_bind
  · rintro ⟨m, hm⟩
    exact ⟨_, by rw [serializePhysicalAggrExpr, hm]; rfl⟩

/-- Exactly these plans can be written. -/
theorem serializePhysicalPlan_succeeds_iff {plan : PhysicalPlan} :
    Outcome.Succeeds (serializePhysicalPlan plan) ↔ plan.Serializable := by
  induction plan with
  | scan ds columns =>
    simp only [serializePhysicalPlan, Outcome.succeeds_bind_iff, PhysicalPlan.Serializable,
      ← Schema.toProto_succeeds_iff]
    constructor
    -- Only a file has a path and a format to send.
    · rintro ⟨⟨path, fileFormat⟩, hpath, s, hs, m, hm, -⟩
      refine ⟨?_, s, hs, m, hm⟩
      rintro source rfl
      cases hpath
    · rintro ⟨hmemory, s, hs, m, hm⟩
      cases ds with
      | csv source => exact ⟨_, rfl, s, hs, m, hm, _, rfl⟩
      | parquet source => exact ⟨_, rfl, s, hs, m, hm, _, rfl⟩
      | inMemory source => exact absurd rfl (hmemory source)
  | projection input schema expr ih =>
    simp only [serializePhysicalPlan, Outcome.succeeds_bind_iff, PhysicalPlan.Serializable, ← ih,
      ← Schema.toProto_succeeds_iff, ← serializePhysicalExprs_succeeds_iff]
    exact ⟨fun ⟨a, ha, b, hb, c, hc, _⟩ => ⟨⟨a, ha⟩, ⟨b, hb⟩, ⟨c, hc⟩⟩,
      fun ⟨⟨a, ha⟩, ⟨b, hb⟩, ⟨c, hc⟩⟩ => ⟨a, ha, b, hb, c, hc, _, rfl⟩⟩
  | selection input expr ih =>
    simp only [serializePhysicalPlan, Outcome.succeeds_bind_iff, PhysicalPlan.Serializable, ← ih,
      ← serializePhysicalExpr_succeeds_iff]
    exact ⟨fun ⟨a, ha, b, hb, _⟩ => ⟨⟨a, ha⟩, ⟨b, hb⟩⟩,
      fun ⟨⟨a, ha⟩, ⟨b, hb⟩⟩ => ⟨a, ha, b, hb, _, rfl⟩⟩
  | hashAggregate input agg mode ih =>
    simp only [serializePhysicalPlan, Outcome.succeeds_bind_iff, PhysicalPlan.Serializable, ← ih,
      ← Schema.toProto_succeeds_iff, ← serializePhysicalExprs_succeeds_iff,
      ← serializePhysicalAggrExprs_succeeds_iff]
    exact ⟨fun ⟨a, ha, b, hb, c, hc, d, hd, _⟩ => ⟨⟨a, ha⟩, ⟨b, hb⟩, ⟨c, hc⟩, ⟨d, hd⟩⟩,
      fun ⟨⟨a, ha⟩, ⟨b, hb⟩, ⟨c, hc⟩, ⟨d, hd⟩⟩ => ⟨a, ha, b, hb, c, hc, d, hd, _, rfl⟩⟩
  | shuffleWriter input writer ih =>
    simp only [serializePhysicalPlan, Outcome.succeeds_bind_iff, PhysicalPlan.Serializable, ← ih,
      ← serializePhysicalExprs_succeeds_iff]
    exact ⟨fun ⟨a, ha, b, hb, _⟩ => ⟨⟨a, ha⟩, ⟨b, hb⟩⟩,
      fun ⟨⟨a, ha⟩, ⟨b, hb⟩⟩ => ⟨a, ha, b, hb, _, rfl⟩⟩
  | shuffleReader schema locations =>
    simp only [serializePhysicalPlan, Outcome.succeeds_bind_iff, PhysicalPlan.Serializable,
      ← Schema.toProto_succeeds_iff]
    exact ⟨fun ⟨a, ha, _⟩ => ⟨a, ha⟩, fun ⟨a, ha⟩ => ⟨a, ha, _, rfl⟩⟩
  -- The wire format has no node for a limit, a join or a table in memory.
  | limit input n _ => exact iff_of_false (Outcome.not_succeeds_error _) id
  | hashJoin left right join _ _ => exact iff_of_false (Outcome.not_succeeds_error _) id
  | inMemory schema batches => exact iff_of_false (Outcome.not_succeeds_error _) id

end

end RQuery
