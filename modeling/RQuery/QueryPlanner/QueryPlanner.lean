import RQuery.LogicalPlan.Plan
import RQuery.Physical.Plan

/-!
# The query planner

`QueryPlanner` lowers a logical plan: a column name becomes the position of the first field of that
name in the schema of the node's input, and an alias is dropped. Every operator with a schema of its
own is given the logical one; `ScanExec`, `SelectionExec` and `LimitExec` derive theirs.

`createPhysicalPlan_schema_iff` says when the physical plan declares the logical schema: an empty
projection means all columns to `Scan` and to the readers, but no columns to `ScanExec::schema`.
-/

namespace RQuery

section

variable [FloatModel]

/-- The physical operator of a two-operand expression. `modulus` has none. -/
def BinaryOp.createExpression : BinaryOp → Expression → Expression → Result Expression
  | eq, l, r => .ok (EqExpression l r)
  | neq, l, r => .ok (NeqExpression l r)
  | gt, l, r => .ok (GtExpression l r)
  | gtEq, l, r => .ok (GtEqExpression l r)
  | lt, l, r => .ok (LtExpression l r)
  | ltEq, l, r => .ok (LtEqExpression l r)
  | and, l, r => .ok (AndExpression l r)
  | or, l, r => .ok (OrExpression l r)
  | add, l, r => .ok (AddExpression l r)
  | subtract, l, r => .ok (SubtractExpression l r)
  | multiply, l, r => .ok (MultiplyExpression l r)
  | divide, l, r => .ok (DivideExpression l r)
  | modulus, _, _ => .error (.unsupported "binary expression: modulus")

/-- The position of the first field of a name. -/
def fieldPosition (schema : Schema) (name : String) : Result ℕ :=
  match schema.position? name with
  | some i => .ok i
  | none => .error (.unknownColumn name)

/-- `create_physical_expr`, on the schema of the input. -/
def createPhysicalExpr (input : Result Schema) : LogicalExpr → Result Expression
  | .literalLong n => .ok (.literalLong n)
  | .literalDouble n => .ok (.literalDouble n)
  | .literalString s => .ok (.literalString s)
  | .literalDate date => .ok (.literalDate date.daysSinceUnixEpoch)
  | .literalIntervalDays days => .ok (.literalIntervalDays days)
  | .dateSubtractInterval date interval => do
    let date ← createPhysicalExpr input date
    return DateSubtractIntervalExpression date (← createPhysicalExpr input interval)
  | .dateAddInterval date interval => do
    let date ← createPhysicalExpr input date
    return DateAddIntervalExpression date (← createPhysicalExpr input interval)
  | .columnIndex i => .ok (.column i)
  | .column name => do return .column (← fieldPosition (← input) name)
  | .aliased e _ => createPhysicalExpr input e
  | .cast e t => do return .cast (← createPhysicalExpr input e) t
  | .binary op l r => do
    let l ← createPhysicalExpr input l
    op.createExpression l (← createPhysicalExpr input r)
  | .literalFloat _ => .error (.unsupported "LiteralFloat")
  | .not _ => .error (.unsupported "logical expression: NOT")
  | .scalarFunction name _ => .error (.unsupported ("scalar function '" ++ name ++ "'"))
  | .aggregateExpr _ _ => .error (.unsupported "aggregate as a scalar expression")

/-- `create_aggregate_expr`. -/
def createAggregateExpr (input : Result Schema) (agg : AggregateExpr) :
    Result AggregateExpression :=
  match agg.fn with
  | .max => do return MaxExpression (← createPhysicalExpr input agg.expr)
  | .min => do return MinExpression (← createPhysicalExpr input agg.expr)
  | .sum => do return SumExpression (← createPhysicalExpr input agg.expr)
  | .avg => do return AvgExpression (← createPhysicalExpr input agg.expr)
  | .count => do return CountExpression (← createPhysicalExpr input agg.expr)
  | .countDistinct => .error (.unsupported "aggregate function: COUNT(DISTINCT ...)")

/-- The positions of the right fields that are keys called the same on both sides. -/
def rightColumnsToExclude (on : List (String × String)) (right : Schema) : List ℕ :=
  (List.range right.fields.length).filter fun i =>
    match right.fields[i]? with
    | some f => f.name ∈ duplicateKeys on
    | none => false

variable [Readers]

/-- Create a physical plan from a logical plan. -/
def createPhysicalPlan : LogicalPlan → Result PhysicalPlan
  | .scan s => .ok (.scan s.dataSource s.projection)
  | .selection input expr => do
    let plan ← createPhysicalPlan input
    return .selection plan (← createPhysicalExpr input.schema expr)
  | .projection input expr => do
    let plan ← createPhysicalPlan input
    let projectionExpr ← expr.mapM (createPhysicalExpr input.schema)
    let fields ← expr.mapM fun e => e.toField input.schema
    return .projection plan ⟨fields⟩ projectionExpr
  | .aggregate input groupExpr aggregateExpr => do
    let plan ← createPhysicalPlan input
    let group ← groupExpr.mapM (createPhysicalExpr input.schema)
    let aggregate ← aggregateExpr.mapM (createAggregateExpr input.schema)
    let schema ← (LogicalPlan.aggregate input groupExpr aggregateExpr).schema
    return .hashAggregate plan ⟨group, aggregate, schema⟩ .completeMode
  | .limit input n => do
    return .limit (← createPhysicalPlan input) (asUsize n)
  | .join left right joinType on => do
    let leftPlan ← createPhysicalPlan left
    let rightPlan ← createPhysicalPlan right
    let leftSchema ← left.schema
    let rightSchema ← right.schema
    let leftKeys ← on.mapM fun k => fieldPosition leftSchema k.1
    let rightKeys ← on.mapM fun k => fieldPosition rightSchema k.2
    let schema ← (LogicalPlan.join left right joinType on).schema
    return .hashJoin leftPlan rightPlan
      ⟨joinType, leftKeys, rightKeys, schema, rightColumnsToExclude on rightSchema⟩

/-- A nest of selections and limits whose scan leaves its projection empty, which means all columns,
over a source with columns. -/
def LogicalPlan.ReadsAllImplicitly : LogicalPlan → Prop
  | .scan s => s.projection = [] ∧ s.schema.fields ≠ []
  | .selection input _ => input.ReadsAllImplicitly
  | .limit input _ => input.ReadsAllImplicitly
  | _ => False

/-- A nest of selections and limits over a scan in memory. -/
def LogicalPlan.IsScanNest : LogicalPlan → Prop
  | .scan s => ∃ m, s.dataSource = .inMemory m
  | .selection input _ => input.IsScanNest
  | .limit input _ => input.IsScanNest
  | _ => False

/-- The schema that `ScanExec` declares is the scan's, unless the scan reads all columns
implicitly. -/
theorem Scan.schema_iff (s : Scan) :
    (PhysicalPlan.scan s.dataSource s.projection).schema = .ok s.schema ↔
      ¬ (s.projection = [] ∧ s.schema.fields ≠ []) := by
  obtain ⟨full, hfull, hderive⟩ := Outcome.bind_eq_ok_iff.mp s.derived
  simp only [PhysicalPlan.schema, hfull, Outcome.ok_bind]
  by_cases hproj : s.projection = []
  · have hselect : full.select [] = .ok ⟨[]⟩ := rfl
    simp only [hproj, hselect, true_and, not_not, Except.ok.injEq]
    constructor
    · intro h
      rw [← h]
    · intro h
      cases hs : s.schema with
      | mk fields => rw [hs] at h; rw [show fields = [] from h]
  · have hemp : s.projection.isEmpty = false := by simpa using hproj
    rw [hemp] at hderive
    exact iff_of_true hderive fun h => hproj h.1

/-- The physical plan declares the logical schema, unless it reads all columns implicitly. -/
theorem createPhysicalPlan_schema_iff {P : LogicalPlan} {plan : PhysicalPlan}
    (h : createPhysicalPlan P = .ok plan) : plan.schema = P.schema ↔ ¬ P.ReadsAllImplicitly := by
  -- A plan takes its schema from its scan, through selections and limits; every other operator was
  -- given the logical plan's.
  induction P generalizing plan with
  | scan s =>
    cases h
    exact s.schema_iff
  | selection input expr ih =>
    obtain ⟨sub, hsub, h⟩ := Outcome.bind_eq_ok_iff.mp h
    obtain ⟨e, -, rfl⟩ := Outcome.bind_pure_eq_ok_iff.mp h
    show sub.schema = input.schema ↔ _
    exact ih hsub
  | limit input n ih =>
    obtain ⟨sub, hsub, rfl⟩ := Outcome.bind_pure_eq_ok_iff.mp h
    show sub.schema = input.schema ↔ _
    exact ih hsub
  | projection input expr ih =>
    obtain ⟨sub, -, h⟩ := Outcome.bind_eq_ok_iff.mp h
    obtain ⟨es, -, h⟩ := Outcome.bind_eq_ok_iff.mp h
    obtain ⟨fields, hfields, rfl⟩ := Outcome.bind_pure_eq_ok_iff.mp h
    refine iff_of_true ?_ id
    simp only [PhysicalPlan.schema, LogicalPlan.schema, hfields, Outcome.ok_bind]
    rfl
  | aggregate input groupExpr aggregateExpr ih =>
    obtain ⟨sub, -, h⟩ := Outcome.bind_eq_ok_iff.mp h
    obtain ⟨group, -, h⟩ := Outcome.bind_eq_ok_iff.mp h
    obtain ⟨aggregate, -, h⟩ := Outcome.bind_eq_ok_iff.mp h
    obtain ⟨schema, hschema, rfl⟩ := Outcome.bind_pure_eq_ok_iff.mp h
    exact iff_of_true hschema.symm id
  | join left right joinType on ihl ihr =>
    obtain ⟨leftPlan, -, h⟩ := Outcome.bind_eq_ok_iff.mp h
    obtain ⟨rightPlan, -, h⟩ := Outcome.bind_eq_ok_iff.mp h
    obtain ⟨leftSchema, -, h⟩ := Outcome.bind_eq_ok_iff.mp h
    obtain ⟨rightSchema, -, h⟩ := Outcome.bind_eq_ok_iff.mp h
    obtain ⟨leftKeys, -, h⟩ := Outcome.bind_eq_ok_iff.mp h
    obtain ⟨rightKeys, -, h⟩ := Outcome.bind_eq_ok_iff.mp h
    obtain ⟨schema, hschema, rfl⟩ := Outcome.bind_pure_eq_ok_iff.mp h
    exact iff_of_true hschema.symm id

/-- A plan that reads all columns implicitly declares none. -/
theorem createPhysicalPlan_schema_implicit {P : LogicalPlan} {plan : PhysicalPlan}
    (h : createPhysicalPlan P = .ok plan) (himplicit : P.ReadsAllImplicitly) :
    plan.schema = .ok ⟨[]⟩ ∧ ∀ s, P.schema = .ok s → s.fields ≠ [] := by
  induction P generalizing plan with
  | scan s =>
    cases h
    obtain ⟨full, hfull, -⟩ := Outcome.bind_eq_ok_iff.mp s.derived
    refine ⟨?_, fun schema hschema => Except.ok.inj hschema ▸ himplicit.2⟩
    rw [PhysicalPlan.schema, hfull, himplicit.1]
    rfl
  | selection input expr ih =>
    obtain ⟨sub, hsub, h⟩ := Outcome.bind_eq_ok_iff.mp h
    obtain ⟨e, -, rfl⟩ := Outcome.bind_pure_eq_ok_iff.mp h
    show sub.schema = _ ∧ ∀ s, input.schema = .ok s → _
    exact ih hsub himplicit
  | limit input n ih =>
    obtain ⟨sub, hsub, rfl⟩ := Outcome.bind_pure_eq_ok_iff.mp h
    show sub.schema = _ ∧ ∀ s, input.schema = .ok s → _
    exact ih hsub himplicit
  -- These operators carry a schema of their own, so nothing is read implicitly through them.
  | projection input expr ih => exact himplicit.elim
  | aggregate input groupExpr aggregateExpr ih => exact himplicit.elim
  | join left right joinType on ihl ihr => exact himplicit.elim

/-! ## Batches of the declared schema -/

variable [Runtime]

/-- Every batch the plan yields is of the schema it declares. -/
def PhysicalPlan.YieldsDeclared (ctx : ExecutorContext) (plan : PhysicalPlan) : Prop :=
  ∀ stream, plan.execute ctx = .ok stream → ∀ b, .ok b ∈ stream → plan.schema = .ok b.schema

/-- `record_batch::create` does not panic on the number of columns when rows of a batch that the
plan yields are rebuilt under the schema it declares. -/
def PhysicalPlan.RebuildsInput (ctx : ExecutorContext) (plan : PhysicalPlan) : Prop :=
  ∀ schema stream, plan.schema = .ok schema → plan.execute ctx = .ok stream →
    ∀ b, .ok b ∈ stream → ∀ rows columns, copyColumns b rows = .ok columns →
      RecordBatch.create schema columns ≠ .error RecordBatch.columnCountMismatch

/-- All operators of a nest yield batches of the schemas they declare, and rebuild those of their
inputs without a mismatch. -/
def PhysicalPlan.Conforms (ctx : ExecutorContext) : PhysicalPlan → Prop
  | .selection input expr =>
    input.Conforms ctx ∧ input.RebuildsInput ctx ∧
      (PhysicalPlan.selection input expr).YieldsDeclared ctx
  | .limit input n =>
    input.Conforms ctx ∧ input.RebuildsInput ctx ∧
      (PhysicalPlan.limit input n).YieldsDeclared ctx
  | plan => plan.YieldsDeclared ctx

/-- Batches of the declared schema are rebuilt without a mismatch. -/
theorem PhysicalPlan.YieldsDeclared.rebuildsInput {ctx : ExecutorContext} {plan : PhysicalPlan}
    (h : plan.YieldsDeclared ctx) : plan.RebuildsInput ctx := by
  intro schema stream hschema hstream b hb rows columns hcolumns hmismatch
  have hb := h stream hstream b hb
  obtain rfl : schema = b.schema := by simpa [hschema] using hb
  rw [copyColumns_eq] at hcolumns
  obtain ⟨arrays, harrays, rfl⟩ := Outcome.bind_pure_eq_ok_iff.mp hcolumns
  have hsup : ∀ a ∈ arrays, a.dataType.hasBuilder := by
    intro a ha
    obtain ⟨c, -, hc⟩ := Outcome.mapM_mem harrays ha
    obtain ⟨hsup, htype, -⟩ := ArrowVectorBuilder.fill_eq_ok_iff.mp hc
    rwa [htype]
  rw [RecordBatch.create_arrays hsup, RecordBatch.tryNew_eq_columnCountMismatch_iff,
    Outcome.mapM_length harrays] at hmismatch
  exact hmismatch b.columns_length.symm

omit [Readers] [Runtime] in
/-- The schema of a projected batch in memory is the projected schema. -/
theorem InMemoryDataSource.scan_schema {m : InMemoryDataSource} {projection : List String}
    (hne : projection ≠ []) {stream : BatchStream} (h : m.scan projection = .ok stream)
    {b : RecordBatch} (hb : .ok b ∈ stream) : m.schema.select projection = .ok b.schema := by
  have hemp : projection.isEmpty = false := by simpa using hne
  simp only [InMemoryDataSource.scan, hemp, Bool.false_eq_true, if_false] at h
  obtain ⟨idx, -, h⟩ := Outcome.bind_eq_ok_iff.mp h
  obtain ⟨schema, hschema, h⟩ := Outcome.bind_eq_ok_iff.mp h
  obtain ⟨batches, hbatches, rfl⟩ := Outcome.bind_pure_eq_ok_iff.mp h
  have hb : b ∈ batches := by simpa using hb
  obtain ⟨c, -, hc⟩ := Outcome.mapM_mem hbatches hb
  obtain ⟨cols, -, hc⟩ := Outcome.bind_eq_ok_iff.mp hc
  obtain ⟨rfl, -, -⟩ := RecordBatch.tryNew_eq_ok_iff.mp hc
  exact hschema

/-- A selection builds its batches under the schema it declares. -/
theorem PhysicalPlan.selection_yieldsDeclared {ctx : ExecutorContext} (input : PhysicalPlan)
    (expr : Expression) : (PhysicalPlan.selection input expr).YieldsDeclared ctx := by
  intro stream hstream b hb
  obtain ⟨schema, hschema, h⟩ := Outcome.bind_eq_ok_iff.mp hstream
  obtain ⟨source, -, rfl⟩ := Outcome.bind_pure_eq_ok_iff.mp h
  obtain ⟨item, -, hitem⟩ := List.mem_map.mp hb
  obtain ⟨c, -, hfilter⟩ := Outcome.bind_eq_ok_iff.mp hitem
  obtain ⟨-, -, -, rfl, -⟩ := filterBatch_eq_ok_iff.mp hfilter
  exact hschema

omit [Readers] [Runtime] in
/-- A limit yields batches of its input, and one rebuilt under the declared schema. -/
theorem mem_limitStream {schema : Schema} {n : ℕ} {stream : BatchStream} {b : RecordBatch}
    (h : .ok b ∈ limitStream schema n stream) : .ok b ∈ stream ∨ b.schema = schema := by
  induction stream generalizing n with
  | nil => simp [limitStream] at h
  | cons item rest ih =>
    cases item with
    | error e => simp [limitStream] at h
    | ok c =>
      cases n with
      | zero => simp [limitStream] at h
      | succ n =>
        rw [limitStream] at h
        split at h
        · rcases List.mem_cons.mp h with h | h
          · exact .inl (h ▸ List.mem_cons_self)
          · exact (ih h).imp_left (List.mem_cons_of_mem _)
        · rename_i hlt
          rcases List.mem_cons.mp h with h | h
          · exact .inr ((truncate_eq_ok_iff (by omega)).mp h.symm).1
          · exact (ih h).imp_left (List.mem_cons_of_mem _)

/-- A limit yields the batches of its input. -/
theorem PhysicalPlan.YieldsDeclared.limit {ctx : ExecutorContext} {input : PhysicalPlan}
    (h : input.YieldsDeclared ctx) (n : ℕ) : (PhysicalPlan.limit input n).YieldsDeclared ctx := by
  intro stream hstream b hb
  obtain ⟨schema, hschema, hrest⟩ := Outcome.bind_eq_ok_iff.mp hstream
  obtain ⟨source, hsource, rfl⟩ := Outcome.bind_pure_eq_ok_iff.mp hrest
  rcases mem_limitStream hb with hb | rfl
  · exact h source hsource b hb
  · exact hschema

/-- A plan that conforms yields what it declares. -/
theorem PhysicalPlan.Conforms.yieldsDeclared {ctx : ExecutorContext} {plan : PhysicalPlan}
    (h : plan.Conforms ctx) : plan.YieldsDeclared ctx := by
  cases plan with
  | selection input expr => exact h.2.2
  | limit input n => exact h.2.2
  | _ => exact h

/-- Over a source in memory, a nest that does not read all columns implicitly conforms. -/
theorem conforms_of_isScanNest {P : LogicalPlan} {plan : PhysicalPlan}
    (h : createPhysicalPlan P = .ok plan) (hnest : P.IsScanNest) (hread : ¬ P.ReadsAllImplicitly)
    (ctx : ExecutorContext) : plan.Conforms ctx := by
  induction P generalizing plan with
  | scan s =>
    cases h
    obtain ⟨m, hm⟩ := hnest
    intro stream hstream b hb
    rw [s.schema_iff.mpr hread]
    have hderived := s.derived
    rw [hm] at hderived
    rw [PhysicalPlan.execute, hm] at hstream
    -- An empty projection yields the table's own batches; any other builds them under the scan's
    -- schema.
    by_cases hproj : s.projection = []
    · rw [hproj] at hderived hstream
      have hderived : m.schema = s.schema := Except.ok.inj hderived
      cases hstream
      have hb : b ∈ m.data := by simpa using hb
      rw [m.conforms b hb, hderived]
    · have hemp : s.projection.isEmpty = false := by simpa using hproj
      rw [Scan.deriveSchema, hemp] at hderived
      rw [← hderived]
      exact InMemoryDataSource.scan_schema hproj hstream hb
  | selection input expr ih =>
    obtain ⟨sub, hsub, h⟩ := Outcome.bind_eq_ok_iff.mp h
    obtain ⟨e, -, rfl⟩ := Outcome.bind_pure_eq_ok_iff.mp h
    have hconf := ih hsub hnest hread
    exact ⟨hconf, hconf.yieldsDeclared.rebuildsInput, PhysicalPlan.selection_yieldsDeclared sub e⟩
  | limit input n ih =>
    obtain ⟨sub, hsub, rfl⟩ := Outcome.bind_pure_eq_ok_iff.mp h
    have hconf := ih hsub hnest hread
    exact ⟨hconf, hconf.yieldsDeclared.rebuildsInput, hconf.yieldsDeclared.limit _⟩
  | _ => exact hnest.elim

/-- Lowering preserves the schema, and the operators of a nest of selections and limits over a
source in memory conform, exactly when no such nest reads all columns implicitly. -/
theorem createPhysicalPlan_conforms_iff {P : LogicalPlan} {plan : PhysicalPlan}
    (h : createPhysicalPlan P = .ok plan) :
    (plan.schema = P.schema ∧ (P.IsScanNest → ∀ ctx, plan.Conforms ctx)) ↔
      ¬ P.ReadsAllImplicitly := by
  rw [createPhysicalPlan_schema_iff h]
  exact ⟨fun h => h.1, fun hread => ⟨hread, fun hnest => conforms_of_isScanNest h hnest hread⟩⟩

end

section LimitOfScan

attribute [local instance] integerFloats insertionOrderRuntime

local instance noDisk : Readers := parquetDisk fun _ => none

/-- Two rows of one column. -/
def countingBatch : RecordBatch where
  schema := ⟨[⟨"n", .int32⟩]⟩
  columns := [Int32Array [1, 2]]
  numRows := 2
  types_eq := by decide
  lengths := by decide

def countingSource : InMemoryDataSource where
  schema := countingBatch.schema
  data := [countingBatch]
  conforms := by decide

/-- A scan of all columns. -/
def countingScan (projection : List String)
    (h : Scan.deriveSchema (.inMemory countingSource) projection = .ok countingBatch.schema) :
    Scan :=
  ⟨"counting", .inMemory countingSource, projection, countingBatch.schema, h⟩

/-- `LIMIT 1` of a scan of all columns panics. -/
theorem createPhysicalPlan_limit_mismatch :
    createPhysicalPlan (.limit (.scan (countingScan [] (by decide))) 1) =
        .ok (.limit (.scan (.inMemory countingSource) []) 1) ∧
      (PhysicalPlan.limit (.scan (.inMemory countingSource) []) 1).schema = .ok ⟨[]⟩ ∧
      (LogicalPlan.limit (.scan (countingScan [] (by decide))) 1).schema =
        .ok countingBatch.schema ∧
      (PhysicalPlan.limit (.scan (.inMemory countingSource) []) 1).execute
          ⟨"", "", 0, ⟨[]⟩⟩ = .ok [.error RecordBatch.columnCountMismatch] := by
  refine ⟨?_, by decide, by decide, by decide⟩
  rfl

/-- A scan that names its column conforms. -/
theorem createPhysicalPlan_conforms_iff_countingScan :
    ((PhysicalPlan.limit (.scan (.inMemory countingSource) ["n"]) 1).schema =
        (LogicalPlan.limit (.scan (countingScan ["n"] (by decide))) 1).schema ∧
      ((LogicalPlan.limit (.scan (countingScan ["n"] (by decide))) 1).IsScanNest →
        ∀ ctx, (PhysicalPlan.limit (.scan (.inMemory countingSource) ["n"]) 1).Conforms ctx)) ↔
      ¬ (LogicalPlan.limit (.scan (countingScan ["n"] (by decide))) 1).ReadsAllImplicitly :=
  createPhysicalPlan_conforms_iff rfl

end LimitOfScan

end RQuery
