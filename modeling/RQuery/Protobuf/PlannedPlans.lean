import RQuery.Protobuf.PhysicalPlan
import RQuery.QueryPlanner.QueryPlanner

/-!
# What the planner makes and what can be shipped

The planner lowers limits, joins and date arithmetic, for which `rquery.proto` has no message and the
serializer panics. `createPhysicalPlan_serializes_iff` says which logical plans over files end up as
plans that can be shipped.
-/

namespace RQuery

section

variable [FloatModel]

/-- The expressions that are lowered to one with a message: no intervals, and casts to types that
have a number on the wire. -/
def LogicalExpr.Shippable : LogicalExpr → Prop
  | literalIntervalDays _ => False
  | dateSubtractInterval _ _ => False
  | dateAddInterval _ _ => False
  | cast e t => e.Shippable ∧ t.isMapped
  | not e => e.Shippable
  | binary _ l r => l.Shippable ∧ r.Shippable
  | aliased e _ => e.Shippable
  | aggregateExpr _ e => e.Shippable
  | _ => True

/-- An operator is serialized exactly where both operands are. -/
theorem BinaryOp.createExpression_serializable {op : BinaryOp} {l r e : Expression}
    (h : op.createExpression l r = .ok e) :
    e.Serializable ↔ l.Serializable ∧ r.Serializable := by
  cases op <;> cases h <;> exact Iff.rfl

/-- A lowered expression is serialized exactly where the logical one ships. -/
theorem createPhysicalExpr_serializable {input : Result Schema} {e : LogicalExpr}
    {physical : Expression} (h : createPhysicalExpr input e = .ok physical) :
    physical.Serializable ↔ e.Shippable := by
  induction e generalizing physical with
  | column name =>
    obtain ⟨s, -, h⟩ := Outcome.bind_eq_ok_iff.mp h
    obtain ⟨i, -, rfl⟩ := Outcome.bind_pure_eq_ok_iff.mp h
    exact Iff.rfl
  | aliased e name ih => exact ih h
  | cast e t ih =>
    obtain ⟨pe, he, rfl⟩ := Outcome.bind_pure_eq_ok_iff.mp h
    exact and_congr_left' (ih he)
  | binary op l r ihl ihr =>
    obtain ⟨pl, hl, h⟩ := Outcome.bind_eq_ok_iff.mp h
    obtain ⟨pr, hr, h⟩ := Outcome.bind_eq_ok_iff.mp h
    rw [BinaryOp.createExpression_serializable h, ihl hl, ihr hr, LogicalExpr.Shippable]
  | dateSubtractInterval date interval _ _ =>
    obtain ⟨pd, -, h⟩ := Outcome.bind_eq_ok_iff.mp h
    obtain ⟨pi, -, rfl⟩ := Outcome.bind_pure_eq_ok_iff.mp h
    exact Iff.rfl
  | dateAddInterval date interval _ _ =>
    obtain ⟨pd, -, h⟩ := Outcome.bind_eq_ok_iff.mp h
    obtain ⟨pi, -, rfl⟩ := Outcome.bind_pure_eq_ok_iff.mp h
    exact Iff.rfl
  | literalFloat f => cases h
  | not e ih => cases h
  | scalarFunction name t => cases h
  | aggregateExpr fn e ih => cases h
  | _ => cases h; exact Iff.rfl

/-- A lowered aggregate is serialized exactly where its argument ships. -/
theorem createAggregateExpr_serializable {input : Result Schema} {a : AggregateExpr}
    {physical : AggregateExpression} (h : createAggregateExpr input a = .ok physical) :
    physical.inputExpression.Serializable ↔ a.expr.Shippable := by
  obtain ⟨fn, e⟩ := a
  cases fn with
  | countDistinct => cases h
  | _ =>
    obtain ⟨pe, he, rfl⟩ := Outcome.bind_pure_eq_ok_iff.mp h
    exact createPhysicalExpr_serializable he

omit [FloatModel] in
/-- What a traversal keeps of each element it keeps of all of them. -/
theorem forall_mem_of_mapM {α β : Type} {f : α → Result β} {p : α → Prop} {q : β → Prop}
    {xs : List α} {ys : List β} (h : xs.mapM f = .ok ys) (hf : ∀ x y, f x = .ok y → (q y ↔ p x)) :
    (∀ y ∈ ys, q y) ↔ ∀ x ∈ xs, p x := by
  constructor
  · intro hys x hx
    obtain ⟨y, hy, hxy⟩ := Outcome.mapM_mem_left h hx
    exact (hf x y hxy).mp (hys y hy)
  · intro hxs y hy
    obtain ⟨x, hx, hxy⟩ := Outcome.mapM_mem h hy
    exact (hf x y hxy).mpr (hxs x hx)

variable [Readers]

/-- Every scan reads a CSV or Parquet file. -/
def LogicalPlan.ScansFiles : LogicalPlan → Prop
  | scan s => ∀ m, s.dataSource ≠ .inMemory m
  | projection input _ | selection input _ | aggregate input _ _ | limit input _ =>
    input.ScansFiles
  | join left right _ _ => left.ScansFiles ∧ right.ScansFiles

/-- Every column, of a source or computed by a projection or an aggregate, has a type with a number
on the wire. -/
def LogicalPlan.ColumnsMapped : LogicalPlan → Prop
  | scan s => ∀ schema, s.dataSource.schema = .ok schema → ∀ t ∈ schema.types, t.isMapped
  | projection input expr =>
    input.ColumnsMapped ∧
      ∀ s, (projection input expr).schema = .ok s → ∀ t ∈ s.types, t.isMapped
  | aggregate input group aggr =>
    input.ColumnsMapped ∧
      ∀ s, (aggregate input group aggr).schema = .ok s → ∀ t ∈ s.types, t.isMapped
  | selection input _ | limit input _ => input.ColumnsMapped
  | join left right _ _ => left.ColumnsMapped ∧ right.ColumnsMapped

/-- No limit, no join, and only expressions that can be shipped. -/
def LogicalPlan.Shippable : LogicalPlan → Prop
  | scan _ => True
  | projection input expr => input.Shippable ∧ ∀ e ∈ expr, e.Shippable
  | selection input expr => input.Shippable ∧ expr.Shippable
  | aggregate input group aggr =>
    input.Shippable ∧ (∀ e ∈ group, e.Shippable) ∧ ∀ a ∈ aggr, a.expr.Shippable
  | limit _ _ | join _ _ _ _ => False

/-- The lowered plan can be written exactly when the logical plan has no limit, no join, no interval
and no cast to a type without a number. -/
theorem createPhysicalPlan_serializes_iff {P : LogicalPlan} {plan : PhysicalPlan}
    (h : createPhysicalPlan P = .ok plan) (hfiles : P.ScansFiles) (htypes : P.ColumnsMapped) :
    Outcome.Succeeds (serializePhysicalPlan plan) ↔ P.Shippable := by
  rw [serializePhysicalPlan_succeeds_iff]
  induction P generalizing plan with
  | scan s =>
    cases h
    obtain ⟨schema, hschema, -⟩ := Outcome.bind_eq_ok_iff.mp s.derived
    exact iff_of_true ⟨hfiles, schema, hschema, htypes schema hschema⟩ trivial
  | projection input expr ih =>
    obtain ⟨pinput, hinput, h⟩ := Outcome.bind_eq_ok_iff.mp h
    obtain ⟨pexpr, hexpr, h⟩ := Outcome.bind_eq_ok_iff.mp h
    obtain ⟨fields, hfields, rfl⟩ := Outcome.bind_pure_eq_ok_iff.mp h
    have hschema := htypes.2 ⟨fields⟩ (Outcome.bind_pure_eq_ok_iff.mpr ⟨fields, hfields, rfl⟩)
    rw [PhysicalPlan.Serializable, ih hinput hfiles htypes.1, and_iff_right hschema,
      forall_mem_of_mapM hexpr fun _ _ => createPhysicalExpr_serializable, LogicalPlan.Shippable]
  | selection input expr ih =>
    obtain ⟨pinput, hinput, h⟩ := Outcome.bind_eq_ok_iff.mp h
    obtain ⟨pexpr, hexpr, rfl⟩ := Outcome.bind_pure_eq_ok_iff.mp h
    rw [PhysicalPlan.Serializable, ih hinput hfiles htypes,
      createPhysicalExpr_serializable hexpr, LogicalPlan.Shippable]
  | aggregate input group aggr ih =>
    obtain ⟨pinput, hinput, h⟩ := Outcome.bind_eq_ok_iff.mp h
    obtain ⟨pgroup, hgroup, h⟩ := Outcome.bind_eq_ok_iff.mp h
    obtain ⟨paggr, haggr, h⟩ := Outcome.bind_eq_ok_iff.mp h
    obtain ⟨schema, hschema, rfl⟩ := Outcome.bind_pure_eq_ok_iff.mp h
    rw [PhysicalPlan.Serializable, ih hinput hfiles htypes.1,
      forall_mem_of_mapM hgroup fun _ _ => createPhysicalExpr_serializable,
      forall_mem_of_mapM haggr fun _ _ => createAggregateExpr_serializable,
      iff_true_intro (htypes.2 schema hschema), and_true, LogicalPlan.Shippable]
  | limit input n ih =>
    obtain ⟨pinput, -, rfl⟩ := Outcome.bind_pure_eq_ok_iff.mp h
    exact Iff.rfl
  | join left right joinType on _ _ =>
    obtain ⟨pleft, -, h⟩ := Outcome.bind_eq_ok_iff.mp h
    obtain ⟨pright, -, h⟩ := Outcome.bind_eq_ok_iff.mp h
    obtain ⟨ls, -, h⟩ := Outcome.bind_eq_ok_iff.mp h
    obtain ⟨rs, -, h⟩ := Outcome.bind_eq_ok_iff.mp h
    obtain ⟨lkeys, -, h⟩ := Outcome.bind_eq_ok_iff.mp h
    obtain ⟨rkeys, -, h⟩ := Outcome.bind_eq_ok_iff.mp h
    obtain ⟨schema, -, rfl⟩ := Outcome.bind_pure_eq_ok_iff.mp h
    exact Iff.rfl

end

section

attribute [local instance] integerFloats

local instance noPlannedFiles : Readers := parquetDisk fun _ => none

/-- A scan of a CSV file with one column. -/
def peopleScan : Scan where
  path := "people"
  dataSource := .csv (.new "people.csv" (some ⟨[⟨"name", .utf8⟩]⟩) true 1024)
  projection := []
  schema := ⟨[⟨"name", .utf8⟩]⟩
  derived := rfl

/-- A limit is lowered but cannot be written. -/
theorem createPhysicalPlan_limit_not_serialized :
    (LogicalPlan.limit (.scan peopleScan) 1).ScansFiles ∧
      (LogicalPlan.limit (.scan peopleScan) 1).ColumnsMapped ∧
        ∃ plan, createPhysicalPlan (.limit (.scan peopleScan) 1) = .ok plan ∧
          ¬ Outcome.Succeeds (serializePhysicalPlan plan) := by
  refine ⟨fun m => by simp [peopleScan], ?_, _, rfl, Outcome.not_succeeds_error _⟩
  rintro schema hschema
  cases hschema
  decide

/-- A filter on the name. -/
def peopleFilter : LogicalPlan :=
  .selection (.scan peopleScan) (.binary .eq (.column "name") (.literalString "a"))

/-- A filter is lowered and written. -/
theorem createPhysicalPlan_serializes_iff_filter :
    ∃ plan, createPhysicalPlan peopleFilter = .ok plan ∧
      Outcome.Succeeds (serializePhysicalPlan plan) := by
  have hfiles : peopleFilter.ScansFiles := fun m => by simp [peopleScan]
  have htypes : peopleFilter.ColumnsMapped := by
    rintro schema hschema
    cases hschema
    decide
  exact ⟨_, rfl, (createPhysicalPlan_serializes_iff rfl hfiles htypes).mpr
    ⟨trivial, trivial, trivial⟩⟩

end

end RQuery
