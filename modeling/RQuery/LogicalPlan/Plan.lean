import RQuery.LogicalPlan.Expr
import RQuery.DataSource.Sources

/-!
# Logical plans

The six operators of a logical plan. A `Scan` caches the schema it derives from its source when it
is built; every other operator derives its schema from its inputs on demand.
-/

namespace RQuery

variable [FloatModel]

inductive JoinType
  | inner
  | left
  | right
  deriving DecidableEq, Repr

/-- `Scan::derive_schema`: an empty projection means all columns. -/
def Scan.deriveSchema [Readers] (dataSource : DataSource) (projection : List String) :
    Result Schema := do
  let schema ← dataSource.schema
  if projection.isEmpty then return schema else schema.select projection

/-- A scan, with the schema that `Scan::new` derived. -/
structure Scan [Readers] where
  path : String
  dataSource : DataSource
  projection : List String
  schema : Schema
  derived : Scan.deriveSchema dataSource projection = .ok schema

/-- A logical plan: a data transformation that returns a relation. -/
inductive LogicalPlan [Readers]
  | scan (s : Scan)
  | projection (input : LogicalPlan) (expr : List LogicalExpr)
  | selection (input : LogicalPlan) (expr : LogicalExpr)
  | aggregate (input : LogicalPlan) (groupExpr : List LogicalExpr)
      (aggregateExpr : List AggregateExpr)
  | join (left right : LogicalPlan) (joinType : JoinType) (on : List (String × String))
  | limit (input : LogicalPlan) (limit : Int32)

/-- The names of the keys that are called the same on both sides. -/
def duplicateKeys (on : List (String × String)) : List String :=
  (on.filter fun k => k.1 = k.2).map Prod.fst

/-- The fields of a join: a key called the same on both sides is listed once. -/
def joinFields (joinType : JoinType) (on : List (String × String)) (left right : List Field) :
    List Field :=
  match joinType with
  | .inner | .left => left ++ right.filter fun f => f.name ∉ duplicateKeys on
  | .right => (left.filter fun f => f.name ∉ duplicateKeys on) ++ right

variable [Readers]

/-- `Scan::new`. -/
def Scan.new (path : String) (dataSource : DataSource) (projection : List String) : Result Scan :=
  match h : Scan.deriveSchema dataSource projection with
  | .ok schema => .ok ⟨path, dataSource, projection, schema, h⟩
  | .error e => .error e

namespace LogicalPlan

/-- Schema of the data produced by a plan. -/
def schema : LogicalPlan → Result Schema
  | scan s => .ok s.schema
  | projection input expr => do return ⟨← expr.mapM fun e => e.toField input.schema⟩
  | selection input _ => input.schema
  | aggregate input groupExpr aggregateExpr => do
    let groups ← groupExpr.mapM fun e => e.toField input.schema
    return ⟨groups ++ (← aggregateExpr.mapM fun a => a.toField input.schema)⟩
  | join left right joinType on => do
    let l ← left.schema
    return ⟨joinFields joinType on l.fields (← right.schema).fields⟩
  | limit input _ => input.schema

end LogicalPlan

/-- A data frame is a logical plan that more operators can be put on. -/
structure DataFrame where
  logicalPlan : LogicalPlan

namespace DataFrame

def schema (df : DataFrame) : Result Schema := df.logicalPlan.schema

def project (df : DataFrame) (expr : List LogicalExpr) : DataFrame :=
  ⟨.projection df.logicalPlan expr⟩

def filter (df : DataFrame) (expr : LogicalExpr) : DataFrame :=
  ⟨.selection df.logicalPlan expr⟩

def aggregate (df : DataFrame) (groupBy : List LogicalExpr) (aggregateExpr : List AggregateExpr) :
    DataFrame :=
  ⟨.aggregate df.logicalPlan groupBy aggregateExpr⟩

def join (df right : DataFrame) (joinType : JoinType) (on : List (String × String)) : DataFrame :=
  ⟨.join df.logicalPlan right.logicalPlan joinType on⟩

def limit (df : DataFrame) (n : Int32) : DataFrame :=
  ⟨.limit df.logicalPlan n⟩

end DataFrame

theorem Scan.new_eq_ok_iff {path : String} {dataSource : DataSource} {projection : List String}
    {s : Scan} :
    Scan.new path dataSource projection = .ok s ↔
      s.path = path ∧ s.dataSource = dataSource ∧ s.projection = projection := by
  unfold Scan.new
  split
  · rename_i schema h
    obtain ⟨path', dataSource', projection', schema', h'⟩ := s
    simp only [Except.ok.injEq, Scan.mk.injEq]
    constructor
    · rintro ⟨rfl, rfl, rfl, rfl⟩
      exact ⟨rfl, rfl, rfl⟩
    · rintro ⟨rfl, rfl, rfl⟩
      exact ⟨rfl, rfl, rfl, by simpa [h] using h'⟩
  · rename_i e h
    simp only [reduceCtorEq, false_iff]
    rintro ⟨-, rfl, rfl⟩
    rw [s.derived] at h
    cases h

end RQuery
