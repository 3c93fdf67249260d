import RQuery.LogicalPlan.Plan
import Mathlib.Data.Finset.Insert
import Mathlib.Tactic.Tauto

/-!
# References

The columns an expression refers to, by name and by index, and when they resolve in a schema.
-/

namespace RQuery

variable [FloatModel]

namespace LogicalExpr

/-- The column names in an expression. -/
def columns : LogicalExpr → List String
  | column name => [name]
  | dateSubtractInterval d i | dateAddInterval d i => d.columns ++ i.columns
  | cast e _ | not e | aliased e _ | aggregateExpr _ e => e.columns
  | binary _ l r => l.columns ++ r.columns
  | _ => []

/-- The column indices in an expression. -/
def indices : LogicalExpr → List ℕ
  | columnIndex i => [i]
  | dateSubtractInterval d i | dateAddInterval d i => d.indices ++ i.indices
  | cast e _ | not e | aliased e _ | aggregateExpr _ e => e.indices
  | binary _ l r => l.indices ++ r.indices
  | _ => []

/-- The forms that `extract_columns` supports. -/
def Supported : LogicalExpr → Prop
  | literalFloat _ | not _ | scalarFunction _ _ | aggregateExpr _ _ => False
  | dateSubtractInterval d i | dateAddInterval d i => d.Supported ∧ i.Supported
  | cast e _ | aliased e _ => e.Supported
  | binary _ l r => l.Supported ∧ r.Supported
  | _ => True

/-- The names of the columns that an expression refers to, by name or by index. -/
def references (schema : Schema) (e : LogicalExpr) : List String :=
  e.columns ++ e.indices.map fun i => schema.names.getD i ""

/-- Every reference, by name or by index, is to a field of the schema. -/
def Resolves (schema : Schema) (e : LogicalExpr) : Prop :=
  (∀ name ∈ e.columns, name ∈ schema.names) ∧ ∀ i ∈ e.indices, i < schema.fields.length

/-- Resolving the references of two operands. -/
theorem resolves_operands {schema : Schema} {l r e : LogicalExpr}
    (hc : e.columns = l.columns ++ r.columns) (hi : e.indices = l.indices ++ r.indices) :
    e.Resolves schema ↔ l.Resolves schema ∧ r.Resolves schema := by
  simp only [Resolves, hc, hi, List.forall_mem_append]
  tauto

omit [FloatModel] in
/-- A field is found exactly where the schema has its name. -/
theorem findField_succeeds_iff {schema : Schema} {name : String} :
    Outcome.Succeeds (findField schema name) ↔ name ∈ schema.names := by
  unfold findField
  cases h : schema.fields.find? fun f => f.name = name with
  | none =>
    simp only [Outcome.not_succeeds_error, false_iff]
    intro hmem
    obtain ⟨f, hf, rfl⟩ := List.mem_map.mp hmem
    simpa using List.find?_eq_none.mp h f hf
  | some f =>
    simp only [Outcome.succeeds_ok, true_iff]
    have hname : f.name = name := by simpa using List.find?_some h
    exact hname ▸ List.mem_map_of_mem (List.mem_of_find?_eq_some h)

/-- A supported expression whose references resolve has a field. -/
theorem toField_succeeds {schema : Schema} {e : LogicalExpr} (hsup : e.Supported)
    (hres : e.Resolves schema) : Outcome.Succeeds (e.toField (.ok schema)) := by
  induction e with
  | column name => exact findField_succeeds_iff.mpr (hres.1 name (by simp [columns]))
  | columnIndex i => exact index_succeeds_iff.mpr (hres.2 i (by simp [indices]))
  | cast e t ih =>
    obtain ⟨f, hf⟩ := ih hsup hres
    exact ⟨⟨f.name, t⟩, by rw [toField, hf]; rfl⟩
  | aliased e name ih =>
    obtain ⟨f, hf⟩ := ih hsup hres
    exact ⟨⟨name, f.dataType⟩, by rw [toField, hf]; rfl⟩
  | binary op l r ihl _ =>
    rw [toField]
    split
    · obtain ⟨f, hf⟩ := ihl hsup.1 ((resolves_operands rfl rfl).mp hres).1
      exact ⟨_, by rw [hf]; rfl⟩
    · exact ⟨_, rfl⟩
  | literalFloat f => exact hsup.elim
  | scalarFunction name t => exact hsup.elim
  | aggregateExpr fn e => exact hsup.elim
  | not e => exact hsup.elim
  | _ => exact ⟨_, rfl⟩

end LogicalExpr

/-- An aggregate over resolved columns has a field. -/
theorem AggregateExpr.toField_succeeds {schema : Schema} {a : AggregateExpr}
    (hsup : a.expr.Supported) (hres : a.expr.Resolves schema) :
    Outcome.Succeeds (a.toField (.ok schema)) := by
  obtain ⟨f, hf⟩ := LogicalExpr.toField_succeeds hsup hres
  unfold AggregateExpr.toField AggregateFn.toField
  rw [hf]
  split <;> exact ⟨_, rfl⟩

end RQuery
