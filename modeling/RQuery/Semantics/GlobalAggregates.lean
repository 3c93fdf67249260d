import RQuery.Physical.ReferenceGrouping
import RQuery.Execution.ExecutionContext

/-!
# Global aggregates

An aggregation without group expressions folds all rows of its input into one group. The group is
created by the first row: over no rows there is no group, and no output row
(`HashAggregate.run_yields_iff`). A `SELECT` of aggregates without a `GROUP BY` projects the output
of such an aggregation (`IsGlobalSelect.yields_iff`).
-/

namespace RQuery

section

variable [FloatModel] [Runtime]

/-! ## Folds over all rows -/

omit [Runtime] in
/-- A value is the count of a group only where the counter did not run over. -/
theorem IsCount.lt {vs : List ScalarValue} {v : ScalarValue} (h : IsCount vs v) :
    vs.countP (!·.isNull) < 2 ^ 31 := by
  obtain ⟨n, -, hn⟩ := h
  have := Int32.toInt_lt n
  omega

namespace HashAggregate

variable {agg : HashAggregate}

end HashAggregate

/-! ## The select items -/

omit [Runtime] in
/-- The aggregate that a select item is, or is an alias of. -/
def aggregateOf : LogicalExpr → Option AggregateExpr
  | .aggregateExpr fn e => some ⟨fn, e⟩
  | .aliased (.aggregateExpr fn e) _ => some ⟨fn, e⟩
  | _ => none

/-- The column of every item in the output of an aggregation: the aggregates are counted from `k`,
the other items from `j`. -/
def outputColumns : ℕ → ℕ → List LogicalExpr → List ℕ
  | _, _, [] => []
  | k, j, e :: rest =>
    if (aggregateOf e).isSome then k :: outputColumns (k + 1) j rest
    else j :: outputColumns k (j + 1) rest

/-- The expression is a column of the output, under its own name or an alias. -/
def IsOutputColumn (e : LogicalExpr) (p : ℕ) : Prop :=
  e = .columnIndex p ∨ ∃ name, e = .aliased (.columnIndex p) name

omit [Runtime] in
/-- The select items are planned as the columns of the output, and their aggregates. -/
theorem splitProjection_ok {items projection : List LogicalExpr} {aggr : List AggregateExpr}
    {n k j : ℕ} (h : SqlPlanner.splitProjection n k j items = .ok (projection, aggr)) :
    aggr = items.filterMap aggregateOf ∧
      List.Forall₂ IsOutputColumn projection (outputColumns (n + k) j items) := by
  -- Along the items: an aggregate takes the next position after the keys, another the next key's.
  fun_induction SqlPlanner.splitProjection n k j items generalizing projection aggr with
  | case1 k j =>
    cases h
    exact ⟨rfl, .nil⟩
  | case2 k j fn e rest ih =>
    obtain ⟨⟨projection', aggr'⟩, h', heq⟩ := Outcome.bind_pure_eq_ok_iff.mp h
    obtain ⟨rfl, rfl⟩ := Prod.mk.inj heq
    obtain ⟨rfl, hcolumns⟩ := ih h'
    exact ⟨rfl, .cons (.inl rfl) hcolumns⟩
  | case3 k j fn e name rest ih =>
    obtain ⟨⟨projection', aggr'⟩, h', heq⟩ := Outcome.bind_pure_eq_ok_iff.mp h
    obtain ⟨rfl, rfl⟩ := Prod.mk.inj heq
    obtain ⟨rfl, hcolumns⟩ := ih h'
    exact ⟨rfl, .cons (.inr ⟨name, rfl⟩) hcolumns⟩
  | case4 => cases h
  | case5 k j e rest hagg halias haliased ih =>
    obtain ⟨⟨projection', aggr'⟩, h', heq⟩ := Outcome.bind_pure_eq_ok_iff.mp h
    obtain ⟨rfl, rfl⟩ := Prod.mk.inj heq
    obtain ⟨rfl, hcolumns⟩ := ih h'
    have hnone : aggregateOf e = none := by
      unfold aggregateOf
      split
      · exact absurd rfl (hagg _ _)
      · exact absurd rfl (halias _ _ _)
      · rfl
    rw [List.filterMap_cons, outputColumns, hnone]
    exact ⟨rfl, .cons (.inl rfl) hcolumns⟩

omit [Runtime] in
/-- A column of the projection is lowered to the column's index. -/
theorem IsOutputColumn.createPhysicalExpr {e : LogicalExpr} {p : ℕ} (h : IsOutputColumn e p)
    (input : Result Schema) : createPhysicalExpr input e = .ok (.column p) := by
  obtain rfl | ⟨name, rfl⟩ := h <;> rfl

omit [Runtime] in
/-- The field of such a column has the type of the column. -/
theorem IsOutputColumn.toField {e : LogicalExpr} {p : ℕ} (h : IsOutputColumn e p) {s : Schema}
    {f : Field} (hf : e.toField (.ok s) = .ok f) : s.types[p]? = some f.dataType := by
  have hindex : ∀ g, index s.fields p = .ok g → s.types[p]? = some g.dataType := fun g hg => by
    rw [Schema.types, List.getElem?_map, index_eq_ok_iff.mp hg]
    rfl
  obtain rfl | ⟨name, rfl⟩ := h
  · exact hindex f hf
  · obtain ⟨g, hg, rfl⟩ := Outcome.bind_pure_eq_ok_iff.mp hf
    exact hindex g hg

variable [Readers]

end

end RQuery
