import RQuery.Semantics.ColumnCollectors
import RQuery.Semantics.GlobalAggregates

/-!
# Resolved plans

A plan resolves when every column name in a node is a field of the node's input; then neither its
schema nor its lowering panics with an unknown column. The SQL planner projects before it filters
and aggregates, and adds to that projection the columns that it collects from the later clauses and
does not find among those the select items refer to (`Projected`). A plan resolves exactly when these
are all the columns that the later clauses refer to (`createDataFrame_resolves_iff`).
-/

namespace RQuery

section

/-! ## Columns that are found -/

/-- The panic of a column name that no field carries. -/
def Panic.IsUnknownColumn (e : Panic) : Prop := ∃ name, e = .unknownColumn name

/-- A column that the schema has is found. -/
theorem fieldPosition_avoids {schema : Schema} {name : String} (h : name ∈ schema.names) :
    Outcome.Avoids Panic.IsUnknownColumn (fieldPosition schema name) := by
  obtain ⟨i, hi⟩ := Schema.position?_of_mem h
  rw [fieldPosition, hi]
  exact (Outcome.succeeds_ok i).avoids

/-- An index out of bounds is no unknown column. -/
theorem index_avoids {α : Type} (xs : List α) (i : ℕ) :
    Outcome.Avoids Panic.IsUnknownColumn (index xs i) := by
  unfold index
  cases xs[i]? with
  | some a => exact (Outcome.succeeds_ok a).avoids
  | none => exact Outcome.avoids_error (by rintro ⟨name, ⟨⟩⟩)

/-- What is not supported is no unknown column. -/
theorem unsupported_avoids {α : Type} (what : String) :
    Outcome.Avoids Panic.IsUnknownColumn (.error (.unsupported what) : Result α) :=
  Outcome.avoids_error (by rintro ⟨name, ⟨⟩⟩)

variable [FloatModel]

/-- An expression whose names are fields of the schema. -/
def LogicalExpr.Finds (schema : Schema) (e : LogicalExpr) : Prop :=
  ∀ name ∈ e.columns, name ∈ schema.names

namespace LogicalExpr.Finds

variable {schema : Schema}

/-- The operands of an expression find their columns where the expression does. -/
theorem operands {l r e : LogicalExpr} (hc : e.columns = l.columns ++ r.columns)
    (h : e.Finds schema) : l.Finds schema ∧ r.Finds schema := by
  rw [Finds, hc, List.forall_mem_append] at h
  exact h

/-- The field of an expression that finds its columns meets no unknown column. -/
theorem toField_avoids {e : LogicalExpr} (h : e.Finds schema) :
    Outcome.Avoids Panic.IsUnknownColumn (e.toField (.ok schema)) := by
  induction e with
  | column name => exact (findField_succeeds_iff.mpr (h name List.mem_cons_self)).avoids
  | columnIndex i => exact index_avoids _ _
  | cast e t ih => exact (ih h).bind_pure
  | aliased e name ih => exact (ih h).bind_pure
  | binary op l r ihl _ =>
    -- The field of a comparison needs no column; that of a sum is its left operand's.
    rw [toField]
    split
    · exact (ihl (operands rfl h).1).bind_pure
    · exact (Outcome.succeeds_ok _).avoids
  | aggregateExpr fn e ih =>
    rw [toField]
    unfold AggregateFn.toField
    split
    · exact (Outcome.succeeds_ok _).avoids
    · exact (Outcome.succeeds_ok _).avoids
    · exact (ih h).bind_pure
  | _ => exact (Outcome.succeeds_ok _).avoids

/-- Lowering an expression that finds its columns meets no unknown column. -/
theorem lower_avoids {e : LogicalExpr} (h : e.Finds schema) :
    Outcome.Avoids Panic.IsUnknownColumn (createPhysicalExpr (.ok schema) e) := by
  induction e with
  | column name => exact (fieldPosition_avoids (h name List.mem_cons_self)).bind_pure
  | cast e t ih => exact (ih h).bind_pure
  | aliased e name ih => exact ih h
  | dateSubtractInterval l r ihl ihr | dateAddInterval l r ihl ihr =>
    exact (ihl (operands rfl h).1).bind fun _ _ => (ihr (operands rfl h).2).bind_pure
  | binary op l r ihl ihr =>
    refine (ihl (operands rfl h).1).bind fun _ _ => (ihr (operands rfl h).2).bind fun _ _ => ?_
    cases op with
    | modulus => exact unsupported_avoids _
    | _ => exact (Outcome.succeeds_ok _).avoids
  | literalFloat _ | scalarFunction _ _ | aggregateExpr _ _ | not _ => exact unsupported_avoids _
  | _ => exact (Outcome.succeeds_ok _).avoids

end LogicalExpr.Finds

/-- The field of an aggregate meets no unknown column if its argument finds its columns. -/
theorem AggregateExpr.toField_avoids {schema : Schema} {a : AggregateExpr}
    (h : a.expr.Finds schema) : Outcome.Avoids Panic.IsUnknownColumn (a.toField (.ok schema)) :=
  LogicalExpr.Finds.toField_avoids (e := .aggregateExpr a.fn a.expr) h

/-- Lowering an aggregate meets no unknown column if its argument finds its columns. -/
theorem AggregateExpr.lower_avoids {schema : Schema} {a : AggregateExpr}
    (h : a.expr.Finds schema) : Outcome.Avoids Panic.IsUnknownColumn (createAggregateExpr (.ok schema) a) := by
  unfold createAggregateExpr
  split
  case h_6 => exact unsupported_avoids _
  all_goals exact h.lower_avoids.bind_pure

variable [Readers]

namespace LogicalPlan

/-- The input of a node has a schema, in which the node's expressions find their columns. -/
def Offers (input : LogicalPlan) (exprs : List LogicalExpr) : Prop :=
  ∃ schema, input.schema = .ok schema ∧ ∀ e ∈ exprs, e.Finds schema

/-- Every node of the plan finds its columns in its input. -/
def FindsColumns : LogicalPlan → Prop
  | scan _ => True
  | projection input expr => input.FindsColumns ∧ input.Offers expr
  | selection input expr => input.FindsColumns ∧ input.Offers [expr]
  | aggregate input groupExpr aggregateExpr =>
    input.FindsColumns ∧ input.Offers (groupExpr ++ aggregateExpr.map AggregateExpr.expr)
  | join left right _ on =>
    left.FindsColumns ∧ right.FindsColumns ∧ left.Offers (on.map fun k => .column k.1) ∧
      right.Offers (on.map fun k => .column k.2)
  | limit input _ => input.FindsColumns

/-- The schema of such a plan is derived without an unknown column. -/
theorem FindsColumns.schema_avoids {P : LogicalPlan} (h : P.FindsColumns) :
    Outcome.Avoids Panic.IsUnknownColumn P.schema := by
  induction P with
  | scan s => exact (Outcome.succeeds_ok _).avoids
  | projection input expr ih =>
    obtain ⟨schema, hschema, hfinds⟩ := h.2
    rw [LogicalPlan.schema, hschema]
    exact (Outcome.Avoids.mapM fun e he => (hfinds e he).toField_avoids).bind_pure
  | selection input expr ih => exact ih h.1
  | aggregate input groupExpr aggregateExpr ih =>
    obtain ⟨schema, hschema, hfinds⟩ := h.2
    -- The argument of an aggregate is looked up like a group expression.
    obtain ⟨hgroup, haggr⟩ := List.forall_mem_append.mp hfinds
    rw [LogicalPlan.schema, hschema]
    refine (Outcome.Avoids.mapM fun e he => (hgroup e he).toField_avoids).bind fun _ _ => ?_
    exact (Outcome.Avoids.mapM fun a ha =>
      AggregateExpr.toField_avoids (haggr _ (List.mem_map_of_mem ha))).bind_pure
  | join left right joinType on ihl ihr =>
    exact (ihl h.1).bind fun _ _ => (ihr h.2.1).bind_pure
  | limit input n ih => exact ih h

/-- And it is lowered without one. -/
theorem FindsColumns.lower_avoids {P : LogicalPlan} (h : P.FindsColumns) :
    Outcome.Avoids Panic.IsUnknownColumn (createPhysicalPlan P) := by
  induction P with
  | scan s => exact (Outcome.succeeds_ok _).avoids
  | projection input expr ih =>
    obtain ⟨schema, hschema, hfinds⟩ := h.2
    rw [createPhysicalPlan, hschema]
    refine (ih h.1).bind fun _ _ => ?_
    refine (Outcome.Avoids.mapM fun e he => (hfinds e he).lower_avoids).bind fun _ _ => ?_
    exact (Outcome.Avoids.mapM fun e he => (hfinds e he).toField_avoids).bind_pure
  | selection input expr ih =>
    obtain ⟨schema, hschema, hfinds⟩ := h.2
    rw [createPhysicalPlan, hschema]
    exact (ih h.1).bind fun _ _ => (hfinds expr List.mem_cons_self).lower_avoids.bind_pure
  | aggregate input groupExpr aggregateExpr ih =>
    -- The schema is computed once more while lowering.
    have hschemaAvoids := h.schema_avoids
    obtain ⟨schema, hschema, hfinds⟩ := h.2
    obtain ⟨hgroup, haggr⟩ := List.forall_mem_append.mp hfinds
    rw [createPhysicalPlan, hschema]
    refine (ih h.1).bind fun _ _ => ?_
    refine (Outcome.Avoids.mapM fun e he => (hgroup e he).lower_avoids).bind fun _ _ => ?_
    refine (Outcome.Avoids.mapM fun a ha =>
      AggregateExpr.lower_avoids (haggr _ (List.mem_map_of_mem ha))).bind fun _ _ => ?_
    exact hschemaAvoids.bind_pure
  | join left right joinType on ihl ihr =>
    have hschemaAvoids := h.schema_avoids
    obtain ⟨hleft, hright, ⟨leftSchema, hl, hleftKeys⟩, rightSchema, hr, hrightKeys⟩ := h
    rw [createPhysicalPlan, hl, hr]
    refine (ihl hleft).bind fun _ _ => (ihr hright).bind fun _ _ => ?_
    rw [Outcome.ok_bind, Outcome.ok_bind]
    -- The keys of each side are looked up in that side's schema.
    refine (Outcome.Avoids.mapM fun k hk => fieldPosition_avoids
      (hleftKeys _ (List.mem_map_of_mem hk) _ List.mem_cons_self)).bind fun _ _ => ?_
    refine (Outcome.Avoids.mapM fun k hk => fieldPosition_avoids
      (hrightKeys _ (List.mem_map_of_mem hk) _ List.mem_cons_self)).bind fun _ _ => ?_
    exact hschemaAvoids.bind_pure
  | limit input n ih => exact (ih h).bind_pure

end LogicalPlan

/-! ## The columns of a statement -/

/-- A column that a later clause refers to is in the projection in front of it: a select item has its
name, or it is collected from the clauses and no select item refers to it. -/
def Projected (schema : Schema) (outputs : List LogicalExpr) (collected : List String)
    (name : String) : Prop :=
  (∃ e ∈ outputs, ∃ t, e.toField (.ok schema) = .ok ⟨name, t⟩) ∨
    name ∈ collected ∧ name ∉ outputs.flatMap LogicalExpr.plainColumns

section

omit [Readers]

omit [FloatModel] in
/-- An extended list has the names of both lists. -/
theorem mem_orderedExtend {target extra : List String} {name : String} :
    name ∈ orderedExtend target extra ↔ name ∈ target ∨ name ∈ extra := by
  induction extra generalizing target with
  | nil => simp [orderedExtend]
  | cons x xs ih =>
    have hstep : orderedExtend target (x :: xs) =
        orderedExtend (if x ∈ target then target else target ++ [x]) xs := rfl
    rw [hstep, ih]
    split
    · rename_i hx
      simp only [List.mem_cons]
      constructor
      · rintro (h | h)
        · exact .inl h
        · exact .inr (.inr h)
      · rintro (h | rfl | h)
        · exact .inl h
        · exact .inl hx
        · exact .inr h
    · simp [or_assoc]

/-- `visit` adds the plain columns of an expression. -/
theorem mem_visit {e : LogicalExpr} {acc : List String} {name : String} :
    name ∈ visit e acc ↔ name ∈ acc ∨ name ∈ e.plainColumns := by
  rw [visit_eq_orderedExtend, mem_orderedExtend]

/-- Collecting from a list of expressions. -/
theorem mem_foldl_visit {es : List LogicalExpr} {acc : List String} {name : String} :
    name ∈ es.foldl (fun acc e => visit e acc) acc ↔
      name ∈ acc ∨ name ∈ es.flatMap LogicalExpr.plainColumns := by
  induction es generalizing acc with
  | nil => simp
  | cons e es ih => rw [List.foldl_cons, ih, mem_visit, List.flatMap_cons, List.mem_append, or_assoc]

/-- The referenced columns are the plain columns of the expressions. -/
theorem mem_referencedColumns {es : List LogicalExpr} {name : String} :
    name ∈ referencedColumns es ↔ name ∈ es.flatMap LogicalExpr.plainColumns := by
  rw [referencedColumns, mem_foldl_visit]
  simp

/-- Plain columns are columns. -/
theorem LogicalExpr.plainColumns_subset (e : LogicalExpr) : e.plainColumns ⊆ e.columns := by
  induction e with
  | aliased e name ih => exact ih
  | aggregateExpr fn e ih => exact ih
  | binary op l r ihl ihr =>
    refine List.append_subset.mpr ⟨?_, ?_⟩
    · exact List.subset_append_of_subset_left _ ihl
    · exact List.subset_append_of_subset_right _ ihr
  | column name => exact List.Subset.refl _
  | _ => exact List.nil_subset _

/-- An expression without indices that finds its columns has a field. -/
theorem LogicalExpr.Finds.toField_succeeds {schema : Schema} {e : LogicalExpr}
    (h : e.Finds schema) (hindices : e.indices = []) :
    Outcome.Succeeds (e.toField (.ok schema)) := by
  induction e with
  | column name => exact findField_succeeds_iff.mpr (h name List.mem_cons_self)
  | columnIndex i => cases hindices
  | cast e t ih =>
    obtain ⟨f, hf⟩ := ih h hindices
    exact ⟨_, by rw [toField, hf]; rfl⟩
  | aliased e name ih =>
    obtain ⟨f, hf⟩ := ih h hindices
    exact ⟨_, by rw [toField, hf]; rfl⟩
  | binary op l r ihl _ =>
    rw [toField]
    -- Arithmetic has the field of its left operand, everything else is boolean.
    split
    · obtain ⟨f, hf⟩ := ihl (operands rfl h).1 (List.append_eq_nil_iff.mp hindices).1
      exact ⟨_, by rw [hf]; rfl⟩
    · exact ⟨_, rfl⟩
  | aggregateExpr fn e ih =>
    obtain ⟨f, hf⟩ := ih h hindices
    rw [toField, hf]
    unfold AggregateFn.toField
    split <;> exact ⟨_, rfl⟩
  | _ => exact ⟨_, rfl⟩

end

section

variable [UnicodeTables] [DateParser]

omit [Readers] [UnicodeTables] [DateParser] in
/-- An operation that the SQL planner builds has no index beyond those of its operands. -/
theorem indices_of_createBinaryExpr {op : String} {l r e : LogicalExpr} (hl : l.indices = [])
    (hr : r.indices = []) (h : SqlPlanner.createBinaryExpr op l r = .ok e) : e.indices = [] := by
  have hplain : ∀ op, (LogicalExpr.binary op l r).indices = [] := fun op =>
    List.append_eq_nil_iff.mpr ⟨hl, hr⟩
  -- Date arithmetic refers to what its operands refer to.
  have hadditive : ∀ op f, (∀ l r : LogicalExpr, (f l r).indices = l.indices ++ r.indices) →
      (SqlPlanner.additive op f l r).indices = [] := by
    intro op f hf
    unfold SqlPlanner.additive
    split
    · exact hf _ _
    · exact hplain op
  unfold SqlPlanner.createBinaryExpr at h
  split at h <;>
    first
    | cases h; exact hplain _
    | cases h; exact hadditive _ _ fun _ _ => rfl
    | cases h

omit [Readers] in
/-- The planner refers to the columns of the table by name. -/
-- The recursion follows the translation: identifiers become names, and no form becomes an index.
theorem indices_of_createLogicalExpr : ∀ {e : SqlExpr} {planned : LogicalExpr},
    SqlPlanner.createLogicalExpr e = .ok planned → planned.indices = []
  | .identifier _, _, h | .string _, _, h | .long _, _, h | .double _, _, h => by
    cases h
    rfl
  | .date v, _, h => by
    rw [SqlPlanner.createLogicalExpr_date] at h
    split at h
    · cases h
      rfl
    · cases h
  | .interval v, _, h => by
    rw [SqlPlanner.createLogicalExpr_interval] at h
    unfold SqlPlanner.parseInterval at h
    split at h
    · cases h
      rfl
    · cases h
  | .binaryExpr l op r, _, h => by
    obtain ⟨l', hl, h⟩ := Outcome.bind_eq_ok_iff.mp h
    obtain ⟨r', hr, h⟩ := Outcome.bind_eq_ok_iff.mp h
    exact indices_of_createBinaryExpr (indices_of_createLogicalExpr hl)
      (indices_of_createLogicalExpr hr) h
  | .aliased e name, _, h => by
    obtain ⟨e', he, rfl⟩ := Outcome.bind_pure_eq_ok_iff.mp h
    show e'.indices = []
    exact indices_of_createLogicalExpr he
  | .cast e t, _, h => by
    obtain ⟨e', he, h⟩ := Outcome.bind_eq_ok_iff.mp h
    obtain ⟨t', -, rfl⟩ := Outcome.bind_pure_eq_ok_iff.mp h
    show e'.indices = []
    exact indices_of_createLogicalExpr he
  | .function id [], _, h => by cases h
  | .function id (arg :: args), _, h => by
    rw [SqlPlanner.createLogicalExpr_function] at h
    split at h
    · obtain ⟨a, ha, rfl⟩ := Outcome.bind_pure_eq_ok_iff.mp h
      -- A star is counted as the literal 1.
      unfold SqlPlanner.createArgument at ha
      split at ha
      · cases ha
        rfl
      · show a.indices = []
        exact indices_of_createLogicalExpr ha
    · cases h
  | .sort _ _, _, h | .select _, _, h => by cases h

/-- The expressions that the clauses of a statement are planned as. -/
structure PlannedClauses (select : SqlSelect) where
  items : List LogicalExpr
  filter : Option LogicalExpr
  groups : List LogicalExpr
  items_eq : select.projection.mapM SqlPlanner.createLogicalExpr = .ok items
  filter_eq : select.selection.mapM SqlPlanner.createLogicalExpr = .ok filter
  groups_eq : select.groupBy.mapM SqlPlanner.createLogicalExpr = .ok groups

namespace PlannedClauses

variable {select : SqlSelect} (c : PlannedClauses select)

/-- The select items that are not aggregates. -/
def outputs : List LogicalExpr := c.items.filter fun e => !isAggregateExpr e

/-- The arguments of the aggregates. -/
def arguments : List LogicalExpr := (c.items.filterMap aggregateOf).map AggregateExpr.expr

/-- All names that the clauses refer to. -/
def columns : List String :=
  (c.items ++ c.filter.toList ++ c.groups).flatMap LogicalExpr.columns

/-- Every column that a filter, a group expression or an aggregate refers to is in the projection in
front of the filter. -/
def KeepsColumns (schema : Schema) : Prop :=
  ∀ filter ∈ c.filter,
    ∀ name ∈ (filter :: c.groups ++ c.arguments).flatMap LogicalExpr.columns,
      Projected schema c.outputs ((filter :: c.arguments).flatMap LogicalExpr.plainColumns) name

omit [Readers] in
/-- Select items refer to columns by name. -/
theorem indices_items : ∀ e ∈ c.items, e.indices = [] := by
  intro e he
  obtain ⟨s, -, hs⟩ := Outcome.mapM_mem c.items_eq he
  exact indices_of_createLogicalExpr hs

omit [Readers] in
/-- Group expressions refer to columns by name. -/
theorem indices_groups : ∀ e ∈ c.groups, e.indices = [] := by
  intro e he
  obtain ⟨s, -, hs⟩ := Outcome.mapM_mem c.groups_eq he
  exact indices_of_createLogicalExpr hs

omit [Readers] in
/-- The filter refers to columns by name. -/
theorem indices_filter : ∀ filter ∈ c.filter, filter.indices = [] := by
  intro filter hfilter
  have hmap := c.filter_eq
  cases hselection : select.selection with
  | none =>
    rw [hselection] at hmap
    cases (Except.ok.inj hmap).trans hfilter
  | some selection =>
    rw [hselection] at hmap
    obtain ⟨planned, hplanned, heq⟩ := Outcome.map_eq_ok_iff.mp hmap
    obtain rfl : planned = filter := Option.some.inj (heq.trans hfilter)
    exact indices_of_createLogicalExpr hplanned

end PlannedClauses

end

/-! ## The projection in front of the filter -/

omit [Readers] in
/-- The columns added to a projection are referred to by name. -/
theorem indices_append_columns {es : List LogicalExpr} (h : ∀ e ∈ es, e.indices = [])
    (added : List String) : ∀ e ∈ es ++ added.map LogicalExpr.column, e.indices = [] := by
  intro e he
  rcases List.mem_append.mp he with he | he
  · exact h e he
  · obtain ⟨name, -, rfl⟩ := List.mem_map.mp he
    rfl

omit [Readers] [FloatModel] in
/-- The field that is found has the name looked for. -/
theorem findField_name {schema : Schema} {name : String} {f : Field}
    (h : LogicalExpr.findField schema name = .ok f) : f.name = name := by
  unfold LogicalExpr.findField at h
  split at h
  · rename_i g hg
    obtain rfl := Except.ok.inj h
    simpa using List.find?_some hg
  · cases h

/-- The fields of the projection are those of the select items and the added columns. -/
theorem project_names {df : DataFrame} {schema : Schema} (hschema : df.schema = .ok schema)
    {outputs : List LogicalExpr} {missing : List String}
    (houtputs : ∀ e ∈ outputs, e.Finds schema ∧ e.indices = [])
    (hmissing : ∀ name ∈ missing, name ∈ schema.names) :
    ∃ s, (df.project (outputs ++ missing.map LogicalExpr.column)).schema = .ok s ∧ ∀ name, name ∈ s.names ↔
      (∃ e ∈ outputs, ∃ t, e.toField (.ok schema) = .ok ⟨name, t⟩) ∨ name ∈ missing := by
  have hadded : ∀ name ∈ missing, ∃ t,
      (LogicalExpr.column name).toField (.ok schema) = .ok ⟨name, t⟩ := by
    intro name hname
    obtain ⟨f, hf⟩ := LogicalExpr.findField_succeeds_iff.mpr (hmissing name hname)
    have hfield : f.name = name := findField_name hf
    exact ⟨f.dataType, by rw [LogicalExpr.toField, Outcome.ok_bind, hf, ← hfield]⟩
  obtain ⟨fields, hfields⟩ : Outcome.Succeeds
      ((outputs ++ missing.map LogicalExpr.column).mapM fun e : LogicalExpr => e.toField (.ok schema)) := by
    refine Outcome.mapM_succeeds_iff.mpr fun e he => ?_
    rcases List.mem_append.mp he with he | he
    · exact (houtputs e he).1.toField_succeeds (houtputs e he).2
    · obtain ⟨name, hname, rfl⟩ := List.mem_map.mp he
      obtain ⟨t, ht⟩ := hadded name hname
      exact ⟨_, ht⟩
  refine ⟨⟨fields⟩, ?_, fun name => ?_⟩
  · rw [DataFrame.schema, DataFrame.project, LogicalPlan.schema,
      show df.logicalPlan.schema = .ok schema from hschema, hfields]
    rfl
  -- A name of the projection is the name of an output or an added column.
  · constructor
    · intro hname
      obtain ⟨f, hf, rfl⟩ := List.mem_map.mp hname
      obtain ⟨e, he, hfield⟩ := Outcome.mapM_mem hfields hf
      rcases List.mem_append.mp he with he | he
      · exact .inl ⟨e, he, f.dataType, hfield⟩
      · obtain ⟨added, hadd, rfl⟩ := List.mem_map.mp he
        obtain ⟨t, ht⟩ := hadded added hadd
        obtain rfl : ⟨added, t⟩ = f := Except.ok.inj (ht.symm.trans hfield)
        exact .inr hadd
    · intro h
      have hmem : ∃ e ∈ outputs ++ missing.map LogicalExpr.column, ∃ t, e.toField (.ok schema) = .ok ⟨name, t⟩ := by
        rcases h with ⟨e, he, h⟩ | hname
        · exact ⟨e, List.mem_append_left _ he, h⟩
        · exact ⟨_, List.mem_append_right _ (List.mem_map_of_mem hname), hadded name hname⟩
      obtain ⟨e, he, t, ht⟩ := hmem
      obtain ⟨f, hf, hfield⟩ := Outcome.mapM_mem_left hfields he
      obtain rfl : ⟨name, t⟩ = f := Except.ok.inj (ht.symm.trans hfield)
      exact List.mem_map_of_mem hf

omit [Readers] in
/-- Columns of the schema may be added to expressions that find theirs. -/
theorem finds_added {schema : Schema} {outputs : List LogicalExpr} {missing : List String}
    (houtputs : ∀ e ∈ outputs, e.Finds schema) (hmissing : ∀ name ∈ missing, name ∈ schema.names) :
    ∀ e ∈ outputs ++ missing.map LogicalExpr.column, e.Finds schema := by
  refine List.forall_mem_append.mpr ⟨houtputs, fun e he => ?_⟩
  obtain ⟨added, hadded, rfl⟩ := List.mem_map.mp he
  intro name hname
  obtain rfl := List.mem_singleton.mp hname
  exact hmissing name hadded

/-- A projection to expressions that find their columns asks for no more. -/
theorem project_findsColumns_iff {df : DataFrame} {schema : Schema} (hschema : df.schema = .ok schema)
    {exprs : List LogicalExpr} (hexprs : ∀ e ∈ exprs, e.Finds schema) :
    (df.project exprs).logicalPlan.FindsColumns ↔ df.logicalPlan.FindsColumns :=
  and_iff_left ⟨schema, hschema, hexprs⟩

/-- A node over an input with a schema. -/
theorem offers_iff {input : LogicalPlan} {schema : Schema} (hschema : input.schema = .ok schema)
    {exprs : List LogicalExpr} : input.Offers exprs ↔ ∀ e ∈ exprs, e.Finds schema := by
  constructor
  · rintro ⟨s, hs, h⟩
    rwa [← Except.ok.inj (hs.symm.trans hschema)]
  · exact fun h => ⟨schema, hschema, h⟩

/-- A limit asks for no columns. -/
theorem limited_findsColumns_iff {df : DataFrame} (limit : Option Int32) :
    (SqlPlanner.limited df limit).logicalPlan.FindsColumns ↔ df.logicalPlan.FindsColumns := by
  cases limit <;> rfl

/-! ## Planned statements -/

section

variable [UnicodeTables] [DateParser]

/-- Whether the columns that the filter lacks are added or not, the plan is a filter over the
projection; the columns that are dropped afterwards are fields of it. -/
theorem planNonAggregateQuery_findsColumns_iff {select : SqlSelect} {df plan : DataFrame}
    {items : List LogicalExpr} {inSelection inProjection : List String} {selection : SqlExpr}
    {filter : LogicalExpr} (hselection : select.selection = some selection)
    (hfilter : SqlPlanner.createLogicalExpr selection = .ok filter)
    (h : SqlPlanner.planNonAggregateQuery select df items inSelection inProjection = .ok plan) :
    plan.logicalPlan.FindsColumns ↔
      ((df.project (items ++ (orderedDifference inSelection inProjection).map LogicalExpr.column)).filter
        filter).logicalPlan.FindsColumns := by
  unfold SqlPlanner.planNonAggregateQuery at h
  rw [hselection] at h
  simp only [hfilter, Outcome.ok_bind] at h
  split at h
  · rename_i hempty
    obtain rfl := Except.ok.inj h
    rw [List.isEmpty_iff] at hempty
    rw [limited_findsColumns_iff, hempty, List.map_nil, List.append_nil]
  -- Otherwise a last projection takes the added columns away again; it is over columns that are
  -- there.
  · obtain ⟨schema, hschema, h⟩ := Outcome.bind_eq_ok_iff.mp h
    obtain ⟨exprs, hexprs, rfl⟩ := Outcome.bind_pure_eq_ok_iff.mp h
    rw [limited_findsColumns_iff]
    refine project_findsColumns_iff hschema fun e he => ?_
    obtain ⟨i, -, hi⟩ := Outcome.mapM_mem hexprs he
    obtain ⟨f, hf, rfl⟩ := Outcome.bind_pure_eq_ok_iff.mp hi
    intro name hname
    obtain rfl := List.mem_singleton.mp hname
    exact List.mem_map_of_mem (List.mem_of_getElem? (index_eq_ok_iff.mp hf))

/-- The columns that the aggregate query adds to the projection. -/
theorem planAggregateQuery_eq_ok {select : SqlSelect} {df plan : DataFrame}
    {items : List LogicalExpr} {inSelection : List String} {aggr : List AggregateExpr}
    {selection : SqlExpr} {filter : LogicalExpr} (hselection : select.selection = some selection)
    (hfilter : SqlPlanner.createLogicalExpr selection = .ok filter)
    (h : SqlPlanner.planAggregateQuery items select inSelection df aggr = .ok plan) :
    ∃ (missing : List String) (groups : List LogicalExpr),
      select.groupBy.mapM SqlPlanner.createLogicalExpr = .ok groups ∧
      plan = ((df.project ((items.filter fun e => !isAggregateExpr e) ++
        missing.map LogicalExpr.column)).filter filter).aggregate groups aggr ∧
      ∀ name, name ∈ missing ↔
        (name ∈ inSelection ∨ name ∈ (aggr.map AggregateExpr.expr).flatMap LogicalExpr.plainColumns) ∧
        name ∉ (items.filter fun e => !isAggregateExpr e).flatMap LogicalExpr.plainColumns := by
  unfold SqlPlanner.planAggregateQuery at h
  rw [hselection] at h
  simp only [hfilter, Outcome.ok_bind, Outcome.pure_eq_ok] at h
  obtain ⟨groups, hgroups, rfl⟩ := Outcome.bind_pure_eq_ok_iff.mp h
  refine ⟨_, groups, hgroups, rfl, fun name => ?_⟩
  have hfold : aggr.foldl (fun acc agg => visitAggregate agg acc) [] =
      referencedColumns (aggr.map AggregateExpr.expr) := by
    rw [referencedColumns, List.foldl_map]
    rfl
  rw [hfold, orderedDifference, List.mem_filter, decide_eq_true_eq, mem_orderedExtend,
    mem_orderedExtend, mem_referencedColumns, mem_referencedColumns]
  tauto

variable {select : SqlSelect} {tables : SqlPlanner.Tables} {table df : DataFrame} {schema : Schema}

namespace PlannedClauses

variable {c : PlannedClauses select}

omit [Readers] in
/-- Every expression of the statement finds its columns where the statement does. -/
theorem finds_of_mem (hnames : ∀ name ∈ c.columns, name ∈ schema.names) {e : LogicalExpr}
    (he : e ∈ c.items ++ c.filter.toList ++ c.groups) : e.Finds schema :=
  fun name hname => hnames name (List.mem_flatMap.mpr ⟨e, he, hname⟩)

omit [Readers] in
/-- So do the select items. -/
theorem finds_items (hnames : ∀ name ∈ c.columns, name ∈ schema.names) :
    ∀ e ∈ c.items, e.Finds schema :=
  fun _ he => finds_of_mem hnames (List.mem_append_left _ (List.mem_append_left _ he))

omit [Readers] in
/-- So does the filter. -/
theorem finds_filter (hnames : ∀ name ∈ c.columns, name ∈ schema.names) :
    ∀ e ∈ c.filter, e.Finds schema :=
  fun _ he => finds_of_mem hnames
    (List.mem_append_left _ (List.mem_append_right _ (Option.mem_toList.mpr he)))

omit [Readers] in
/-- So do the group expressions. -/
theorem finds_groups (hnames : ∀ name ∈ c.columns, name ∈ schema.names) :
    ∀ e ∈ c.groups, e.Finds schema :=
  fun _ he => finds_of_mem hnames (List.mem_append_right _ he)

omit [Readers] [UnicodeTables] [DateParser] in
/-- An aggregate has the columns and the indices of its select item. -/
theorem columns_aggregateOf {e : LogicalExpr} {a : AggregateExpr} (h : aggregateOf e = some a) :
    a.expr.columns = e.columns ∧ a.expr.indices = e.indices := by
  unfold aggregateOf at h
  split at h <;> cases h <;> exact ⟨rfl, rfl⟩

omit [Readers] in
/-- The arguments of the aggregates find their columns, and have no index. -/
theorem finds_arguments (hnames : ∀ name ∈ c.columns, name ∈ schema.names) :
    ∀ e ∈ c.arguments, e.Finds schema ∧ e.indices = [] := by
  intro e he
  obtain ⟨a, ha, rfl⟩ := List.mem_map.mp he
  obtain ⟨item, hitem, hof⟩ := List.mem_filterMap.mp ha
  obtain ⟨hcolumns, hindices⟩ := columns_aggregateOf hof
  refine ⟨fun name hname => finds_items hnames item hitem name (hcolumns ▸ hname), ?_⟩
  exact hindices.trans (c.indices_items item hitem)

/-- Over an input in which the clauses find their columns the aggregate has a schema. -/
theorem aggregate_schema_succeeds {input : LogicalPlan} {s : Schema} (hs : input.schema = .ok s)
    (hgroups : ∀ e ∈ c.groups, e.Finds s) (harguments : ∀ e ∈ c.arguments, e.Finds s)
    (hindices : ∀ e ∈ c.arguments, e.indices = []) :
    Outcome.Succeeds
      (LogicalPlan.aggregate input c.groups (c.items.filterMap aggregateOf)).schema := by
  obtain ⟨fields, hfields⟩ : Outcome.Succeeds (c.groups.mapM fun e => e.toField (.ok s)) :=
    Outcome.mapM_succeeds_iff.mpr fun e he =>
      (hgroups e he).toField_succeeds (c.indices_groups e he)
  obtain ⟨aggregates, haggregates⟩ : Outcome.Succeeds
      ((c.items.filterMap aggregateOf).mapM fun a => a.toField (.ok s)) := by
    refine Outcome.mapM_succeeds_iff.mpr fun a ha => ?_
    have hmem : a.expr ∈ c.arguments := List.mem_map_of_mem ha
    have hfinds : a.expr.Finds s := harguments a.expr hmem
    have hnone : a.expr.indices = [] := hindices a.expr hmem
    exact LogicalExpr.Finds.toField_succeeds (e := .aggregateExpr a.fn a.expr) hfinds hnone
  exact ⟨_, by rw [LogicalPlan.schema, hs, hfields, Outcome.ok_bind, haggregates]; rfl⟩

omit [Readers] in
/-- Without a `WHERE` clause there is no filter. -/
theorem filter_of_none (hselection : select.selection = none) : c.filter = none := by
  have hmap := c.filter_eq
  rw [hselection] at hmap
  exact (Except.ok.inj hmap).symm

omit [Readers] in
/-- The filter is the `WHERE` clause, planned. -/
theorem filter_of_some {selection : SqlExpr} (hselection : select.selection = some selection) :
    ∃ filter, SqlPlanner.createLogicalExpr selection = .ok filter ∧ c.filter = some filter := by
  have hmap := c.filter_eq
  rw [hselection] at hmap
  obtain ⟨filter, hplanned, heq⟩ := Outcome.map_eq_ok_iff.mp hmap
  exact ⟨filter, hplanned, heq.symm⟩

/-- All columns that are collected from the filter are columns of the table. -/
theorem mem_inSelection (hschema : table.schema = .ok schema)
    (hnames : ∀ name ∈ c.columns, name ∈ schema.names) {inSelection : List String}
    (h : SqlPlanner.columnsReferencedBySelection select table = .ok inSelection)
    {selection : SqlExpr} (hselection : select.selection = some selection) {filter : LogicalExpr}
    (hplanned : SqlPlanner.createLogicalExpr selection = .ok filter) (hfilter : c.filter = some filter)
    {name : String} : name ∈ inSelection ↔ name ∈ filter.plainColumns := by
  unfold SqlPlanner.columnsReferencedBySelection at h
  rw [hselection] at h
  simp only [hplanned, hschema, Outcome.ok_bind] at h
  obtain rfl := Except.ok.inj h
  rw [List.mem_filter, mem_visit, decide_eq_true_eq]
  have hsub : name ∈ filter.plainColumns → name ∈ schema.names := fun h =>
    finds_filter hnames filter hfilter name (filter.plainColumns_subset h)
  simpa using hsub

/-- A non-aggregate statement resolves if its filter finds its columns in the projection. -/
theorem findsColumns_nonAggregate_iff (hschema : table.schema = .ok schema)
    (hnames : ∀ name ∈ c.columns, name ∈ schema.names) {inSelection : List String}
    (hinSelection : SqlPlanner.columnsReferencedBySelection select table = .ok inSelection)
    (hall : (c.items.all fun e => !isAggregateExpr e) = true) (hgroup : select.groupBy = [])
    (h : SqlPlanner.planNonAggregateQuery select table c.items inSelection
      (referencedColumns c.items) = .ok df) :
    df.logicalPlan.FindsColumns ↔ table.logicalPlan.FindsColumns ∧ c.KeepsColumns schema := by
  have houtputs : c.outputs = c.items :=
    List.filter_eq_self.mpr (List.all_eq_true.mp hall)
  have hgroups : c.groups = [] := by simpa [hgroup] using c.groups_eq
  have harguments : c.arguments = [] := by
    refine List.map_eq_nil_iff.mpr (List.filterMap_eq_nil_iff.mpr fun e he => ?_)
    have hplain := List.all_eq_true.mp hall e he
    unfold aggregateOf
    split
    · cases hplain
    · cases hplain
    · rfl
  have hfinds := finds_items hnames
  cases hselection : select.selection with
  | none =>
    have hfilter : c.filter = none := filter_of_none hselection
    unfold SqlPlanner.planNonAggregateQuery at h
    rw [hselection] at h
    obtain rfl := Except.ok.inj h
    rw [limited_findsColumns_iff, project_findsColumns_iff hschema hfinds]
    exact (and_iff_left fun filter hmem => by cases hfilter ▸ hmem).symm
  | some selection =>
    -- The columns added are those of WHERE that the projection does not refer to.
    obtain ⟨filter, hplanned, hfilter⟩ := c.filter_of_some hselection
    have hmissing : ∀ name, name ∈ orderedDifference inSelection (referencedColumns c.items) ↔
        name ∈ filter.plainColumns ∧ name ∉ c.items.flatMap LogicalExpr.plainColumns := by
      intro name
      rw [orderedDifference, List.mem_filter, decide_eq_true_eq,
        mem_inSelection hschema hnames hinSelection hselection hplanned hfilter,
        mem_referencedColumns]
    have hsub : ∀ name ∈ orderedDifference inSelection (referencedColumns c.items),
        name ∈ schema.names := fun name hname => finds_filter hnames filter hfilter name
      (filter.plainColumns_subset ((hmissing name).mp hname).1)
    obtain ⟨s, hs, hmem⟩ := project_names hschema
      (fun e he => ⟨hfinds e he, c.indices_items e he⟩) hsub
    rw [planNonAggregateQuery_findsColumns_iff hselection hplanned h]
    refine and_congr (project_findsColumns_iff hschema (finds_added hfinds hsub)) ?_
    rw [offers_iff hs]
    simp only [KeepsColumns, hfilter, hgroups, harguments, houtputs, Option.mem_def,
      Option.some.injEq, forall_eq', List.append_nil, List.flatMap_singleton, List.mem_singleton,
      forall_eq, LogicalExpr.Finds, hmem, hmissing, Projected]

/-- The select items of an aggregate statement are columns of the aggregate, by their indices. -/
theorem aggregate_findsColumns_iff {input : LogicalPlan} {projection : List LogicalExpr}
    (hindices : ∀ e ∈ c.arguments, e.indices = []) (hprojection : ∀ e ∈ projection, e.columns = []) :
    ((LogicalPlan.aggregate input c.groups (c.items.filterMap aggregateOf)).projection
      projection).FindsColumns ↔
        input.FindsColumns ∧ input.Offers (c.groups ++ c.arguments) := by
  refine and_iff_left_of_imp fun h => ?_
  obtain ⟨s, hs, hfinds⟩ := h.2
  obtain ⟨hgroups, harguments⟩ := List.forall_mem_append.mp hfinds
  obtain ⟨schema, hschema⟩ := aggregate_schema_succeeds hs hgroups harguments hindices
  refine ⟨schema, hschema, fun e he name hname => ?_⟩
  rw [hprojection e he] at hname
  cases hname

/-- An aggregate statement resolves if the filter, the group expressions and the aggregates find
their columns in the projection. -/
theorem findsColumns_aggregate_iff (hschema : table.schema = .ok schema)
    (hnames : ∀ name ∈ c.columns, name ∈ schema.names) {inSelection : List String}
    (hinSelection : SqlPlanner.columnsReferencedBySelection select table = .ok inSelection)
    (hhaving : select.having = none)
    (h : SqlPlanner.planAggregateSelect select table c.items inSelection = .ok df) :
    df.logicalPlan.FindsColumns ↔ table.logicalPlan.FindsColumns ∧ c.KeepsColumns schema := by
  obtain ⟨projection, aggr, planned, filtered, hsplit, hquery, hfiltered, rfl⟩ :=
    SqlPlanner.planAggregateSelect_eq_ok_iff.mp h
  rw [hhaving] at hfiltered
  obtain rfl := Except.ok.inj hfiltered
  obtain ⟨rfl, hcolumns⟩ := splitProjection_ok hsplit
  -- The last projection is over output columns by position and refers to no name.
  have hprojection : ∀ e ∈ projection, e.columns = [] := by
    intro e he
    obtain ⟨p, -, hp⟩ := Outcome.forall₂_mem_left hcolumns he
    obtain rfl | ⟨name, rfl⟩ := hp <;> rfl
  have hindices : ∀ e ∈ c.arguments, e.indices = [] := fun e he =>
    (finds_arguments hnames e he).2
  have harguments : ∀ e ∈ c.arguments, e.Finds schema := fun e he =>
    (finds_arguments hnames e he).1
  rw [limited_findsColumns_iff]
  cases hselection : select.selection with
  | none =>
    obtain ⟨input, groups, hgroups, rfl, hinput⟩ := SqlPlanner.planAggregateQuery_ok hquery
    rw [hselection] at hinput
    obtain rfl : input = table := hinput
    obtain rfl := Except.ok.inj (c.groups_eq.symm.trans hgroups)
    refine (aggregate_findsColumns_iff hindices hprojection).trans (and_congr_right fun _ => ?_)
    refine iff_of_true ?_ fun filter hmem => by cases (filter_of_none hselection) ▸ hmem
    exact ⟨schema, hschema, List.forall_mem_append.mpr ⟨finds_groups hnames, harguments⟩⟩
  | some selection =>
    obtain ⟨filter, hplanned, hfilter⟩ := c.filter_of_some hselection
    obtain ⟨missing, groups, hgroups, rfl, hmissing⟩ :=
      planAggregateQuery_eq_ok hselection hplanned hquery
    obtain rfl := Except.ok.inj (c.groups_eq.symm.trans hgroups)
    -- The columns added are those of WHERE and of the aggregates that no output refers to.
    have hmissing : ∀ name, name ∈ missing ↔
        name ∈ (filter :: c.arguments).flatMap LogicalExpr.plainColumns ∧
          name ∉ c.outputs.flatMap LogicalExpr.plainColumns := by
      intro name
      rw [hmissing, mem_inSelection hschema hnames hinSelection hselection hplanned hfilter,
        List.flatMap_cons, List.mem_append]
      rfl
    have houtputs : ∀ e ∈ c.outputs, e.Finds schema := fun e he =>
      finds_items hnames e (List.mem_of_mem_filter he)
    have hsub : ∀ name ∈ missing, name ∈ schema.names := by
      intro name hname
      rcases List.mem_append.mp ((hmissing name).mp hname).1 with hname | hname
      · exact finds_filter hnames filter hfilter name (filter.plainColumns_subset hname)
      · obtain ⟨e, he, hname⟩ := List.mem_flatMap.mp hname
        exact harguments e he name (e.plainColumns_subset hname)
    obtain ⟨s, hs, hmem⟩ := project_names hschema
      (fun e he => ⟨houtputs e he, c.indices_items e (List.mem_of_mem_filter he)⟩) hsub
    refine (aggregate_findsColumns_iff hindices hprojection).trans ?_
    refine (and_assoc.trans (and_congr
      (project_findsColumns_iff hschema (finds_added houtputs hsub)) ?_))
    have hfiltered : (LogicalPlan.selection
        (table.project (c.outputs ++ missing.map LogicalExpr.column)).logicalPlan filter).schema =
          .ok s := hs
    refine (and_congr (offers_iff hs) (offers_iff hfiltered)).trans ?_
    simp only [KeepsColumns, hfilter, Option.mem_def, Option.some.injEq, forall_eq',
      List.mem_singleton, forall_eq, LogicalExpr.Finds, hmem, hmissing, Projected,
      List.cons_append, List.flatMap_cons, List.forall_mem_append, List.forall_mem_flatMap]

end PlannedClauses

/-- A data frame whose plan resolves: every node finds its columns in its input, and neither the
schema nor the lowering panics with an unknown column. -/
structure DataFrame.Resolves (df : DataFrame) : Prop where
  columns : df.logicalPlan.FindsColumns
  schema : Outcome.Avoids Panic.IsUnknownColumn df.schema
  lower : Outcome.Avoids Panic.IsUnknownColumn (createPhysicalPlan df.logicalPlan)

omit [UnicodeTables] [DateParser] in
/-- A data frame resolves if its plan finds its columns. -/
theorem DataFrame.resolves_iff : df.Resolves ↔ df.logicalPlan.FindsColumns :=
  ⟨fun h => h.columns, fun h => ⟨h, h.schema_avoids, h.lower_avoids⟩⟩

/-- A statement over the columns of a table is planned as a data frame that resolves if and only if
the table does and the projection in front of the filter keeps the columns that the filter, the
group expressions and the aggregates refer to. -/
theorem createDataFrame_resolves_iff (c : PlannedClauses select)
    (htable : tables select.tableName = some table) (hschema : table.schema = .ok schema)
    (hnames : ∀ name ∈ c.columns, name ∈ schema.names) (hhaving : select.having = none)
    (hdf : SqlPlanner.createDataFrame select tables = .ok df) :
    df.Resolves ↔ table.logicalPlan.FindsColumns ∧ c.KeepsColumns schema := by
  obtain ⟨table', items, inSelection, htable', hitems, hinSelection, hbranch⟩ :=
    SqlPlanner.createDataFrame_eq_ok_iff.mp hdf
  obtain rfl := Option.some.inj (htable.symm.trans htable')
  obtain rfl := Except.ok.inj (c.items_eq.symm.trans hitems)
  rw [DataFrame.resolves_iff]
  obtain ⟨hall, hgroup, hplan⟩ | ⟨-, hplan⟩ := hbranch
  · exact PlannedClauses.findsColumns_nonAggregate_iff hschema hnames hinSelection hall hgroup hplan
  · exact PlannedClauses.findsColumns_aggregate_iff hschema hnames hinSelection hhaving hplan

end

end

section

attribute [local instance] integerFloats asciiTables

local instance noResolvedFiles : Readers := parquetDisk fun _ => none

local instance noResolvedDates : DateParser := ⟨fun _ => none, DateParser.none_range⟩

/-- A table with two columns. -/
def resolvedTable : DataFrame :=
  ⟨.scan ⟨"t", .inMemory ⟨⟨[⟨"a", .int32⟩, ⟨"b", .int32⟩]⟩, [],
    fun _ h => absurd h List.not_mem_nil⟩, [], ⟨[⟨"a", .int32⟩, ⟨"b", .int32⟩]⟩, rfl⟩⟩

/-- `SELECT item FROM t WHERE name = 1`. -/
def selectWhere (item : SqlExpr) (name : String) : SqlSelect :=
  ⟨[item], some (.binaryExpr (.identifier name) "=" (.long 1)), [], [], none, none, "t"⟩

/-- The clauses of `SELECT a FROM t WHERE b = 1`. -/
def columnClauses : PlannedClauses (selectWhere (.identifier "a") "b") where
  items := [.column "a"]
  filter := some (.binary .eq (.column "b") (.literalLong 1))
  groups := []
  items_eq := rfl
  filter_eq := rfl
  groups_eq := rfl

/-- The clauses of `SELECT a + 1 FROM t WHERE a = 1`. -/
def sumClauses :
    PlannedClauses (selectWhere (.binaryExpr (.identifier "a") "+" (.long 1)) "a") where
  items := [.binary .add (.column "a") (.literalLong 1)]
  filter := some (.binary .eq (.column "a") (.literalLong 1))
  groups := []
  items_eq := rfl
  filter_eq := rfl
  groups_eq := rfl

/-- The filter finds `b`, which is added to the projection, but not `a` among the sums. -/
theorem createDataFrame_resolves_iff_two :
    (∀ df, SqlPlanner.createDataFrame (selectWhere (.identifier "a") "b")
      (fun _ => some resolvedTable) = .ok df → df.Resolves) ∧
    ∀ df, SqlPlanner.createDataFrame (selectWhere (.binaryExpr (.identifier "a") "+" (.long 1)) "a")
      (fun _ => some resolvedTable) = .ok df → ¬ df.Resolves := by
  have htable : (fun _ : String => some resolvedTable) "t" = some resolvedTable := rfl
  refine ⟨fun df hdf => ?_, fun df hdf => ?_⟩
  · have htableFinds : resolvedTable.logicalPlan.FindsColumns := trivial
    refine (createDataFrame_resolves_iff columnClauses htable rfl (by decide) rfl hdf).mpr
      ⟨htableFinds, ?_⟩
    rintro filter ⟨⟩ name hname
    obtain rfl : name = "b" := List.mem_singleton.mp hname
    exact .inr ⟨by decide, by decide⟩
  · intro h
    have hkeeps :=
      ((createDataFrame_resolves_iff sumClauses htable rfl (by decide) rfl hdf).mp h).2
    obtain ⟨e, he, t, ht⟩ | ⟨-, hplain⟩ := hkeeps _ rfl "a" (by decide)
    · obtain rfl : e = .binary .add (.column "a") (.literalLong 1) := List.mem_singleton.mp he
      exact absurd (Field.mk.inj (Except.ok.inj ht)).1 (by decide)
    · exact hplain (by decide)

end

end RQuery
