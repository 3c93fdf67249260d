import RQuery.Optimizer.Preservation

/-!
# Push-down and the output schema

The rule trims and sorts every scan, also one whose columns reach the root. `Keeps` says which
trimmed scans do not show: those that reach the root must be left with exactly their own columns,
and those below a projection or an aggregate must still give its column names the same fields. It is
enough for the output schema to be preserved, and necessary in plans without joins that use column
indices only where the columns are a projection's or an aggregate's (`optimize_schema`).
-/

namespace RQuery

section

variable [FloatModel]

/-- The columns of a source that were requested, sorted. -/
def requestedColumns (schema : Schema) (columnNames : Finset String) : List String :=
  (schema.names.filter fun name => name ∈ columnNames).insertionSort (· ≤ ·)

/-- The names that a list of expressions refers to, with names that were requested before. -/
def requestReferences (schema : Schema) (names : Finset String) (exprs : List LogicalExpr) :
    Finset String :=
  insertNames names (exprs.flatMap fun e => e.references schema)

/-- The names that a join requests of its sides. -/
def requestJoin (left right : Schema) (on : List (String × String)) (names : Finset String) :
    Finset String :=
  insertNames (if names = ∅ then insertNames (insertNames names left.names) right.names else names)
    (on.flatMap fun k => [k.1, k.2])

/-- The arguments and group keys of an aggregate. -/
def aggregateReads (groupExpr : List LogicalExpr) (aggregateExpr : List AggregateExpr) :
    List LogicalExpr :=
  groupExpr ++ aggregateExpr.map aggregateInner

variable [Readers]

namespace LogicalPlan

/-- The schema of a plan that has one. -/
def columns (P : LogicalPlan) : Schema := P.schema.toOption.getD ⟨[]⟩

/-- The names that are requested once a plan's operators have been passed. -/
def collect : LogicalPlan → Finset String → Finset String
  | projection input expr, names => input.collect (requestReferences input.columns names expr)
  | selection input expr, names => input.collect (requestReferences input.columns names [expr])
  | aggregate input groupExpr aggregateExpr, names =>
    input.collect (requestReferences input.columns names (aggregateReads groupExpr aggregateExpr))
  | limit input _, names => input.collect names
  | join left right _ on, names =>
    right.collect (left.collect (requestJoin left.columns right.columns on names))
  | scan _, names => names

/-- The scan reads the columns that are requested of its source, in the order of their names, or it
reads all columns and none of them is requested. -/
def KeepsScan (s : Scan) (names : Finset String) : Prop :=
  ∃ schema, s.dataSource.schema = .ok schema ∧ (requestedColumns schema names).Nodup ∧
    if requestedColumns schema names = [] then s.schema = schema
    else s.schema.names = requestedColumns schema names

/-- The columns that are requested of the scan's source are unique in it, and if the source has a
column of one of the names `used` then so does the scan. -/
def KeepsFields (s : Scan) (names used : Finset String) : Prop :=
  ∃ schema, s.dataSource.schema = .ok schema ∧ (requestedColumns schema names).Nodup ∧
    ∀ name ∈ used, name ∈ schema.names → name ∈ s.schema.names

/-- When `names` are requested of a plan, trimming its scans leaves its columns as they are, or, with
names `used`, the fields of these names. -/
def Keeps : LogicalPlan → Finset String → Option (Finset String) → Prop
  | scan s, names, none => KeepsScan s names
  | scan s, names, some used => KeepsFields s names used
  | selection input expr, names, used =>
    input.Keeps (requestReferences input.columns names [expr]) used
  | limit input _, names, used => input.Keeps names used
  | join left right _ on, names, used =>
    left.Keeps (requestJoin left.columns right.columns on names) used ∧
      right.Keeps (left.collect (requestJoin left.columns right.columns on names)) used
  | projection input expr, names, _ =>
    input.Keeps (requestReferences input.columns names expr) none ∨
      (∀ e ∈ expr, e.indices = []) ∧
        input.Keeps (requestReferences input.columns names expr)
          (some (expr.flatMap LogicalExpr.columns).toFinset)
  | aggregate input groupExpr aggregateExpr, names, _ =>
    let reads := aggregateReads groupExpr aggregateExpr
    input.Keeps (requestReferences input.columns names reads) none ∨
      (∀ e ∈ reads, e.indices = []) ∧
        input.Keeps (requestReferences input.columns names reads)
          (some (reads.flatMap LogicalExpr.columns).toFinset)

/-- The optimizer succeeds and preserves the schema. -/
def SchemaPreserved (P : LogicalPlan) : Prop :=
  ∃ P', optimize P = .ok P' ∧ P'.schema = P.schema

/-- No operator is a join, and column indices are only used above a projection or an aggregate. -/
def SingleSource : LogicalPlan → Prop
  | scan _ => True
  | projection input expr => input.SingleSource ∧ ∀ e ∈ expr, e.indices = [] ∨ input.Covered
  | selection input _ => input.SingleSource
  | aggregate input groupExpr aggregateExpr =>
    input.SingleSource ∧
      ∀ e ∈ aggregateReads groupExpr aggregateExpr, e.indices = [] ∨ input.Covered
  | join _ _ _ _ => False
  | limit input _ => input.SingleSource

/-- What is left of a plan's schema: all of it, or the fields of the names used. -/
def Leaves (P P' : LogicalPlan) : Option (Finset String) → Prop
  | none => P'.schema = P.schema
  | some used => ∃ s s', P.schema = .ok s ∧ P'.schema = .ok s' ∧ SchemasAgree used s s'

end LogicalPlan

open LogicalPlan

/-- The columns of a plan are those of its schema. -/
theorem columns_eq {P : LogicalPlan} {s : Schema} (h : P.schema = .ok s) : P.columns = s := by
  rw [LogicalPlan.columns, h]
  rfl

/-- An unchanged schema is left as it is, whatever of it is used. -/
theorem LogicalPlan.Leaves.of_eq {P P' : LogicalPlan} (h : P'.schema = P.schema)
    (hP : Outcome.Succeeds P.schema) (used : Option (Finset String)) : Leaves P P' used := by
  obtain ⟨s, hs⟩ := hP
  cases used with
  | none => exact h
  | some used => exact ⟨s, s, hs, h.trans hs, fun _ _ => rfl⟩

/-! ## Trimmed scans -/

omit [FloatModel] [Readers] in
/-- A column is requested if the source has it and its name is asked for. -/
theorem mem_requestedColumns {schema : Schema} {names : Finset String} {name : String} :
    name ∈ requestedColumns schema names ↔ name ∈ schema.names ∧ name ∈ names := by
  rw [requestedColumns, List.mem_insertionSort, List.mem_filter, decide_eq_true_eq]

omit [FloatModel] [Readers] in
/-- A requested name is requested as often as the source has it. -/
theorem count_requestedColumns {schema : Schema} {names : Finset String} {name : String}
    (h : name ∈ names) :
    (requestedColumns schema names).count name = schema.names.count name := by
  rw [requestedColumns, (List.perm_insertionSort _ _).count_eq, List.count_filter (by simpa using h)]

omit [FloatModel] [Readers] in
/-- A column can be selected by its name exactly if the name is unique. -/
theorem selectField_succeeds_iff {schema : Schema} {name : String} :
    Outcome.Succeeds (schema.selectField name) ↔ schema.names.count name = 1 := by
  have hcount : schema.names.count name = (schema.fields.filter fun f => f.name = name).length := by
    rw [Schema.names, List.count, List.countP_map, List.countP_eq_length_filter]
    congr 1
  rw [hcount, List.length_eq_one_iff]
  exact exists_congr fun f => Schema.selectField_eq_ok_iff

omit [FloatModel] [Readers] in
/-- The requested columns can be selected exactly if they are unique. -/
theorem select_requestedColumns {schema : Schema} {names : Finset String} :
    Outcome.Succeeds (schema.select (requestedColumns schema names)) ↔
      (requestedColumns schema names).Nodup := by
  have hselect : Outcome.Succeeds (schema.select (requestedColumns schema names)) ↔
      Outcome.Succeeds ((requestedColumns schema names).mapM schema.selectField) := by
    unfold Schema.select
    rw [Outcome.succeeds_bind_iff]
    simp [Outcome.Succeeds]
  rw [hselect, Outcome.mapM_succeeds_iff, List.nodup_iff_count_eq_one]
  refine forall₂_congr fun name hname => ?_
  obtain ⟨-, hmem⟩ := mem_requestedColumns.mp hname
  rw [selectField_succeeds_iff, count_requestedColumns hmem]

omit [FloatModel] [Readers] in
/-- A selected name stands for the field that it stands for in the source. -/
theorem field?_of_select {schema t : Schema} {selected : List String} {name : String}
    (h : schema.select selected = .ok t) (hname : name ∈ selected) :
    t.field? name = schema.field? name := by
  obtain ⟨fields, hfields, rfl⟩ := Outcome.bind_pure_eq_ok_iff.mp h
  have hall := Outcome.mapM_eq_ok_iff.mp hfields
  clear h hfields
  induction hall with
  | nil => cases hname
  | @cons selected f rest fields hf _ ih =>
    obtain ⟨hfname, -⟩ := Schema.selectField_name hf
    by_cases heq : selected = name
    · subst heq
      rw [Schema.field?, Schema.field?, List.find?_cons_of_pos (by simpa using hfname),
        ← List.head?_filter, Schema.selectField_eq_ok_iff.mp hf]
      rfl
    · have hne : ¬ decide (f.name = name) = true := by
        rw [hfname]
        simpa using heq
      show (f :: fields).find? (fun f => decide (f.name = name)) = _
      rw [List.find?_cons_of_neg (by simpa using hne)]
      exact ih ((List.mem_cons.mp hname).resolve_left fun h => heq h.symm)

omit [FloatModel] [Readers] in
/-- Selecting all columns of a schema with distinct names gives the schema. -/
theorem DistinctNames.select_names {schema : Schema} (h : schema.DistinctNames) :
    schema.select schema.names = .ok schema := by
  have hfields : schema.names.mapM schema.selectField = .ok schema.fields := by
    rw [Schema.names, Outcome.mapM_eq_ok_iff, List.forall₂_map_left_iff, List.forall₂_same]
    intro f hf
    obtain ⟨i, hi, rfl⟩ := List.getElem_of_mem hf
    exact h.selectField (List.getElem?_eq_getElem hi)
  rw [Schema.select, hfields]
  rfl

omit [FloatModel] [Readers] in
/-- A selected column is one of the schema. -/
theorem select_mem {schema t : Schema} {selected : List String} {name : String}
    (h : schema.select selected = .ok t) (hname : name ∈ t.names) : name ∈ schema.names := by
  rw [Schema.select_names h] at hname
  obtain ⟨fields, hfields, -⟩ := Outcome.bind_pure_eq_ok_iff.mp h
  obtain ⟨f, -, hf⟩ := Outcome.mapM_mem_left hfields hname
  obtain ⟨rfl, hmem⟩ := Schema.selectField_name hf
  exact List.mem_map_of_mem hmem

/-- A scan of all columns, or of columns that were selected. -/
theorem scan_schema (s : Scan) {schema : Schema} (h : s.dataSource.schema = .ok schema) :
    s.schema = schema ∨ schema.select s.projection = .ok s.schema := by
  have hderived := s.derived
  rw [Scan.deriveSchema, h, Outcome.ok_bind] at hderived
  split at hderived
  · exact .inl (Except.ok.inj hderived).symm
  · exact .inr hderived

/-- What the rule makes of a scan. -/
theorem pushDown_scan {s : Scan} {names names' : Finset String} {P' : LogicalPlan} :
    pushDown (.scan s) names = .ok (P', names') ↔
      names' = names ∧ ∃ schema s', s.dataSource.schema = .ok schema ∧ P' = .scan s' ∧
        s'.path = s.path ∧ s'.dataSource = s.dataSource ∧
        s'.projection = requestedColumns schema names := by
  constructor
  · intro h
    obtain ⟨schema, hschema, h⟩ := Outcome.bind_eq_ok_iff.mp h
    obtain ⟨s', hs', h⟩ := Outcome.bind_eq_ok_iff.mp h
    cases h
    exact ⟨rfl, schema, s', hschema, rfl, Scan.new_eq_ok_iff.mp hs'⟩
  · rintro ⟨rfl, schema, s', hschema, rfl, hs'⟩
    rw [pushDown, hschema, Outcome.ok_bind]
    show Scan.new s.path s.dataSource (requestedColumns schema names') >>= _ = _
    rw [Scan.new_eq_ok_iff.mpr hs']
    rfl

/-- The schema of a trimmed scan. -/
theorem trimmed_schema {s s' : Scan} {schema : Schema} {names : Finset String}
    (hschema : s.dataSource.schema = .ok schema) (hds : s'.dataSource = s.dataSource)
    (hproj : s'.projection = requestedColumns schema names) :
    (requestedColumns schema names).Nodup ∧
      if requestedColumns schema names = [] then s'.schema = schema
      else schema.select (requestedColumns schema names) = .ok s'.schema := by
  have hderived := s'.derived
  rw [Scan.deriveSchema, hds, hschema, Outcome.ok_bind, hproj] at hderived
  by_cases hnil : requestedColumns schema names = []
  · rw [hnil] at hderived ⊢
    exact ⟨List.nodup_nil, (Except.ok.inj hderived).symm⟩
  · rw [if_neg (by simpa using hnil)] at hderived
    rw [if_neg hnil]
    exact ⟨select_requestedColumns.mp ⟨_, hderived⟩, hderived⟩

/-- A scan whose requested columns are unique can be trimmed. -/
theorem exists_trimmed {s : Scan} {schema : Schema} {names : Finset String}
    (hschema : s.dataSource.schema = .ok schema) (h : (requestedColumns schema names).Nodup) :
    ∃ s' : Scan, s'.path = s.path ∧ s'.dataSource = s.dataSource ∧
      s'.projection = requestedColumns schema names := by
  obtain ⟨t, ht⟩ : Outcome.Succeeds
      (Scan.deriveSchema s.dataSource (requestedColumns schema names)) := by
    rw [Scan.deriveSchema, hschema, Outcome.ok_bind]
    split
    · exact ⟨_, rfl⟩
    · exact select_requestedColumns.mpr h
  exact ⟨⟨s.path, s.dataSource, _, t, ht⟩, rfl, rfl, rfl⟩

/-- A trimmed scan has its columns left exactly if the requested columns are its own. -/
theorem keepsScan_iff {s s' : Scan} {schema : Schema} {names : Finset String}
    (hschema : s.dataSource.schema = .ok schema) (hds : s'.dataSource = s.dataSource)
    (hproj : s'.projection = requestedColumns schema names) :
    s'.schema = s.schema ↔ KeepsScan s names := by
  obtain ⟨hnodup, htrim⟩ := trimmed_schema hschema hds hproj
  by_cases hnil : requestedColumns schema names = []
  · rw [if_pos hnil] at htrim
    constructor
    · intro h
      exact ⟨schema, hschema, hnodup, by rw [if_pos hnil, ← h, htrim]⟩
    · rintro ⟨schema', hschema', -, h⟩
      obtain rfl : schema = schema' := Except.ok.inj (hschema.symm.trans hschema')
      rw [if_pos hnil] at h
      rw [htrim, h]
  · rw [if_neg hnil] at htrim
    constructor
    · intro h
      exact ⟨schema, hschema, hnodup, by rw [if_neg hnil, ← h, Schema.select_names htrim]⟩
    · rintro ⟨schema', hschema', -, h⟩
      obtain rfl : schema = schema' := Except.ok.inj (hschema.symm.trans hschema')
      rw [if_neg hnil] at h
      -- The condition compares names; with one field for each name they decide the fields.
      refine Except.ok.inj (ε := Panic) ?_
      rcases scan_schema s hschema with hall | hselect
      · have hnames : s.schema.DistinctNames := by
          rw [Schema.DistinctNames, h]
          exact hnodup
        rw [← htrim, ← h, hall, DistinctNames.select_names (hall ▸ hnames)]
      · rw [← htrim, ← hselect, ← h, Schema.select_names hselect]

/-- A trimmed scan leaves the fields of the names that are used and were requested. -/
theorem KeepsFields.agree {s s' : Scan} {schema : Schema} {names used : Finset String}
    (h : KeepsFields s names used) (hused : used ⊆ names)
    (hschema : s.dataSource.schema = .ok schema) (hds : s'.dataSource = s.dataSource)
    (hproj : s'.projection = requestedColumns schema names) :
    SchemasAgree used s.schema s'.schema := by
  obtain ⟨schema', hschema', -, hgain⟩ := h
  obtain rfl : schema = schema' := Except.ok.inj (hschema.symm.trans hschema')
  obtain ⟨-, htrim⟩ := trimmed_schema hschema hds hproj
  intro name hname
  by_cases hmem : name ∈ schema.names
  · have hrequested := mem_requestedColumns.mpr ⟨hmem, hused hname⟩
    rw [if_neg (List.ne_nil_of_mem hrequested)] at htrim
    rw [field?_of_select htrim hrequested]
    rcases scan_schema s hschema with hall | hselect
    · rw [hall]
    · exact field?_of_select hselect (Schema.select_names hselect ▸ hgain name hname hmem)
  · -- The source has no such column, and so neither scan has one.
    have hs : name ∉ s.schema.names := by
      rcases scan_schema s hschema with hall | hselect
      · exact hall ▸ hmem
      · exact fun hin => hmem (select_mem hselect hin)
    have hs' : name ∉ s'.schema.names := by
      split at htrim
      · exact htrim ▸ hmem
      · exact fun hin => hmem (select_mem htrim hin)
    rw [field?_eq_none hs, field?_eq_none hs']

/-! ## Plans -/

/-- The optimizer extracts the columns that an expression refers to. -/
theorem extractColumns_columns {input : LogicalPlan} {e : LogicalExpr} (hinput : input.Resolved)
    (he : input.Reads e) (names : Finset String) :
    extractColumns input.schema names e =
      .ok (requestReferences input.columns names [e]) := by
  obtain ⟨s, hs⟩ := resolved_schema hinput
  rw [columns_eq hs, hs, extractColumns_eq he.supported (he.resolves s hs), requestReferences,
    List.flatMap_singleton]

/-- The same for a list of expressions. -/
theorem extractColumnsList_columns {input : LogicalPlan} {exprs : List LogicalExpr}
    (hinput : input.Resolved) (h : ∀ e ∈ exprs, input.Reads e) (names : Finset String) :
    extractColumnsList input.schema names exprs =
      .ok (requestReferences input.columns names exprs) := by
  obtain ⟨s, hs⟩ := resolved_schema hinput
  rw [columns_eq hs, hs]
  exact extractColumnsList_eq (fun e he => ⟨(h e he).supported, (h e he).resolves s hs⟩) names

/-- A join requests its keys, and all columns where nothing has been requested. -/
theorem joinNames_columns {left right : LogicalPlan} (hl : left.Resolved) (hr : right.Resolved)
    (on : List (String × String)) (names : Finset String) :
    joinNames left.schema right.schema on names =
      .ok (requestJoin left.columns right.columns on names) := by
  obtain ⟨ls, hls⟩ := resolved_schema hl
  obtain ⟨rs, hrs⟩ := resolved_schema hr
  rw [columns_eq hls, columns_eq hrs, hls, hrs]
  unfold joinNames requestJoin
  by_cases hnames : names = ∅
  · rw [if_pos hnames, if_pos hnames]
    rfl
  · rw [if_neg hnames, if_neg hnames]
    rfl

omit [Readers] in
/-- An aggregate reads its group expressions and the arguments of its functions. -/
theorem forall_aggregateReads {groupExpr : List LogicalExpr} {aggregateExpr : List AggregateExpr}
    {p : LogicalExpr → Prop} :
    (∀ e ∈ aggregateReads groupExpr aggregateExpr, p e) ↔
      (∀ e ∈ groupExpr, p e) ∧ ∀ a ∈ aggregateExpr, p a.expr := by
  simp [aggregateReads, aggregateInner, or_imp, forall_and]

/-- What the rule makes of an operator with one input. -/
theorem pushDown_projection {input : LogicalPlan} {expr : List LogicalExpr}
    (hP : (LogicalPlan.projection input expr).Resolved) (names : Finset String) :
    pushDown (.projection input expr) names =
      (fun out => (.projection out.1 expr, out.2)) <$>
        pushDown input (requestReferences input.columns names expr) := by
  rw [pushDown, extractColumnsList_columns hP.1 hP.2]
  rfl

/-- A selection adds the columns of its condition, and stays. -/
theorem pushDown_selection {input : LogicalPlan} {expr : LogicalExpr}
    (hP : (LogicalPlan.selection input expr).Resolved) (names : Finset String) :
    pushDown (.selection input expr) names =
      (fun out => (.selection out.1 expr, out.2)) <$>
        pushDown input (requestReferences input.columns names [expr]) := by
  rw [pushDown, extractColumns_columns hP.1 hP.2]
  rfl

/-- An aggregate adds the columns that it reads, and stays. -/
theorem pushDown_aggregate {input : LogicalPlan} {groupExpr : List LogicalExpr}
    {aggregateExpr : List AggregateExpr}
    (hP : (LogicalPlan.aggregate input groupExpr aggregateExpr).Resolved) (names : Finset String) :
    pushDown (.aggregate input groupExpr aggregateExpr) names =
      (fun out => (.aggregate out.1 groupExpr aggregateExpr, out.2)) <$>
        pushDown input
          (requestReferences input.columns names (aggregateReads groupExpr aggregateExpr)) := by
  have hextract : (do
      let columnNames ← extractColumnsList input.schema names groupExpr
      extractColumnsList input.schema columnNames (aggregateExpr.map aggregateInner)) =
      .ok (requestReferences input.columns names (aggregateReads groupExpr aggregateExpr)) := by
    rw [← extractColumnsList_columns hP.1 (forall_aggregateReads.mpr hP.2)]
    exact List.foldlM_append.symm
  obtain ⟨groupNames, hgroup, hagg⟩ := Outcome.bind_eq_ok_iff.mp hextract
  rw [pushDown, hgroup, Outcome.ok_bind, hagg]
  rfl

/-- A limit adds nothing, and stays. -/
theorem pushDown_limit (input : LogicalPlan) (n : Int32) (names : Finset String) :
    pushDown (.limit input n) names =
      (fun out => (.limit out.1 n, out.2)) <$> pushDown input names := rfl

omit [Readers] in
/-- The names of the input that a projection or an aggregate uses are requested of it. -/
theorem columns_subset_references (schema : Schema) (names : Finset String)
    (exprs : List LogicalExpr) :
    (exprs.flatMap LogicalExpr.columns).toFinset ⊆ requestReferences schema names exprs := by
  intro name hname
  obtain ⟨e, he, hmem⟩ := List.mem_flatMap.mp (List.mem_toFinset.mp hname)
  exact mem_insertNames (List.mem_flatMap.mpr ⟨e, he, List.mem_append_left _ hmem⟩)

omit [FloatModel] [Readers] in
/-- A join keeps what has been requested. -/
theorem subset_requestJoin (left right : Schema) (on : List (String × String))
    (names : Finset String) : names ⊆ requestJoin left right on names := by
  unfold requestJoin
  by_cases hnames : names = ∅
  · rw [hnames]
    exact Finset.empty_subset _
  · rw [if_neg hnames]
    exact subset_insertNames _ _

/-- Every operator keeps what has been requested. -/
theorem subset_collect (P : LogicalPlan) (names : Finset String) : names ⊆ P.collect names := by
  induction P generalizing names with
  | scan s => exact subset_rfl
  | limit input n ih => exact ih names
  | projection input expr ih | selection input expr ih | aggregate input expr aggs ih =>
    exact (subset_insertNames _ _).trans (ih _)
  | join left right joinType on ihl ihr =>
    exact (subset_requestJoin _ _ on names).trans ((ihl _).trans (ihr _))

/-- A projection of the fields that are left has the same schema. -/
theorem LogicalPlan.Leaves.projection {input input' : LogicalPlan} {expr : List LogicalExpr}
    (h : Leaves input input' none ∨ (∀ e ∈ expr, e.indices = []) ∧
      Leaves input input' (some (expr.flatMap LogicalExpr.columns).toFinset)) :
    (LogicalPlan.projection input' expr).schema = (LogicalPlan.projection input expr).schema := by
  rcases h with h | ⟨hidx, s, s', hs, hs', hagree⟩
  · rw [LogicalPlan.schema, LogicalPlan.schema, show input'.schema = input.schema from h]
  · rw [LogicalPlan.schema, LogicalPlan.schema, hs, hs']
    congr 1
    refine Outcome.mapM_congr fun e he =>
      toField_agree (fun name hname => ?_) (hidx e he) hagree.symm
    exact List.mem_toFinset.mpr (List.mem_flatMap.mpr ⟨e, he, hname⟩)

/-- An aggregate of an input that is left as it is read has the same schema. -/
theorem LogicalPlan.Leaves.aggregate {input input' : LogicalPlan} {groupExpr : List LogicalExpr}
    {aggregateExpr : List AggregateExpr}
    (h : Leaves input input' none ∨
      (∀ e ∈ aggregateReads groupExpr aggregateExpr, e.indices = []) ∧
        Leaves input input' (some ((aggregateReads groupExpr aggregateExpr).flatMap
          LogicalExpr.columns).toFinset)) :
    (LogicalPlan.aggregate input' groupExpr aggregateExpr).schema =
      (LogicalPlan.aggregate input groupExpr aggregateExpr).schema := by
  rcases h with h | ⟨hidx, s, s', hs, hs', hagree⟩
  · rw [LogicalPlan.schema, LogicalPlan.schema, show input'.schema = input.schema from h]
  · have hfield : ∀ e ∈ aggregateReads groupExpr aggregateExpr,
        e.toField (.ok s') = e.toField (.ok s) := by
      refine fun e he => toField_agree (fun name hname => ?_) (hidx e he)
        hagree.symm
      exact List.mem_toFinset.mpr (List.mem_flatMap.mpr ⟨e, he, hname⟩)
    obtain ⟨hgroup, hagg⟩ := forall_aggregateReads.mp hfield
    have haggs : ∀ a ∈ aggregateExpr, a.toField (.ok s') = a.toField (.ok s) := by
      intro a ha
      unfold AggregateExpr.toField
      rw [hagg a ha]
    rw [LogicalPlan.schema, LogicalPlan.schema, hs, hs', Outcome.mapM_congr hgroup,
      Outcome.mapM_congr haggs]

/-- A join whose sides are left as they are used is left so, too. -/
theorem LogicalPlan.Leaves.join {left left' right right' : LogicalPlan} {used : Option (Finset String)}
    (hl : Leaves left left' used) (hr : Leaves right right' used) (joinType : JoinType)
    (on : List (String × String)) :
    Leaves (.join left right joinType on) (.join left' right' joinType on) used := by
  cases used with
  | none =>
    show (LogicalPlan.join left' right' joinType on).schema = _
    rw [LogicalPlan.schema, LogicalPlan.schema, show left'.schema = left.schema from hl,
      show right'.schema = right.schema from hr]
  | some used =>
    obtain ⟨ls, ls', hls, hls', hlagree⟩ := hl
    obtain ⟨rs, rs', hrs, hrs', hragree⟩ := hr
    refine ⟨⟨joinFields joinType on ls.fields rs.fields⟩,
      ⟨joinFields joinType on ls'.fields rs'.fields⟩, ?_, ?_, hlagree.join hragree⟩
    · rw [LogicalPlan.schema, hls, hrs]
      rfl
    · rw [LogicalPlan.schema, hls', hrs']
      rfl

/-- Below operators that use the names `used`, all of them requested, trimming does not show. -/
theorem pushDown_leaves {P : LogicalPlan} (hP : P.Resolved) {names : Finset String}
    {used : Option (Finset String)} (hused : ∀ u ∈ used, u ⊆ names) (h : P.Keeps names used) :
    ∃ P', pushDown P names = .ok (P', P.collect names) ∧ Leaves P P' used := by
  -- On the plan, with the names a parent has requested so far; `used` are those it looks up.
  induction P generalizing names used with
  | scan s =>
    cases used with
    | none =>
      obtain ⟨schema, hschema, hnodup, -⟩ := id h
      obtain ⟨s', hs'⟩ := exists_trimmed hschema hnodup
      refine ⟨.scan s', pushDown_scan.mpr ⟨rfl, schema, s', hschema, rfl, hs'⟩, ?_⟩
      exact congrArg Except.ok ((keepsScan_iff hschema hs'.2.1 hs'.2.2).mpr h)
    | some used =>
      obtain ⟨schema, hschema, hnodup, -⟩ := id h
      obtain ⟨s', hs'⟩ := exists_trimmed hschema hnodup
      exact ⟨.scan s', pushDown_scan.mpr ⟨rfl, schema, s', hschema, rfl, hs'⟩, _, _, rfl, rfl,
        KeepsFields.agree h (hused used rfl) hschema hs'.2.1 hs'.2.2⟩
  | selection input expr ih =>
    obtain ⟨input', hpush, hleaves⟩ := @ih hP.1 (requestReferences input.columns names [expr]) used
      (fun u hu => (hused u hu).trans (subset_insertNames _ _)) h
    exact ⟨.selection input' expr, by rw [pushDown_selection hP, hpush]; rfl, hleaves⟩
  | limit input n ih =>
    obtain ⟨input', hpush, hleaves⟩ := ih hP hused h
    exact ⟨.limit input' n, by rw [pushDown_limit, hpush]; rfl, hleaves⟩
  | projection input expr ih =>
    -- The projection asks for no whole schema: what its own expressions look up is enough.
    have hinput : ∃ input', pushDown input (requestReferences input.columns names expr) =
          .ok (input', (LogicalPlan.projection input expr).collect names) ∧
        (Leaves input input' none ∨ (∀ e ∈ expr, e.indices = []) ∧
          Leaves input input' (some (expr.flatMap LogicalExpr.columns).toFinset)) := by
      rcases h with h | ⟨hidx, h⟩
      · obtain ⟨input', hpush, hleaves⟩ := ih hP.1 (fun u hu => by cases hu) h
        exact ⟨input', hpush, .inl hleaves⟩
      · obtain ⟨input', hpush, hleaves⟩ := ih hP.1
          (fun u hu => by cases hu; exact columns_subset_references _ _ _) h
        exact ⟨input', hpush, .inr ⟨hidx, hleaves⟩⟩
    obtain ⟨input', hpush, hleaves⟩ := hinput
    exact ⟨.projection input' expr, by rw [pushDown_projection hP, hpush]; rfl,
      .of_eq (Leaves.projection hleaves) (resolved_schema hP) used⟩
  | aggregate input groupExpr aggregateExpr ih =>
    have hinput : ∃ input', pushDown input (requestReferences input.columns names
          (aggregateReads groupExpr aggregateExpr)) =
          .ok (input', (LogicalPlan.aggregate input groupExpr aggregateExpr).collect names) ∧
        (Leaves input input' none ∨
          (∀ e ∈ aggregateReads groupExpr aggregateExpr, e.indices = []) ∧
            Leaves input input' (some ((aggregateReads groupExpr aggregateExpr).flatMap
              LogicalExpr.columns).toFinset)) := by
      rcases h with h | ⟨hidx, h⟩
      · obtain ⟨input', hpush, hleaves⟩ := ih hP.1 (fun u hu => by cases hu) h
        exact ⟨input', hpush, .inl hleaves⟩
      · obtain ⟨input', hpush, hleaves⟩ := ih hP.1
          (fun u hu => by cases hu; exact columns_subset_references _ _ _) h
        exact ⟨input', hpush, .inr ⟨hidx, hleaves⟩⟩
    obtain ⟨input', hpush, hleaves⟩ := hinput
    exact ⟨.aggregate input' groupExpr aggregateExpr, by rw [pushDown_aggregate hP, hpush]; rfl,
      .of_eq (Leaves.aggregate hleaves) (resolved_schema hP) used⟩
  | join left right joinType on ihl ihr =>
    obtain ⟨hl, hr⟩ := h
    have husedL := fun u hu => (hused u hu).trans (subset_requestJoin left.columns right.columns on
      names)
    obtain ⟨left', hpushL, hleavesL⟩ := ihl hP.1 husedL hl
    -- The right side is pushed down with the names that the left side left behind.
    obtain ⟨right', hpushR, hleavesR⟩ := ihr hP.2
      (fun u hu => (husedL u hu).trans (subset_collect _ _)) hr
    refine ⟨.join left' right' joinType on, ?_, Leaves.join hleavesL hleavesR joinType on⟩
    rw [pushDown, joinNames_columns hP.1 hP.2, Outcome.ok_bind, hpushL, Outcome.ok_bind]
    simp only [hpushR, Outcome.ok_bind]
    rfl

/-- The columns that expressions read are columns of their input. -/
theorem columns_subset {input : LogicalPlan} {exprs : List LogicalExpr} (hinput : input.Resolved)
    (h : ∀ e ∈ exprs, input.Reads e) :
    (exprs.flatMap LogicalExpr.columns).toFinset ⊆ input.columns.names.toFinset := by
  obtain ⟨s, hs⟩ := resolved_schema hinput
  rw [columns_eq hs]
  intro name hname
  obtain ⟨e, he, hmem⟩ := List.mem_flatMap.mp (List.mem_toFinset.mp hname)
  exact List.mem_toFinset.mpr (((h e he).resolves s hs).1 name hmem)

/-- If a single source's plan can be optimized then the fields of its names are left, all columns
are left below a projection or an aggregate, and if the schema is preserved then so are they at
the root. -/
theorem keeps_of_pushDown {P P' : LogicalPlan} (hP : P.Resolved) (hsingle : P.SingleSource)
    {names names' : Finset String} (h : pushDown P names = .ok (P', names')) :
    (∀ used ⊆ P.columns.names.toFinset, P.Keeps names (some used)) ∧
      (P.Covered → ∀ used, P.Keeps names used) ∧
      (P'.schema = P.schema → P.Keeps names none) := by
  -- `Keeps` is read back: the fields looked up, then any of them for a plan whose own requests
  -- cover it, and last the whole schema when it did not change.
  induction P generalizing names names' P' with
  | scan s =>
    obtain ⟨-, schema, s', hschema, rfl, -, hds, hproj⟩ := pushDown_scan.mp h
    refine ⟨fun used hused => ⟨schema, hschema, (trimmed_schema hschema hds hproj).1, ?_⟩,
      fun hcov => hcov.elim, fun heq => ?_⟩
    · intro name hname _
      exact List.mem_toFinset.mp (hused hname)
    · exact (keepsScan_iff hschema hds hproj).mp (Except.ok.inj heq)
  | selection input expr ih =>
    rw [pushDown_selection hP] at h
    obtain ⟨⟨input', names''⟩, hpush, h⟩ := Outcome.map_eq_ok_iff.mp h
    cases h
    obtain ⟨hfields, hall, hsame⟩ := ih hP.1 hsingle hpush
    exact ⟨hfields, hall, hsame⟩
  | limit input n ih =>
    rw [pushDown_limit] at h
    obtain ⟨⟨input', names''⟩, hpush, h⟩ := Outcome.map_eq_ok_iff.mp h
    cases h
    obtain ⟨hfields, hall, hsame⟩ := ih hP hsingle hpush
    exact ⟨hfields, hall, hsame⟩
  | projection input expr ih =>
    rw [pushDown_projection hP] at h
    obtain ⟨⟨input', names''⟩, hpush, -⟩ := Outcome.map_eq_ok_iff.mp h
    obtain ⟨hfields, hall, -⟩ := ih hP.1 hsingle.1 hpush
    have hkeeps : ∀ used, (LogicalPlan.projection input expr).Keeps names used := by
      intro used
      -- Over a covered input every schema is kept; elsewhere no expression goes by index.
      by_cases hcov : input.Covered
      · exact .inl (hall hcov none)
      · refine .inr ⟨fun e he => (hsingle.2 e he).resolve_right hcov, hfields _ ?_⟩
        exact columns_subset hP.1 hP.2
    exact ⟨fun used _ => hkeeps _, fun _ => hkeeps, fun _ => hkeeps _⟩
  | aggregate input groupExpr aggregateExpr ih =>
    rw [pushDown_aggregate hP] at h
    obtain ⟨⟨input', names''⟩, hpush, -⟩ := Outcome.map_eq_ok_iff.mp h
    obtain ⟨hfields, hall, -⟩ := ih hP.1 hsingle.1 hpush
    have hkeeps : ∀ used,
        (LogicalPlan.aggregate input groupExpr aggregateExpr).Keeps names used := by
      intro used
      by_cases hcov : input.Covered
      · exact .inl (hall hcov none)
      · refine .inr ⟨fun e he => (hsingle.2 e he).resolve_right hcov, hfields _ ?_⟩
        exact columns_subset hP.1 (forall_aggregateReads.mpr hP.2)
    exact ⟨fun used _ => hkeeps _, fun _ => hkeeps, fun _ => hkeeps _⟩
  | join left right joinType on ihl ihr => exact hsingle.elim

/-- The schema is preserved if trimming the scans does not show, and only then in a plan of a single
source. -/
theorem optimize_schema {P : LogicalPlan} (hP : P.Resolved) :
    (P.Keeps ∅ none → P.SchemaPreserved) ∧
      (P.SingleSource → (P.SchemaPreserved ↔ P.Keeps ∅ none)) := by
  have hsufficient : P.Keeps ∅ none → P.SchemaPreserved := by
    intro h
    obtain ⟨P', hpush, hleaves⟩ := pushDown_leaves hP (fun u hu => by cases hu) h
    exact ⟨P', by rw [optimize, hpush]; rfl, hleaves⟩
  refine ⟨hsufficient, fun hsingle => ⟨?_, hsufficient⟩⟩
  rintro ⟨P', hopt, heq⟩
  obtain ⟨⟨P'', names⟩, hpush, hpair⟩ := Outcome.bind_eq_ok_iff.mp hopt
  obtain rfl : P'' = P' := Except.ok.inj hpair
  exact (keeps_of_pushDown hP hsingle hpush).2.2 heq

end

section FilteredScan

attribute [local instance] integerFloats insertionOrderRuntime prunedDisk

/-- `WHERE a > 1` over a scan, without a projection above it. -/
def filteredScan : LogicalPlan :=
  .selection unsortedScan (.binary .gt (.column "a") (.literalLong 1))

/-- The filtered scan resolves. -/
theorem filteredScan_resolved : filteredScan.Resolved :=
  ⟨trivial, ⟨trivial, trivial⟩, resolves_unsortedScan (by decide) rfl⟩

/-- The scan is trimmed to the column of the filter, and the column `b` is lost. -/
theorem filteredScan_schema : filteredScan.Resolved ∧ ¬ filteredScan.SchemaPreserved := by
  refine ⟨filteredScan_resolved, ?_⟩
  rintro ⟨P', hopt, hschema⟩
  have hlost : (optimize filteredScan >>= fun P' => P'.schema) = .ok ⟨[⟨"a", .int32⟩]⟩ := rfl
  rw [hopt, Outcome.ok_bind, hschema] at hlost
  exact absurd (Except.ok.inj hlost) (by decide)

/-- Below a projection the trimmed scan does not show. -/
theorem optimize_schema_prunedPlan : prunedPlan.SchemaPreserved := by
  refine (optimize_schema (P := prunedPlan) ⟨filteredScan_resolved, ?_⟩).1 ?_
  · intro e he
    obtain rfl := List.mem_singleton.mp he
    exact ⟨trivial, resolves_unsortedScan (by decide) rfl⟩
  · exact .inr ⟨by decide, unsortedSource.schema, rfl, by decide, by decide⟩

end FilteredScan

end RQuery
