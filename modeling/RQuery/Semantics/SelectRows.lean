import RQuery.Semantics.FrontProjection
import RQuery.Semantics.LimitClause
import RQuery.Semantics.Refinement

/-!
# What a SELECT statement answers

A statement without aggregates reads: of the rows of the table, those for which the filter is true,
each mapped to the values of the select items, up to the limit. The planner projects first, adds the
columns that only the filter refers to, filters, and drops them by name again. The rows are the ones
the statement asks for if no select item hides a column of the filter, and, where columns were added,
if the items have distinct names (`selectRows_answers`).
-/

namespace RQuery

section

variable [FloatModel] [Readers]

/-! ## Plans over one table -/

/-- The plan reads one source, and joins nothing. -/
def LogicalPlan.ReadsOnly (ds : DataSource) : LogicalPlan → Prop
  | .scan s => s.dataSource = ds
  | .projection input _ => input.ReadsOnly ds
  | .selection input _ => input.ReadsOnly ds
  | .aggregate input _ _ => input.ReadsOnly ds
  | .join _ _ _ _ => False
  | .limit input _ => input.ReadsOnly ds

/-- The optimizer does not change what is read. -/
theorem SameShape.readsOnly {ds : DataSource} {P P' : LogicalPlan} (h : SameShape P P')
    (hP : P.ReadsOnly ds) : P'.ReadsOnly ds := by
  induction h with
  | scan s s' hsource => exact hsource.trans hP
  | projection expr _ ih => exact ih hP
  | selection expr _ ih => exact ih hP
  | aggregate groupExpr aggregateExpr _ ih => exact ih hP
  | join joinType on _ _ _ _ => exact hP.elim
  | limit n _ ih => exact ih hP

/-- A plan over one source has no join. -/
theorem LogicalPlan.ReadsOnly.joinsAlign {ds : DataSource} {P : LogicalPlan} (h : P.ReadsOnly ds) :
    P.JoinsAlign := by
  induction P with
  | scan s => trivial
  | projection input expr ih => exact ih h
  | selection input expr ih => exact ih h
  | aggregate input groupExpr aggregateExpr ih => exact ih h
  | join left right joinType on _ _ => exact h.elim
  | limit input n ih => exact ih h

/-- A pipeline over all columns of one source: it projects, filters and cuts, by the names of the
columns. -/
def LogicalPlan.Pipeline (ds : DataSource) : LogicalPlan → Prop
  | .scan s => s.dataSource = ds ∧ s.projection = [] ∧ s.schema.DistinctNames
  | .projection input expr => input.Pipeline ds ∧ ∀ e ∈ expr, e.indices = []
  | .selection input expr => input.Pipeline ds ∧ expr.indices = []
  | .limit input _ => input.Pipeline ds
  | .aggregate _ _ _ | .join _ _ _ _ => False

/-- A pipeline reads its source only. -/
theorem LogicalPlan.Pipeline.readsOnly {ds : DataSource} {P : LogicalPlan} (h : P.Pipeline ds) :
    P.ReadsOnly ds := by
  induction P with
  | scan s => exact h.1
  | projection input expr ih => exact ih h.1
  | selection input expr ih => exact ih h.1
  | limit input n ih => exact ih h
  | aggregate input groupExpr aggregateExpr _ => exact h.elim
  | join left right joinType on _ _ => exact h.elim

/-- A pipeline iterates over no map. -/
theorem LogicalPlan.Pipeline.inOrder {ds : DataSource} {P : LogicalPlan} (h : P.Pipeline ds) :
    P.InOrder := by
  induction P with
  | scan s => trivial
  | projection input expr ih => exact ih h.1
  | selection input expr ih => exact ih h.1
  | limit input n ih => exact ih h
  | aggregate input groupExpr aggregateExpr _ => exact h.elim
  | join left right joinType on _ _ => exact h.elim

/-- A pipeline can be optimized. -/
theorem LogicalPlan.Pipeline.optimizable {ds : DataSource} {P : LogicalPlan}
    (h : P.Pipeline ds) : P.Optimizable := by
  induction P with
  | scan s => exact h.2
  | projection input expr ih => exact ⟨ih h.1, fun e he => .inl (h.2 e he)⟩
  | selection input expr ih => exact ⟨ih h.1, .inl h.2⟩
  | limit input n ih => exact ih h
  | aggregate input groupExpr aggregateExpr _ => exact h.elim
  | join left right joinType on _ _ => exact h.elim

variable [Runtime]

/-- The source delivers the content, whatever columns are read of it. -/
def DataSource.Serves (ds : DataSource) (content : Content) : Prop :=
  ∀ s : Scan, s.dataSource = ds → s.Delivers content

/-- A table in memory with distinct column names serves its rows. -/
theorem InMemoryDataSource.serves {m : InMemoryDataSource} (hm : m.schema.DistinctNames) :
    (DataSource.inMemory m).Serves memoryContent :=
  fun _ hs => InMemoryDataSource.delivers hm hs rfl

/-- A plan over a source that serves its rows delivers them. -/
theorem LogicalPlan.ReadsOnly.delivers {ds : DataSource} {content : Content} {P : LogicalPlan}
    (h : P.ReadsOnly ds) (hserves : ds.Serves content) : P.Delivers content := by
  induction P with
  | scan s => exact hserves s h
  | projection input expr ih => exact ih h
  | selection input expr ih => exact ih h
  | aggregate input groupExpr aggregateExpr ih => exact ih h
  | join left right joinType on _ _ => exact h.elim
  | limit input n ih => exact ih h

/-- Executing a pipeline returns the rows it denotes. -/
theorem queryRows_pipeline {content : Content} {ds : DataSource} {P : LogicalPlan}
    (hP : P.Pipeline ds) (hcovered : P.Covered) (hserves : ds.Serves content)
    {executor : ExecutorContext} {rows : List Row} (hrows : queryRows executor P = .ok rows)
    (hcomputed : P.LimitFree ∨ Outcome.Succeeds (P.denote content)) :
    P.denote content = .ok rows := by
  obtain ⟨batches, hstream, rfl⟩ := queryRows_eq_ok_iff.mp hrows
  obtain ⟨P', hopt, -⟩ := Outcome.bind_eq_ok_iff.mp hstream
  obtain ⟨⟨Q, names⟩, hpush, hQ⟩ := Outcome.bind_pure_eq_ok_iff.mp hopt
  obtain rfl : P' = Q := hQ
  have hshape := pushDown_sameShape hpush
  obtain ⟨rows, hdenote, -, hsame⟩ := executePlan_answers hP.optimizable hcovered hopt
    (hshape.inOrder hP.inOrder).settled (hshape.readsOnly hP.readsOnly).joinsAlign
    ((hshape.readsOnly hP.readsOnly).delivers hserves) hstream hcomputed
  rw [hdenote, hsame hP.inOrder]

/-- A scan of all columns denotes the rows of its source. -/
theorem scan_denote {scan : Scan} (hprojection : scan.projection = []) {content : Content} :
    (LogicalPlan.scan scan).denote content = .ok (content.rows scan.dataSource) := by
  have hderived := scan.derived
  rw [Scan.deriveSchema] at hderived
  obtain ⟨full, hfull, -⟩ := Outcome.bind_eq_ok_iff.mp hderived
  rw [LogicalPlan.denote, hfull, Outcome.ok_bind, hprojection]
  rfl

/-! ## The rows of a statement without aggregates -/

/-- These are the rows of a table for which the filter is true. -/
def PassFilter (schema : Schema) (source kept : List Row) : Option LogicalExpr → Prop
  | none => kept = source
  | some filter => ∃ p cells, createPhysicalExpr (.ok schema) filter = .ok p ∧
      source.mapM (p.evalCell schema.types) = .ok cells ∧ kept = keepTrue source cells

/-- A selection over a table denotes the rows that pass its filter. -/
theorem passFilter_of_denote {T : LogicalPlan} {s : Schema} (hs : T.schema = .ok s)
    {content : Content} {source kept : List Row} (hsource : T.denote content = .ok source)
    {filter : LogicalExpr} (hkept : (T.selection filter).denote content = .ok kept) :
    PassFilter s source kept (some filter) := by
  simp only [LogicalPlan.denote, hs, hsource, Outcome.ok_bind] at hkept
  obtain ⟨p, hp, hkept⟩ := Outcome.bind_eq_ok_iff.mp hkept
  obtain ⟨cells, hcells, rfl⟩ := Outcome.bind_pure_eq_ok_iff.mp hkept
  exact ⟨p, cells, hp, hcells, rfl⟩

variable [UnicodeTables] [DateParser] {select : SqlSelect}

namespace PlannedClauses

variable (c : PlannedClauses select)

/-- The rows that the statement asks for: each row of the table for which the filter is true is mapped
to the values of the select items, and the rows are cut to the limit. -/
def Selects (schema : Schema) (source rows : List Row) : Prop :=
  ∃ kept tuples es, PassFilter schema source kept c.filter ∧
    c.items.mapM (createPhysicalExpr (.ok schema)) = .ok es ∧
    (kept.mapM fun r => es.mapM fun e => e.evalCell schema.types r) = .ok tuples ∧
    rows = cutTo tuples select.limit

/-- No select item hides a column of the filter behind its own name. -/
def ShowsFilter (schema : Schema) : Prop :=
  ∀ filter ∈ c.filter, Transparent filter.columns.toFinset schema c.items

/-- The select items refer to all columns of the filter, or have distinct names. -/
def DropsByName (schema : Schema) : Prop :=
  ∀ filter ∈ c.filter, filter.plainColumns ⊆ c.items.flatMap LogicalExpr.plainColumns ∨
    ∀ fields, c.items.mapM (LogicalExpr.toField (.ok schema)) = .ok fields →
      (fields.map Field.name).Nodup

end PlannedClauses

/-! ## Dropping columns by name -/

section

omit [Readers] [UnicodeTables] [DateParser]

omit [Runtime] [FloatModel] in
/-- Among distinct names a field is found at its own place. -/
theorem position?_of_nodup {fields : List Field} {n i : ℕ} {f : Field}
    (hnodup : ((fields.take n).map Field.name).Nodup) (hi : i < n) (hf : fields[i]? = some f) :
    Schema.position? ⟨fields⟩ f.name = some i := by
  refine Schema.position?_eq_some_iff.mpr ⟨⟨f, hf, rfl⟩, fun j hj g hg hname => ?_⟩
  have hnames : ∀ k h, k < n → fields[k]? = some h →
      ((fields.take n).map Field.name)[k]? = some h.name := by
    intro k h hk hh
    rw [List.getElem?_map, List.getElem?_take_of_lt hk, hh]
    rfl
  have hsame := (hnames j g (hj.trans hi) hg).trans ((congrArg some hname).trans
    (hnames i f hi hf).symm)
  obtain ⟨hlt, -⟩ := List.getElem?_eq_some_iff.mp (hnames j g (hj.trans hi) hg)
  exact absurd ((List.getElem?_inj hlt hnodup).mp hsame) hj.ne

/-- Evaluating the first of some expressions in every row gives the first cells. -/
theorem mapM_take {types : List DataType} {es added : List Expression} {rows out : List Row}
    (h : (rows.mapM fun r => (es ++ added).mapM fun e => e.evalCell types r) = .ok out) :
    (rows.mapM fun r => es.mapM fun e => e.evalCell types r) =
      .ok (out.map (List.take es.length)) := by
  refine Outcome.mapM_eq_ok_iff.mpr (List.forall₂_map_right_iff.mpr
    ((Outcome.mapM_eq_ok_iff.mp h).imp fun r cells hcells => ?_))
  obtain ⟨first, rest, hfirst, -, rfl⟩ := Outcome.mapM_append_eq_ok_iff.mp hcells
  rw [hfirst, ← Outcome.mapM_length hfirst, List.take_left]

/-- The first columns of a row are its first cells. -/
theorem firstColumns_eq {types : List DataType} {n : ℕ} {row cells : Row}
    (h : ((List.range n).map Expression.column).mapM (fun e => e.evalCell types row) = .ok cells) :
    cells = row.take n := by
  have hlength : cells.length = n := by simpa using Outcome.mapM_length h
  refine List.ext_getElem? fun i => ?_
  by_cases hi : i < n
  · have hcolumn : ((List.range n).map Expression.column)[i]? = some (.column i) := by simp [hi]
    obtain ⟨v, hv, hcell⟩ := Outcome.mapM_getElem? h hcolumn
    rw [hv, List.getElem?_take_of_lt hi, evalCell_column hcell]
  · rw [List.getElem?_eq_none (by omega),
      List.getElem?_eq_none ((List.length_take_le _ _).trans (not_lt.mp hi))]

end

variable {content : Content} {P : LogicalPlan} {s : Schema}

omit [UnicodeTables] [DateParser] in
/-- Projecting the first columns by their names gives the first cells of every row, if no name
occurs twice. -/
theorem projectNames_denote {n : ℕ} (hs : P.schema = .ok s) {exprs : List LogicalExpr}
    (hexprs : ((List.range n).mapM fun i => do
      return LogicalExpr.column (← index s.fields i).name) = .ok exprs)
    (hnodup : ((s.fields.take n).map Field.name).Nodup) {rows : List Row}
    (hrows : (P.projection exprs).denote content = .ok rows) :
    ∃ all, P.denote content = .ok all ∧ rows = all.map (List.take n) := by
  simp only [LogicalPlan.denote, hs, Outcome.ok_bind] at hrows
  obtain ⟨es, hes, hrows⟩ := Outcome.bind_eq_ok_iff.mp hrows
  obtain ⟨all, hall, hrows⟩ := Outcome.bind_eq_ok_iff.mp hrows
  -- Every name is looked up at its own position.
  have hlookup : ∀ i ∈ List.range n, ((do return LogicalExpr.column (← index s.fields i).name) >>=
      createPhysicalExpr (.ok s)) = .ok (Expression.column i) := by
    intro i hi
    obtain ⟨e, -, he⟩ := Outcome.mapM_mem_left hexprs hi
    obtain ⟨f, hf, rfl⟩ := Outcome.bind_pure_eq_ok_iff.mp he
    have hposition : s.position? f.name = some i :=
      position?_of_nodup hnodup (List.mem_range.mp hi) (index_eq_ok_iff.mp hf)
    rw [hf, Outcome.ok_bind, Outcome.pure_eq_ok, Outcome.ok_bind, createPhysicalExpr,
      Outcome.ok_bind, fieldPosition, hposition]
    rfl
  obtain rfl : (List.range n).map Expression.column = es :=
    Except.ok.inj ((Outcome.mapM_eq_ok_map hlookup).symm.trans (Outcome.mapM_comp hexprs hes))
  exact ⟨all, hall, Outcome.eq_map_of_mapM hrows fun r cells => firstColumns_eq⟩

/-! ## The projection behind the filter -/

omit [UnicodeTables] [DateParser] [Runtime] in
/-- The fields of a projection are those of its expressions. -/
theorem fields_of_projection {T : LogicalPlan} (hs : T.schema = .ok s) {exprs : List LogicalExpr}
    {t : Schema} (ht : (T.projection exprs).schema = .ok t) :
    exprs.mapM (LogicalExpr.toField (.ok s)) = .ok t.fields := by
  obtain ⟨fields, hfields, rfl⟩ := Outcome.bind_pure_eq_ok_iff.mp ht
  rwa [hs] at hfields

omit [UnicodeTables] [DateParser] in
/-- A condition behind a projection finds its columns there. -/
theorem condition_found {T : LogicalPlan} (hs : T.schema = .ok s) {exprs : List LogicalExpr}
    {filter : LogicalExpr} {out : List Row}
    (hout : ((T.projection exprs).selection filter).denote content = .ok out) :
    ∀ fields, exprs.mapM (LogicalExpr.toField (.ok s)) = .ok fields →
      ∀ name ∈ filter.columns, name ∈ Schema.names ⟨fields⟩ := by
  intro fields hfields
  obtain ⟨t, ht, hout⟩ := Outcome.bind_eq_ok_iff.mp hout
  obtain ⟨p, hp, -⟩ := Outcome.bind_eq_ok_iff.mp hout
  obtain rfl := Except.ok.inj (hfields.symm.trans (fields_of_projection hs ht))
  exact createPhysicalExpr_columns hp

omit [UnicodeTables] [DateParser] in
/-- Filtering a projection to which columns were added gives the rows that pass the filter, with the
items in front. -/
theorem filteredItems_denote {T : LogicalPlan} (hs : T.schema = .ok s) {items : List LogicalExpr}
    {added : List String} {filter : LogicalExpr} (hindices : filter.indices = [])
    (hshows : Transparent filter.columns.toFinset s items) {out : List Row}
    (hout : ((T.projection (items ++ added.map LogicalExpr.column)).selection filter).denote
      content = .ok out) {source : List Row} (hsource : T.denote content = .ok source) :
    ∃ kept es, PassFilter s source kept (some filter) ∧
      items.mapM (createPhysicalExpr (.ok s)) = .ok es ∧
      (kept.mapM fun r => es.mapM fun e => e.evalCell s.types r) =
        .ok (out.map (List.take items.length)) := by
  have hfound := condition_found hs hout
  obtain ⟨fields, es, rows, tuples, p, cells, -, hes, hrows, htuples, hp, hcells, rfl, -, -⟩ :=
    filteredProjection_denote hs (hshows.append_columns added)
      (fun fields hfields name hname => hfound fields hfields name (List.mem_toFinset.mp hname))
      (fun name hname => List.mem_toFinset.mpr hname) hindices hout
  obtain rfl := Except.ok.inj (hsource.symm.trans hrows)
  obtain ⟨first, rest, hfirst, -, rfl⟩ := Outcome.mapM_append_eq_ok_iff.mp hes
  refine ⟨_, first, ⟨p, cells, hp, hcells, rfl⟩, hfirst, ?_⟩
  rw [← Outcome.mapM_length hfirst]
  exact mapM_take (keepTrue_mapM htuples cells)

/-! ## Planned statements -/

omit [UnicodeTables] [DateParser] in
/-- A limit denotes the first rows. -/
theorem limited_denote {df : DataFrame} {limit : Option Int32} {rows : List Row}
    (h : (SqlPlanner.limited df limit).logicalPlan.denote content = .ok rows) :
    ∃ all, df.logicalPlan.denote content = .ok all ∧ rows = cutTo all limit := by
  cases limit with
  | none => exact ⟨rows, h, rfl⟩
  | some n =>
    obtain ⟨all, hall, rfl⟩ := Outcome.bind_pure_eq_ok_iff.mp h
    exact ⟨all, hall, rfl⟩

namespace PlannedClauses

variable {c : PlannedClauses select} {table df : DataFrame}

omit [Runtime] in
/-- The columns that are collected from the filter are columns of the filter. -/
theorem mem_filter_of_inSelection {inSelection : List String}
    (h : SqlPlanner.columnsReferencedBySelection select table = .ok inSelection)
    {selection : SqlExpr} (hselection : select.selection = some selection) {filter : LogicalExpr}
    (hplanned : SqlPlanner.createLogicalExpr selection = .ok filter) {name : String}
    (hname : name ∈ inSelection) : name ∈ filter.plainColumns := by
  unfold SqlPlanner.columnsReferencedBySelection at h
  rw [hselection] at h
  simp only [hplanned, Outcome.ok_bind] at h
  obtain ⟨s, -, rfl⟩ := Outcome.bind_pure_eq_ok_iff.mp h
  simpa using mem_visit.mp (List.mem_of_mem_filter hname)

/-- What a planned statement without aggregates denotes. -/
theorem selects_of_denote (hs : table.schema = .ok s) (hshows : c.ShowsFilter s)
    (hdrops : c.DropsByName s) {inSelection : List String}
    (hinSelection : SqlPlanner.columnsReferencedBySelection select table = .ok inSelection)
    (h : SqlPlanner.planNonAggregateQuery select table c.items inSelection
      (referencedColumns c.items) = .ok df) {source rows : List Row}
    (hsource : table.logicalPlan.denote content = .ok source)
    (hrows : df.logicalPlan.denote content = .ok rows) : c.Selects s source rows := by
  have hs : table.logicalPlan.schema = .ok s := hs
  unfold SqlPlanner.planNonAggregateQuery at h
  cases hselection : select.selection with
  | none =>
    rw [hselection] at h
    obtain rfl := Except.ok.inj h
    obtain ⟨tuples, htuples, rfl⟩ := limited_denote hrows
    simp only [DataFrame.project, LogicalPlan.denote, hs, hsource, Outcome.ok_bind] at htuples
    obtain ⟨es, hes, htuples⟩ := Outcome.bind_eq_ok_iff.mp htuples
    refine ⟨source, tuples, es, ?_, hes, htuples, rfl⟩
    rw [c.filter_of_none hselection]
    rfl
  | some selection =>
    obtain ⟨filter, hplanned, hfilter⟩ := c.filter_of_some hselection
    have hindices : filter.indices = [] := c.indices_filter filter hfilter
    rw [hselection] at h
    simp only [hplanned, Outcome.ok_bind] at h
    split at h
    · obtain rfl := Except.ok.inj h
      obtain ⟨out, hout, rfl⟩ := limited_denote hrows
      have hout : ((table.logicalPlan.projection
          (c.items ++ ([] : List String).map LogicalExpr.column)).selection filter).denote content =
            .ok out := by
        rwa [List.map_nil, List.append_nil]
      obtain ⟨kept, es, hkept, hes, htuples⟩ :=
        filteredItems_denote hs hindices (hshows filter hfilter) hout hsource
      have hwidth : ∀ r ∈ out, r.length ≤ c.items.length := by
        obtain ⟨t, ht, -⟩ := Outcome.bind_eq_ok_iff.mp hout
        have hschema : ((table.logicalPlan.projection
            (c.items ++ ([] : List String).map LogicalExpr.column)).selection filter).schema = .ok t :=
          ht
        intro r hr
        rw [denote_length hschema hout r hr,
          Outcome.mapM_length (fields_of_projection hs ht), List.map_nil, List.append_nil]
      rw [List.map_congr_left fun r hr => List.take_of_length_le (hwidth r hr), List.map_id'] at htuples
      exact ⟨kept, out, es, hfilter ▸ hkept, hes, htuples, rfl⟩
    · rename_i hmissing
      obtain ⟨t, ht, h⟩ := Outcome.bind_eq_ok_iff.mp h
      obtain ⟨exprs, hexprs, rfl⟩ := Outcome.bind_pure_eq_ok_iff.mp h
      obtain ⟨tuples, htuples, rfl⟩ := limited_denote hrows
      have hfields := fields_of_projection hs ht
      have hnodup : ((t.fields.take c.items.length).map Field.name).Nodup := by
        obtain ⟨first, rest, hfirst, -, hsplit⟩ := Outcome.mapM_append_eq_ok_iff.mp hfields
        rw [hsplit, ← Outcome.mapM_length hfirst, List.take_left]
        refine (hdrops filter hfilter).resolve_left (fun hsub => hmissing ?_) first hfirst
        rw [List.isEmpty_iff, orderedDifference, List.filter_eq_nil_iff]
        intro name hname
        rw [decide_eq_true_eq, not_not, mem_referencedColumns]
        exact hsub (mem_filter_of_inSelection hinSelection hselection hplanned hname)
      obtain ⟨out, hout, rfl⟩ := projectNames_denote ht hexprs hnodup htuples
      obtain ⟨kept, es, hkept, hes, htuples⟩ :=
        filteredItems_denote hs hindices (hshows filter hfilter) hout hsource
      exact ⟨kept, _, es, hfilter ▸ hkept, hes, htuples, rfl⟩

omit [Runtime] in
/-- The plan of a statement without aggregates is a pipeline behind a projection. -/
theorem pipeline_of_planned {ds : DataSource} (htable : table.logicalPlan.Pipeline ds)
    (hfree : table.logicalPlan.LimitFree)
    {inSelection inProjection : List String}
    (h : SqlPlanner.planNonAggregateQuery select table c.items inSelection inProjection = .ok df) :
    df.logicalPlan.Pipeline ds ∧ df.logicalPlan.Covered ∧
      (select.limit = none → df.logicalPlan.LimitFree) := by
  have hlimited : ∀ {body : DataFrame} (limit : Option Int32), body.logicalPlan.Pipeline ds →
      body.logicalPlan.Covered → body.logicalPlan.LimitFree →
        (SqlPlanner.limited body limit).logicalPlan.Pipeline ds ∧
        (SqlPlanner.limited body limit).logicalPlan.Covered ∧
        (limit = none → (SqlPlanner.limited body limit).logicalPlan.LimitFree) := by
    -- A LIMIT above the plan changes neither its sources nor what it reads.
    intro body limit hbody hcovered hfree
    cases limit with
    | none => exact ⟨hbody, hcovered, fun _ => hfree⟩
    | some n => exact ⟨hbody, hcovered, fun h => by cases h⟩
  unfold SqlPlanner.planNonAggregateQuery at h
  -- The planner's three shapes: no WHERE, one within the projection, and one that adds columns.
  cases hselection : select.selection with
  | none =>
    rw [hselection] at h
    obtain rfl := Except.ok.inj h
    exact hlimited _ ⟨htable, c.indices_items⟩ trivial hfree
  | some selection =>
    obtain ⟨filter, hplanned, hfilter⟩ := c.filter_of_some hselection
    have hindices : filter.indices = [] := c.indices_filter filter hfilter
    rw [hselection] at h
    simp only [hplanned, Outcome.ok_bind] at h
    split at h
    · obtain rfl := Except.ok.inj h
      exact hlimited _ ⟨⟨htable, c.indices_items⟩, hindices⟩ trivial hfree
    · obtain ⟨t, -, h⟩ := Outcome.bind_eq_ok_iff.mp h
      obtain ⟨exprs, hexprs, rfl⟩ := Outcome.bind_pure_eq_ok_iff.mp h
      -- The columns added for the filter are dropped again by position.
      refine hlimited _ ⟨⟨⟨htable, indices_append_columns c.indices_items _⟩, hindices⟩,
        fun e he => ?_⟩ trivial hfree
      obtain ⟨i, -, hi⟩ := Outcome.mapM_mem hexprs he
      obtain ⟨f, -, rfl⟩ := Outcome.bind_pure_eq_ok_iff.mp hi
      rfl

end PlannedClauses

/-- Executing a statement without aggregates returns the rows that it asks for. -/
theorem selectRows_answers (c : PlannedClauses select) {tables : SqlPlanner.Tables} {scan : Scan}
    (htable : tables select.tableName = some ⟨.scan scan⟩) (hprojection : scan.projection = [])
    (hdistinct : scan.schema.DistinctNames) (hplain : ∀ e ∈ c.items, isAggregateExpr e = false)
    (hshows : c.ShowsFilter scan.schema) (hdrops : c.DropsByName scan.schema) {df : DataFrame}
    (hdf : SqlPlanner.createDataFrame select tables = .ok df)
    (hserves : scan.dataSource.Serves content) {executor : ExecutorContext} {rows : List Row}
    (hrows : queryRows executor df.logicalPlan = .ok rows)
    (hcomputed : select.limit = none ∨ Outcome.Succeeds (df.logicalPlan.denote content)) :
    c.Selects scan.schema (content.rows scan.dataSource) rows := by
  obtain ⟨table, items, inSelection, htable', hitems, hinSelection, hbranch⟩ :=
    SqlPlanner.createDataFrame_eq_ok_iff.mp hdf
  obtain rfl := Option.some.inj (htable.symm.trans htable')
  obtain rfl := Except.ok.inj (c.items_eq.symm.trans hitems)
  have hplan := hbranch.resolve_right fun h => by
    obtain ⟨e, he, hagg⟩ := List.any_eq_true.mp h.1
    rw [hplain e he] at hagg
    cases hagg
  have hscan : (LogicalPlan.scan scan).Pipeline scan.dataSource := ⟨rfl, hprojection, hdistinct⟩
  have hscanFree : (LogicalPlan.scan scan).LimitFree := trivial
  obtain ⟨hpipeline, hcovered, hfree⟩ :=
    PlannedClauses.pipeline_of_planned hscan hscanFree hplan.2.2
  exact PlannedClauses.selects_of_denote rfl hshows hdrops hinSelection hplan.2.2
    (scan_denote hprojection)
    (queryRows_pipeline hpipeline hcovered hserves hrows (hcomputed.imp_left hfree))

end

section Selected

attribute [local instance] integerFloats insertionOrderRuntime asciiTables

local instance noSelectedFiles : Readers := parquetDisk fun _ => none

local instance noSelectedDates : DateParser := ⟨fun _ => none, DateParser.none_range⟩

def selectedBatch : RecordBatch where
  schema := ⟨[⟨"a", .int64⟩, ⟨"b", .int64⟩, ⟨"c", .int64⟩]⟩
  columns := [Int64Array [1, 2, 3, 4], Int64Array [10, 20, 30, 40], Int64Array [7, 0, 7, 7]]
  numRows := 4
  types_eq := by decide
  lengths := by decide

def selectedSource : InMemoryDataSource where
  schema := selectedBatch.schema
  data := [selectedBatch]
  conforms := by decide

def selectedScan : Scan := ⟨"t", .inMemory selectedSource, [], selectedSource.schema, rfl⟩

/-- `SELECT a + 1 AS next, b FROM t WHERE c > 1 LIMIT 2`. -/
def selectNext : SqlSelect :=
  ⟨[.aliased (.binaryExpr (.identifier "a") "+" (.long 1)) "next", .identifier "b"],
    some (.binaryExpr (.identifier "c") ">" (.long 1)), [], [], none, some 2, "t"⟩

def nextClauses : PlannedClauses selectNext where
  items := [.aliased (.binary .add (.column "a") (.literalLong 1)) "next", .column "b"]
  filter := some (.binary .gt (.column "c") (.literalLong 1))
  groups := []
  items_eq := rfl
  filter_eq := rfl
  groups_eq := rfl

/-- The rows that are returned are the first two that pass the filter, mapped to the items. -/
theorem selectRows_answers_next :
    nextClauses.Selects selectedSource.schema (rowsOf [selectedBatch])
      [[.int64 2, .int64 10], [.int64 4, .int64 30]] := by
  obtain ⟨df, hdf⟩ : Outcome.Succeeds
      (SqlPlanner.createDataFrame selectNext fun _ => some ⟨.scan selectedScan⟩) := ⟨_, rfl⟩
  have hrows : queryRows ⟨"", "", 0, ⟨[]⟩⟩ df.logicalPlan =
      .ok [[.int64 2, .int64 10], [.int64 4, .int64 30]] := by
    obtain rfl := Except.ok.inj hdf
    decide +kernel
  have hcomputed : Outcome.Succeeds (df.logicalPlan.denote memoryContent) := by
    obtain rfl := Except.ok.inj hdf
    exact ⟨[[.int64 2, .int64 10], [.int64 4, .int64 30]], by decide +kernel⟩
  have htable : (fun _ : String => some (⟨.scan selectedScan⟩ : DataFrame)) selectNext.tableName =
      some ⟨.scan selectedScan⟩ := rfl
  refine selectRows_answers nextClauses htable rfl (by decide) (by decide) ?_ ?_ hdf
    (InMemoryDataSource.serves (by decide)) hrows (.inr hcomputed)
  · rintro filter ⟨⟩ e he f hf hname
    rcases List.mem_cons.mp he with rfl | he
    · obtain rfl := Except.ok.inj hf
      exact absurd hname (by decide)
    · obtain rfl := List.mem_singleton.mp he
      obtain rfl := Except.ok.inj hf
      exact absurd hname (by decide)
  · rintro filter ⟨⟩
    refine .inr fun fields hfields => ?_
    obtain rfl := Except.ok.inj hfields
    decide

end Selected

end RQuery
