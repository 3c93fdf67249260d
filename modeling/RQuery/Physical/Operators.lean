import RQuery.Physical.Expression
import RQuery.DataSource.Sources

/-!
# The streaming operators

Projection, selection and limit on one batch. Each builds its output with `record_batch::create`
under a declared schema: a projection under its own, a selection and a truncated limit under the
schema of their input. `projectBatch_eq_ok_iff`, `filterBatch_eq_ok_iff` and `truncate_eq_ok_iff`
say on rows what they return, and that a declared schema of other types is a panic.
-/

namespace RQuery

variable [FloatModel]

/-- Copy the given rows of every column through builders: the loops of `filter`, `truncate` and
`select_rows`. -/
def copyColumns (batch : RecordBatch) (rows : List ℕ) : Result (List ColumnVector) :=
  (List.range batch.columns.length).mapM fun i => do
    let v ← batch.field i
    return ArrowFieldVector (← ArrowVectorBuilder.fill v.dataType rows.length fun j =>
      v.value (rows.getD j 0))

/-- The batch of the copied columns. -/
def takeRows (schema : Schema) (batch : RecordBatch) (rows : List ℕ) : Result RecordBatch := do
  RecordBatch.create schema (← copyColumns batch rows)

/-- The rows where the selection is true. -/
def selectedRows (selection : ColumnVector) : Result (List ℕ) := do
  let cells ← (List.range selection.len).mapM selection.value
  return (List.range selection.len).filter fun i => cells[i]? = some (.boolean true)

/-- `truncate`: the first `n` rows. -/
def truncate (schema : Schema) (batch : RecordBatch) (n : ℕ) : Result RecordBatch :=
  takeRows schema batch (List.range n)

/-- `LimitExec::execute`: pass batches on while the budget lasts, and cut the batch that exceeds it.
A batch is pulled from the input before the budget is looked at. -/
def limitStream (schema : Schema) : ℕ → BatchStream → BatchStream
  | _, [] => []
  | _, .error e :: _ => [.error e]
  | 0, .ok _ :: _ => []
  | remaining + 1, .ok batch :: rest =>
    if batch.numRows ≤ remaining + 1 then
      .ok batch :: limitStream schema (remaining + 1 - batch.numRows) rest
    else
      truncate schema batch (remaining + 1) :: limitStream schema 0 rest

section

variable [Runtime]

/-- `SelectionExec::execute` on one batch. -/
def filterBatch (schema : Schema) (expr : Expression) (batch : RecordBatch) :
    Result RecordBatch := do
  let selection ← expr.evaluate batch
  takeRows schema batch (← selectedRows selection)

/-- `ProjectionExec::execute` on one batch. -/
def projectBatch (schema : Schema) (exprs : List Expression) (batch : RecordBatch) :
    Result RecordBatch := do
  RecordBatch.create schema (← exprs.mapM fun e => e.evaluate batch)

end

/-! ## Taking rows -/

/-- The column of a copied array. -/
theorem fill_rows_eq_ok_iff {a c : ArrayRef} {rows : List ℕ} (h : ∀ j ∈ rows, j < a.cells.length) :
    ArrowVectorBuilder.fill a.dataType rows.length (fun j => a.value (rows.getD j 0)) = .ok c ↔
      a.dataType.hasBuilder ∧ c.dataType = a.dataType ∧
        c.cells = rows.map fun j => a.cells.getD j .null := by
  rw [ArrowVectorBuilder.fill_eq_ok_iff]
  refine and_congr_right fun hsup => and_congr_right fun _ => ?_
  -- The builder appends the cells at the given rows, one after the other.
  have hvalue : ∀ i (hi : i < rows.length),
      a.value (rows.getD i 0) = .ok (a.cells.getD (rows[i]) .null) := by
    intro i hi
    have hlt := h _ (List.getElem_mem hi)
    refine a.value_eq_ok hsup ?_
    simp [hi, hlt]
  constructor
  · rintro ⟨hlen, hcells⟩
    apply List.ext_getElem (by simpa using hlen)
    intro i hi hi'
    have hi' : i < rows.length := by simpa using hi'
    have hcell := hcells i _ (List.getElem?_eq_getElem hi)
    rw [hvalue i hi'] at hcell
    simpa using hcell.symm
  · intro hc
    refine ⟨by simp [hc], fun i v hv => ?_⟩
    rw [hc, List.getElem?_map, Option.map_eq_some_iff] at hv
    obtain ⟨j, hj, rfl⟩ := hv
    obtain ⟨hi, rfl⟩ := List.getElem?_eq_some_iff.mp hj
    exact hvalue i hi

/-- The loop over rows copies each column cell by cell. -/
theorem copyColumns_eq (batch : RecordBatch) (rows : List ℕ) :
    copyColumns batch rows = do
      let arrays ← batch.columns.mapM fun a =>
        ArrowVectorBuilder.fill a.dataType rows.length fun j => a.value (rows.getD j 0)
      return arrays.map ArrowFieldVector := by
  unfold copyColumns
  simp only [RecordBatch.field, bind_assoc, pure_bind]
  rw [mapM_index_range batch.columns fun a => do
    return ArrowFieldVector (← ArrowVectorBuilder.fill (ArrowFieldVector a).dataType rows.length
      fun j => (ArrowFieldVector a).value (rows.getD j 0)), Outcome.mapM_bind_pure]
  rfl

/-- The columns of a copied batch, one by one. -/
theorem takeRows_columns {schema : Schema} {b out : RecordBatch} {rows : List ℕ}
    (h : ∀ j ∈ rows, j < b.numRows) :
    takeRows schema b rows = .ok out ↔
      out.schema = schema ∧ out.columns ≠ [] ∧
        List.Forall₂ (fun a c => a.dataType.hasBuilder ∧ c.dataType = a.dataType ∧
          c.cells = rows.map fun j => a.cells.getD j .null) b.columns out.columns := by
  have hcell : ∀ a ∈ b.columns, ∀ c : ArrayRef,
      ArrowVectorBuilder.fill a.dataType rows.length (fun j => a.value (rows.getD j 0)) = .ok c ↔
        a.dataType.hasBuilder ∧ c.dataType = a.dataType ∧
          c.cells = rows.map fun j => a.cells.getD j .null := fun a ha c =>
    fill_rows_eq_ok_iff fun j hj => b.lengths a ha ▸ h j hj
  have hunfold : takeRows schema b rows = (do
      let arrays ← b.columns.mapM fun a =>
        ArrowVectorBuilder.fill a.dataType rows.length fun j => a.value (rows.getD j 0)
      RecordBatch.create schema (arrays.map ArrowFieldVector)) := by
    simp only [takeRows, copyColumns_eq, bind_assoc, pure_bind]
  have hsup : ∀ arrays, b.columns.mapM (fun a => ArrowVectorBuilder.fill a.dataType rows.length
      fun j => a.value (rows.getD j 0)) = .ok arrays → ∀ c ∈ arrays, c.dataType.hasBuilder := by
    intro arrays harrays c hc
    obtain ⟨a, ha, hac⟩ := Outcome.mapM_mem harrays hc
    obtain ⟨hsup, htype, -⟩ := (hcell a ha c).mp hac
    rwa [htype]
  have hall : ∀ arrays, b.columns.mapM (fun a => ArrowVectorBuilder.fill a.dataType rows.length
      fun j => a.value (rows.getD j 0)) = .ok arrays ↔
      List.Forall₂ (fun a c => a.dataType.hasBuilder ∧ c.dataType = a.dataType ∧
        c.cells = rows.map fun j => a.cells.getD j .null) b.columns arrays := by
    intro arrays
    rw [Outcome.mapM_eq_ok_iff, List.forall₂_iff_zip, List.forall₂_iff_zip]
    refine and_congr_right fun _ => forall_congr' fun a => forall_congr' fun c => ?_
    exact forall_congr' fun hac => hcell a (List.of_mem_zip hac).1 c
  rw [hunfold]
  simp only [Outcome.bind_eq_ok_iff]
  constructor
  · rintro ⟨arrays, harrays, hcreate⟩
    obtain ⟨rfl, hne, rfl⟩ := (RecordBatch.create_arrays_eq_ok_iff (hsup _ harrays)).mp hcreate
    exact ⟨rfl, hne, (hall _).mp harrays⟩
  · rintro ⟨rfl, hne, hcols⟩
    have harrays := (hall _).mpr hcols
    exact ⟨_, harrays, (RecordBatch.create_arrays_eq_ok_iff (hsup _ harrays)).mpr ⟨rfl, hne, rfl⟩⟩

/-- Which batch of rows is copied: the columns' types must be supported, and be those of the
declared schema. -/
theorem takeRows_eq_ok_iff {schema : Schema} {b out : RecordBatch} {rows : List ℕ}
    (h : ∀ j ∈ rows, j < b.numRows) :
    takeRows schema b rows = .ok out ↔
      out.schema = schema ∧ b.types = schema.types ∧ schema.fields ≠ [] ∧
        (∀ t ∈ schema.types, t.hasBuilder) ∧ out.rows = rows.map b.row := by
  rw [takeRows_columns h]
  have hlen : ∀ c : RecordBatch, c.columns = [] ↔ c.schema.fields = [] := by
    intro c
    rw [← List.length_eq_zero_iff, ← List.length_eq_zero_iff, c.columns_length]
  constructor
  · rintro ⟨rfl, hne, hcols⟩
    have htypes : b.types = out.schema.types := by
      rw [← out.types_eq]
      exact Outcome.forall₂_map_eq hcols fun a c hac => hac.2.1.symm
    -- The copied columns hold the cells at the rows,
    have hcells : out.columns.map ArrayRef.cells =
        b.columns.map fun a => rows.map fun j => a.cells.getD j .null :=
      (Outcome.forall₂_map_eq hcols fun a c hac => hac.2.2.symm).symm
    have hnum : out.numRows = rows.length := by
      obtain ⟨c, hc⟩ := List.exists_mem_of_ne_nil _ hne
      obtain ⟨a, -, -, -, hac⟩ := Outcome.forall₂_mem_right hcols hc
      rw [← out.lengths c hc, hac, List.length_map]
    refine ⟨rfl, htypes, (hlen out).not.mp hne, ?_, ?_⟩
    · intro t ht
      rw [← htypes] at ht
      obtain ⟨a, ha, rfl⟩ := List.mem_map.mp ht
      obtain ⟨c, -, hsup, -⟩ := Outcome.forall₂_mem_left hcols ha
      exact hsup
    -- so the row at a position is the row of the original that was copied there.
    · rw [RecordBatch.rows, hcells, hnum]
      apply List.ext_getElem
      · simp
      · intro i hi hi'
        have hi : i < rows.length := by simpa using hi
        simp [Table.rows, Table.row, RecordBatch.row, hi]
  · rintro ⟨rfl, htypes, hne, hsup, hrows⟩
    refine ⟨rfl, (hlen out).not.mpr hne, ?_⟩
    -- Conversely the columns are determined by the rows.
    have hcells := Table.columns_rows (out.columns.map ArrayRef.cells) (n := out.numRows)
      (by simpa using out.lengths)
    rw [List.forall₂_iff_get]
    have hlens : b.columns.length = out.columns.length := by
      simpa [RecordBatch.types, out.columns_length] using congrArg List.length htypes
    refine ⟨hlens, fun i hi hi' => ?_⟩
    have htype : (b.columns[i]).dataType = (out.columns[i]).dataType := by
      have := congrArg (·[i]?) (htypes.trans out.types_eq.symm)
      simpa [RecordBatch.types, hi, hi'] using this
    refine ⟨hsup _ (htypes ▸ List.mem_map_of_mem (List.getElem_mem hi)), htype.symm, ?_⟩
    have hcell := congrArg (·[i]?) hcells
    rw [List.length_map] at hcell
    change (Table.columns out.columns.length out.rows)[i]? = _ at hcell
    rw [hrows] at hcell
    simpa [Table.columns, Table.column, RecordBatch.row, Table.row, Function.comp_def, hi, hi']
      using hcell.symm

/-! ## The operators on rows -/

/-- The first rows of a batch. -/
theorem truncate_eq_ok_iff {schema : Schema} {b out : RecordBatch} {n : ℕ} (h : n ≤ b.numRows) :
    truncate schema b n = .ok out ↔
      out.schema = schema ∧ b.types = schema.types ∧ schema.fields ≠ [] ∧
        (∀ t ∈ schema.types, t.hasBuilder) ∧ out.rows = b.rows.take n := by
  have hlt : ∀ j ∈ List.range n, j < b.numRows := fun j hj =>
    (List.mem_range.mp hj).trans_le h
  have hrows : (List.range n).map b.row = b.rows.take n := by
    change _ = ((List.range b.numRows).map b.row).take n
    rw [← List.map_take, List.take_range, min_eq_left h]
  rw [truncate, takeRows_eq_ok_iff hlt, hrows]

/-- The rows whose cell is true. -/
def keepTrue (rows : List Row) (cells : List ScalarValue) : List Row :=
  ((rows.zip cells).filter fun x => x.2 = .boolean true).map Prod.fst

/-- Keeping the true rows is filtering their numbers. -/
theorem keepTrue_range {row : ℕ → Row} {n : ℕ} {cells : List ScalarValue} (h : cells.length = n) :
    keepTrue ((List.range n).map row) cells =
      ((List.range n).filter fun i => cells[i]? = some (.boolean true)).map row := by
  have hzip : ((List.range n).map row).zip cells =
      (List.range n).map fun i => (row i, cells.getD i .null) := by
    apply List.ext_getElem
    · simp [h]
    · intro i hi hi'
      have hi : i < cells.length := by
        rw [List.length_map, List.length_range] at hi'
        omega
      simp [hi]
  unfold keepTrue
  rw [hzip, List.filter_map, List.map_map]
  have hfilter : (List.range n).filter ((fun x : Row × ScalarValue => decide (x.2 = .boolean true)) ∘
      fun i => (row i, cells.getD i .null)) =
      (List.range n).filter fun i => cells[i]? = some (.boolean true) := by
    apply List.filter_congr
    intro i hi
    have hi : i < cells.length := h ▸ List.mem_range.mp hi
    simp [hi]
  rw [hfilter]
  rfl

variable [Runtime]

/-- The rows for which the condition is true, under the declared schema. -/
theorem filterBatch_eq_ok_iff {schema : Schema} {expr : Expression} {b out : RecordBatch} :
    filterBatch schema expr b = .ok out ↔
      Outcome.Succeeds (expr.dataType b.types) ∧
        ∃ cells, b.rows.mapM (expr.evalCell b.types) = .ok cells ∧ out.schema = schema ∧
          b.types = schema.types ∧ schema.fields ≠ [] ∧ (∀ t ∈ schema.types, t.hasBuilder) ∧
          out.rows = keepTrue b.rows cells := by
  have hrange : b.rows = (List.range b.numRows).map b.row := rfl
  have hselected : ∀ selection t, expr.dataType b.types = .ok t →
      selection.Computes b.numRows t (fun k => expr.evalCell b.types (b.row k)) → ∀ rows,
      (selectedRows selection = .ok rows ↔
        ∃ cells, b.rows.mapM (expr.evalCell b.types) = .ok cells ∧
          rows = (List.range b.numRows).filter fun i => cells[i]? = some (.boolean true)) := by
    intro selection t _ hcomp rows
    have hcells : (List.range selection.len).mapM selection.value =
        b.rows.mapM (expr.evalCell b.types) := by
      rw [hcomp.len_eq, hrange, List.mapM_map]
      exact Outcome.mapM_congr fun i hi => hcomp.value_eq i (List.mem_range.mp hi)
    unfold selectedRows
    rw [hcells, Outcome.bind_pure_eq_ok_iff, hcomp.len_eq]
  have htake : ∀ cells : List ScalarValue, b.rows.mapM (expr.evalCell b.types) = .ok cells →
      ∀ rows, rows = (List.range b.numRows).filter (fun i => cells[i]? = some (.boolean true)) →
      (takeRows schema b rows = .ok out ↔ out.schema = schema ∧
        b.types = schema.types ∧ schema.fields ≠ [] ∧ (∀ t ∈ schema.types, t.hasBuilder) ∧
          out.rows = keepTrue b.rows cells) := by
    rintro cells hcells rows rfl
    have hlen : cells.length = b.numRows := by simpa using Outcome.mapM_length hcells
    rw [takeRows_eq_ok_iff fun j hj => List.mem_range.mp (List.mem_of_mem_filter hj), hrange,
      keepTrue_range hlen]
  unfold filterBatch
  simp only [Outcome.bind_eq_ok_iff]
  constructor
  · rintro ⟨selection, hsel, rows, hrows, hout⟩
    obtain ⟨t, ht, hcomp⟩ := Expression.evaluate_computes hsel
    obtain ⟨cells, hcells, hrows⟩ := (hselected selection t ht hcomp rows).mp hrows
    exact ⟨⟨t, ht⟩, cells, hcells, (htake cells hcells rows hrows).mp hout⟩
  · rintro ⟨⟨t, ht⟩, cells, hcells, hout⟩
    have heval : Outcome.Succeeds (expr.evaluate b) :=
      Expression.evaluate_succeeds ht fun k hk =>
        Outcome.mapM_succeeds_iff.mp ⟨cells, hcells⟩ _
          (RecordBatch.mem_rows_iff.mpr ⟨k, hk, rfl⟩)
    obtain ⟨selection, hsel, hcomp⟩ := Expression.exists_computes ht heval
    exact ⟨selection, hsel, _, (hselected selection t ht hcomp _).mpr ⟨cells, hcells, rfl⟩,
      (htake cells hcells _ rfl).mpr hout⟩

/-- A projected batch consists of the values of the expressions. -/
theorem projectBatch_ok {schema : Schema} {exprs : List Expression} {b out : RecordBatch}
    (h : projectBatch schema exprs b = .ok out) :
    out.schema = schema ∧ exprs ≠ [] ∧
      exprs.mapM (fun e => e.dataType b.types) = .ok schema.types ∧
      (∀ t ∈ schema.types, t.hasBuilder) ∧
      b.rows.mapM (fun r => exprs.mapM fun e => e.evalCell b.types r) = .ok out.rows := by
  obtain ⟨cols, hcols, hcreate⟩ := Outcome.bind_eq_ok_iff.mp h
  have hall := Outcome.mapM_eq_ok_iff.mp hcols
  obtain ⟨hschema, hne, -⟩ := RecordBatch.create_eq_ok_iff.mp hcreate
  obtain ⟨hcol, htypes⟩ := RecordBatch.create_column hcreate
  have htype : exprs.mapM (fun e => e.dataType b.types) = .ok schema.types := by
    rw [← htypes]
    refine Outcome.mapM_eq_ok_map_of_forall₂ hall fun e cv _ _ hcv => ?_
    obtain ⟨t, ht, hcomp⟩ := Expression.evaluate_computes hcv
    rw [ht, hcomp.dataType_eq]
  obtain ⟨cv, hcv⟩ := List.exists_mem_of_ne_nil _ hne
  obtain ⟨e, he, hecv⟩ := Outcome.mapM_mem hcols hcv
  have hnum : b.numRows = out.numRows := by
    obtain ⟨t, -, hcomp⟩ := Expression.evaluate_computes hecv
    rw [← hcomp.len_eq, (hcol cv hcv).1]
  refine ⟨hschema, List.ne_nil_of_mem he, htype, ?_, ?_⟩
  · intro t ht
    rw [← htypes] at ht
    obtain ⟨cv, hcv, rfl⟩ := List.mem_map.mp ht
    exact (hcol cv hcv).2
  · rw [show b.rows = (List.range b.numRows).map b.row from rfl,
      show out.rows = (List.range out.numRows).map out.row from rfl, List.mapM_map, ← hnum]
    refine Outcome.mapM_eq_ok_map fun i hi => ?_
    have hi : i < b.numRows := List.mem_range.mp hi
    rw [← RecordBatch.create_row hcreate (hnum ▸ hi)]
    refine Outcome.mapM_congr_forall₂ hall fun e cv hcv => ?_
    obtain ⟨t, -, hcomp⟩ := Expression.evaluate_computes hcv
    exact (hcomp.value_eq i hi).symm

/-- The rows of values of the expressions, whose types must be those of the declared schema. -/
theorem projectBatch_eq_ok_iff {schema : Schema} {exprs : List Expression} {b out : RecordBatch} :
    projectBatch schema exprs b = .ok out ↔
      out.schema = schema ∧ exprs ≠ [] ∧
        exprs.mapM (fun e => e.dataType b.types) = .ok schema.types ∧
        (∀ t ∈ schema.types, t.hasBuilder) ∧
        b.rows.mapM (fun r => exprs.mapM fun e => e.evalCell b.types r) = .ok out.rows := by
  refine ⟨projectBatch_ok, ?_⟩
  rintro ⟨hschema, hne, htypes, hsup, hrows⟩
  have hcell : ∀ e ∈ exprs, ∀ k < b.numRows,
      Outcome.Succeeds (e.evalCell b.types (b.row k)) := by
    intro e he k hk
    have hrow := Outcome.mapM_succeeds_iff.mp ⟨_, hrows⟩ (b.row k)
      (RecordBatch.mem_rows_iff.mpr ⟨k, hk, rfl⟩)
    exact Outcome.mapM_succeeds_iff.mp hrow e he
  have heval : Outcome.Succeeds (exprs.mapM fun e => e.evaluate b) := by
    rw [Outcome.mapM_succeeds_iff]
    intro e he
    obtain ⟨t, ht⟩ := Outcome.mapM_succeeds_iff.mp ⟨_, htypes⟩ e he
    exact Expression.evaluate_succeeds ht (hcell e he)
  obtain ⟨cols, hcols⟩ := heval
  have hall := Outcome.mapM_eq_ok_iff.mp hcols
  have hcoltypes : cols.map ColumnVector.dataType = schema.types := by
    have := Outcome.mapM_eq_ok_map_of_forall₂ hall (f := fun e => e.dataType b.types)
      (g := ColumnVector.dataType) fun e cv _ _ hcv => by
        obtain ⟨t, ht, hcomp⟩ := Expression.evaluate_computes hcv
        rw [ht, hcomp.dataType_eq]
    simpa [htypes, eq_comm] using this
  have hcolsne : cols ≠ [] := by
    rintro rfl
    exact hne (List.length_eq_zero_iff.mp (by simpa using (Outcome.mapM_length hcols).symm))
  obtain ⟨out', hout', -⟩ := RecordBatch.create_succeeds (n := b.numRows) hcolsne hcoltypes
    fun cv hcv => by
      obtain ⟨e, he, hecv⟩ := Outcome.mapM_mem hcols hcv
      obtain ⟨t, ht, hcomp⟩ := Expression.evaluate_computes hecv
      refine ⟨hsup _ (hcoltypes ▸ List.mem_map_of_mem hcv), hcomp.len_eq, fun i hi => ?_⟩
      obtain ⟨v, hv⟩ := hcell e he i hi
      refine ⟨v, (hcomp.value_eq i hi).trans hv, ?_⟩
      rw [hcomp.dataType_eq]
      exact Expression.evalCell_fitsIn (b.row_fits i) ht hv
  -- The batch that is built has these rows, and a batch is determined by its rows.
  have hproject : projectBatch schema exprs b = .ok out' := by
    simp only [projectBatch, hcols, Outcome.ok_bind, hout']
  obtain ⟨hschema', -, -, -, hrows'⟩ := projectBatch_ok hproject
  rw [hproject, RecordBatch.ext_rows (hschema'.trans hschema.symm)
    (by simpa [hrows, eq_comm] using hrows')]

end RQuery
