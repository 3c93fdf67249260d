import RQuery.Datatypes.Schema
import RQuery.Common.Table

/-!
# Columns and record batches

An `ArrayRef` is a materialised arrow array: a type and its cells. A `ColumnVector` is the trait
object of the same name, known only through its three methods. `RecordBatch` carries what
`RecordBatch::try_new` checks, so that a batch whose columns do not match its schema cannot be
built.

`columnToArray_eq_ok_iff` and `create_eq_ok_iff` say when materialising succeeds and what it
returns; the operators are reasoned about through them.
-/

namespace RQuery

variable [FloatModel]

instance : Inhabited ScalarValue := ⟨.null⟩

@[simp] theorem ScalarValue.default_eq : (default : ScalarValue) = .null := rfl

/-- A row: one cell for each column. -/
abbrev Row := List ScalarValue

/-- The cells of the row fit the column types. -/
def RowFits (types : List DataType) (row : Row) : Prop :=
  List.Forall₂ (fun t v => t.hasBuilder → v.FitsIn t) types row

/-- Every cell of a row that fits does so in its column. -/
theorem RowFits.getElem {types : List DataType} {row : Row} (h : RowFits types row) {i : ℕ}
    {t : DataType} {v : ScalarValue} (ht : types[i]? = some t) (hv : row[i]? = some v)
    (hsup : t.hasBuilder) : v.FitsIn t := by
  obtain ⟨hi, rfl⟩ := List.getElem?_eq_some_iff.mp ht
  obtain ⟨hi', rfl⟩ := List.getElem?_eq_some_iff.mp hv
  simpa using h.get hi hi' hsup

/-- Replacing cells by cells that fit the same types keeps a row fitting. -/
theorem RowFits.mono {types : List DataType} {row row' : Row} (h : RowFits types row)
    (hlen : row'.length = row.length)
    (hcells : ∀ (i : ℕ) v v', row[i]? = some v → row'[i]? = some v' →
      ∀ t, v.FitsIn t → v'.FitsIn t) : RowFits types row' := by
  unfold RowFits at h ⊢
  rw [List.forall₂_iff_get] at h ⊢
  refine ⟨h.1.trans hlen.symm, fun i hi hi' hsup => ?_⟩
  have hi'' : i < row.length := hlen ▸ hi'
  exact hcells i _ _ (List.getElem?_eq_getElem hi'') (List.getElem?_eq_getElem hi') _
    (h.2 i hi hi'' hsup)

/-- A materialised array. Its non-null cells are of its type. A type without a builder has cells
too (a reader may produce them), but they cannot be read; any non-null value stands for one. -/
structure ArrayRef where
  dataType : DataType
  cells : List ScalarValue
  fits : dataType.hasBuilder → ∀ v ∈ cells, v.FitsIn dataType
  deriving DecidableEq

/-- Cells that fit the type, whether or not it has a builder. -/
theorem ArrayRef.fits_of_forall {t : DataType} {cells : List ScalarValue}
    (h : ∀ v ∈ cells, v.FitsIn t) : t.hasBuilder → ∀ v ∈ cells, v.FitsIn t := fun _ => h

/-- Arrays are their type and their cells. -/
theorem ArrayRef.ext {a b : ArrayRef} (ht : a.dataType = b.dataType) (hc : a.cells = b.cells) :
    a = b := by
  obtain ⟨t, cells, _⟩ := a
  obtain ⟨t', cells', _⟩ := b
  simp only at ht hc
  subst ht hc
  rfl

/-- `Int32Array::from`. -/
def Int32Array (values : List Int32) : ArrayRef where
  dataType := .int32
  cells := values.map .int32
  fits _ v hv := by
    obtain ⟨n, -, rfl⟩ := List.mem_map.mp hv
    exact .inr rfl

/-- `Int64Array::from`. -/
def Int64Array (values : List Int64) : ArrayRef where
  dataType := .int64
  cells := values.map .int64
  fits _ v hv := by
    obtain ⟨n, -, rfl⟩ := List.mem_map.mp hv
    exact .inr rfl

/-- The trait `ColumnVector`: `data_type`, `len` and `value`. -/
structure ColumnVector where
  dataType : DataType
  len : ℕ
  value : ℕ → Result ScalarValue

/-- `ArrowFieldVector::value`. -/
def ArrayRef.value (a : ArrayRef) (i : ℕ) : Result ScalarValue := do
  let v ← index a.cells i
  if v.isNull then
    return .null
  else if a.dataType.hasBuilder then
    return v
  else
    throw (.unsupported "ArrowFieldVector::value")

/-- `ArrowFieldVector::new`: an array as a column. -/
def ArrowFieldVector (field : ArrayRef) : ColumnVector where
  dataType := field.dataType
  len := field.cells.length
  value := field.value

/-- A column whose every row is the same value. -/
def LiteralValueVector (arrowType : DataType) (value : ScalarValue) (size : ℕ) : ColumnVector where
  dataType := arrowType
  len := size
  value i := if i < size then .ok value else .error (.indexOutOfBounds i size)

/-! ## The vector builder -/

/-- An array under construction. -/
structure ArrowVectorBuilder where
  array : ArrayRef
  supported : array.dataType.hasBuilder

namespace ArrowVectorBuilder

/-- A builder for a supported type. -/
def new (t : DataType) : Result ArrowVectorBuilder :=
  if h : t.hasBuilder then
    .ok ⟨⟨t, [], by simp⟩, h⟩
  else
    .error (.unsupported "ArrowVectorBuilder::new")

/-- Append one value: null to any builder, any other value to a builder of its type. -/
def appendValue (b : ArrowVectorBuilder) (v : ScalarValue) : Result ArrowVectorBuilder :=
  if h : v.FitsIn b.array.dataType then
    .ok {
      array := {
        dataType := b.array.dataType
        cells := b.array.cells ++ [v]
        fits := fun ht w hw => by
          rcases List.mem_append.mp hw with hw | hw
          · exact b.array.fits ht w hw
          · exact List.mem_singleton.mp hw ▸ h }
      supported := b.supported }
  else
    .error (.typeMismatch "ArrowVectorBuilder::append_value")

def build (b : ArrowVectorBuilder) : ArrayRef := b.array

/-- Fill a builder of type `t` with `n` computed values: the loop `for i in 0..n` around
`append_value`, as every expression and `column_to_array` writes it. -/
def fill (t : DataType) (n : ℕ) (f : ℕ → Result ScalarValue) : Result ArrayRef := do
  let b ← (List.range n).foldlM (fun b i => do b.appendValue (← f i)) (← new t)
  return b.build

/-- A value that fits is appended, and no other. -/
theorem appendValue_eq_ok_iff {b c : ArrowVectorBuilder} {v : ScalarValue} :
    b.appendValue v = .ok c ↔
      v.FitsIn b.array.dataType ∧ c.array.dataType = b.array.dataType ∧
        c.array.cells = b.array.cells ++ [v] := by
  unfold appendValue
  split
  · rename_i h
    obtain ⟨⟨t, cells, hfits⟩, hsup⟩ := c
    simp only [Except.ok.injEq, mk.injEq, ArrayRef.mk.injEq, h, true_and]
    exact and_congr eq_comm eq_comm
  · simp_all

/-- The first `n` steps of the loop succeed exactly when the values exist and fit, and they leave
the values in order. -/
theorem foldlM_eq_ok_iff {f : ℕ → Result ScalarValue} {b c : ArrowVectorBuilder} {n : ℕ} :
    (List.range n).foldlM (fun b i => do b.appendValue (← f i)) b = .ok c ↔
      c.array.dataType = b.array.dataType ∧
        ∃ vs : List ScalarValue, vs.length = n ∧ c.array.cells = b.array.cells ++ vs ∧
          ∀ i v, vs[i]? = some v → f i = .ok v := by
  -- On the number of rows, from the last one: a builder's cells before it are those of `n` rows.
  induction n generalizing c with
  | zero =>
    simp only [List.range_zero, List.foldlM_nil, Outcome.pure_eq_ok, Except.ok.injEq]
    constructor
    · rintro rfl
      exact ⟨rfl, [], rfl, by simp, by simp⟩
    · rintro ⟨ht, vs, hvs, hcells, -⟩
      obtain rfl := List.length_eq_zero_iff.mp hvs
      obtain ⟨⟨t, cells, _⟩, _⟩ := b
      obtain ⟨⟨t', cells', _⟩, _⟩ := c
      simp only [List.append_nil] at ht hcells
      subst ht hcells
      rfl
  | succ n ih =>
    rw [List.range_succ, Outcome.foldlM_append_eq_ok_iff]
    simp only [List.foldlM_cons, List.foldlM_nil, bind_pure, ih, Outcome.bind_eq_ok_iff,
      appendValue_eq_ok_iff]
    constructor
    · rintro ⟨m, ⟨ht, vs, hlen, hcells, hvs⟩, v, hv, -, ht', hcells'⟩
      refine ⟨ht'.trans ht, vs ++ [v], by simp [hlen], by rw [hcells', hcells]; simp, ?_⟩
      intro i w hw
      rcases Nat.lt_trichotomy i n with hi | rfl | hi
      · exact hvs i w (by rwa [List.getElem?_append_left (by omega)] at hw)
      · obtain rfl : v = w := by simpa [← hlen] using hw
        exact hv
      · rw [List.getElem?_eq_none (by simp; omega)] at hw
        simp at hw
    · rintro ⟨ht, vs, hlen, hcells, hvs⟩
      obtain ⟨us, v, rfl⟩ : ∃ us v, vs = us ++ [v] :=
        ⟨vs.dropLast, vs.getLast (by rintro rfl; simp at hlen),
          (List.dropLast_append_getLast _).symm⟩
      have hlen : us.length = n := by simpa using hlen
      have hfit : ∀ w ∈ c.array.cells, w.FitsIn c.array.dataType := c.array.fits c.supported
      rw [ht, hcells] at hfit
      -- The builder after `n` rows is cut out of the last one, whose cells all fit.
      refine ⟨⟨⟨b.array.dataType, b.array.cells ++ us, fun _ w hw => hfit w ?_⟩, b.supported⟩,
        ⟨rfl, us, hlen, rfl, ?_⟩, v, hvs n v (by simp [← hlen]), hfit v (by simp), ht, ?_⟩
      · rcases List.mem_append.mp hw with hw | hw <;> simp [hw]
      · intro i w hw
        have hi : i < us.length := (List.getElem?_eq_some_iff.mp hw).1
        exact hvs i w (by rw [List.getElem?_append_left hi, hw])
      · simp [hcells]

/-- Filling a builder returns an array exactly when the type is supported and the array's cells
are the computed values. -/
theorem fill_eq_ok_iff {t : DataType} {n : ℕ} {f : ℕ → Result ScalarValue} {a : ArrayRef} :
    fill t n f = .ok a ↔
      t.hasBuilder ∧ a.dataType = t ∧ a.cells.length = n ∧
        ∀ i v, a.cells[i]? = some v → f i = .ok v := by
  unfold fill new
  split
  · rename_i ht
    simp only [Outcome.ok_bind, Outcome.bind_eq_ok_iff, foldlM_eq_ok_iff, Outcome.pure_eq_ok,
      Except.ok.injEq, build, ht, true_and]
    constructor
    · rintro ⟨c, ⟨hc, vs, hlen, hcells, hvs⟩, rfl⟩
      obtain rfl : c.array.cells = vs := by simpa using hcells
      exact ⟨hc, hlen, hvs⟩
    · rintro ⟨rfl, hlen, hvs⟩
      exact ⟨⟨a, ht⟩, ⟨rfl, a.cells, hlen, by simp, hvs⟩, rfl⟩
  · rename_i ht
    simp [ht]

/-- The loop computes only the values of its rows. -/
theorem fill_congr {t : DataType} {n : ℕ} {f g : ℕ → Result ScalarValue}
    (h : ∀ i < n, f i = g i) : fill t n f = fill t n g := by
  have hloop : ∀ (rows : List ℕ) (b : ArrowVectorBuilder), (∀ i ∈ rows, f i = g i) →
      rows.foldlM (fun b i => do b.appendValue (← f i)) b =
        rows.foldlM (fun b i => do b.appendValue (← g i)) b := by
    intro rows
    induction rows with
    | nil => exact fun _ _ => rfl
    | cons i rows ih =>
      intro b hrows
      rw [List.foldlM_cons, List.foldlM_cons, hrows i List.mem_cons_self]
      exact bind_congr fun c => ih c fun j hj => hrows j (List.mem_cons_of_mem _ hj)
  unfold fill
  exact bind_congr fun b => by rw [hloop _ b fun i hi => h i (List.mem_range.mp hi)]

/-- Filling succeeds when every value exists and fits the type. -/
theorem fill_succeeds {t : DataType} {n : ℕ} {f : ℕ → Result ScalarValue} (ht : t.hasBuilder)
    (h : ∀ i < n, ∃ v, f i = .ok v ∧ v.FitsIn t) :
    ∃ a, fill t n f = .ok a := by
  choose! g hg using h
  refine ⟨⟨t, (List.range n).map g, fun _ v hv => ?_⟩, ?_⟩
  · obtain ⟨i, hi, rfl⟩ := List.mem_map.mp hv
    exact (hg i (List.mem_range.mp hi)).2
  · rw [fill_eq_ok_iff]
    refine ⟨ht, rfl, by simp, ?_⟩
    intro i v hv
    simp only [List.getElem?_map, Option.map_eq_some_iff] at hv
    obtain ⟨j, hj, rfl⟩ := hv
    obtain ⟨hjn, rfl⟩ := List.getElem?_eq_some_iff.mp hj
    simpa using (hg i (by simpa using hjn)).1

end ArrowVectorBuilder

/-! ## Materialising columns -/

/-- Materialise a column by copying each value through the builder of its type. -/
def columnToArray (col : ColumnVector) : Result ArrayRef :=
  ArrowVectorBuilder.fill col.dataType col.len col.value

/-- A column is copied to an array of its type with its values. -/
theorem columnToArray_eq_ok_iff {col : ColumnVector} {a : ArrayRef} :
    columnToArray col = .ok a ↔
      col.dataType.hasBuilder ∧ a.dataType = col.dataType ∧ a.cells.length = col.len ∧
        ∀ i v, a.cells[i]? = some v → col.value i = .ok v :=
  ArrowVectorBuilder.fill_eq_ok_iff

/-- A cell of an array of a supported type reads back. -/
theorem ArrayRef.value_eq_ok {a : ArrayRef} (ha : a.dataType.hasBuilder) {i : ℕ} {v : ScalarValue}
    (h : a.cells[i]? = some v) : a.value i = .ok v := by
  cases v <;> simp [ArrayRef.value, index, h, ha, ScalarValue.isNull]

/-- Materialising an array of a supported type returns the array. -/
theorem columnToArray_arrowFieldVector {a : ArrayRef} (ha : a.dataType.hasBuilder) :
    columnToArray (ArrowFieldVector a) = .ok a := by
  rw [columnToArray_eq_ok_iff]
  exact ⟨ha, rfl, rfl, fun _ _ h => a.value_eq_ok ha h⟩

/-! ## Record batches -/

/-- A batch of columns sharing a schema. -/
structure RecordBatch where
  schema : Schema
  columns : List ArrayRef
  numRows : ℕ
  types_eq : columns.map ArrayRef.dataType = schema.types
  lengths : ∀ c ∈ columns, c.cells.length = numRows
  deriving DecidableEq

namespace RecordBatch

/-- Row `i` of the batch. -/
def row (b : RecordBatch) (i : ℕ) : Row := Table.row (b.columns.map ArrayRef.cells) i

/-- The rows of the batch, in order. -/
def rows (b : RecordBatch) : List Row := Table.rows b.numRows (b.columns.map ArrayRef.cells)

/-- The column types of the batch. -/
def types (b : RecordBatch) : List DataType := b.columns.map ArrayRef.dataType

/-- `record_batch::field`: one column as a column vector. -/
def field (b : RecordBatch) (i : ℕ) : Result ColumnVector := do
  return ArrowFieldVector (← index b.columns i)

/-- The panic of a batch with more or fewer columns than its schema has fields. -/
def columnCountMismatch : Panic :=
  .invalidBatch "number of columns must match number of fields in schema"

/-- `RecordBatch::try_new`. Every field of a converted schema is nullable, so nulls are never
refused. -/
def tryNew (schema : Schema) (arrays : List ArrayRef) : Result RecordBatch :=
  if schema.fields.length ≠ arrays.length then
    .error columnCountMismatch
  else
    match arrays.head? with
    | none => .error (.invalidBatch "must either specify a row count or at least one column")
    | some first =>
      if hlen : ∀ c ∈ arrays, c.cells.length = first.cells.length then
        if htypes : arrays.map ArrayRef.dataType = schema.types then
          .ok ⟨schema, arrays, first.cells.length, htypes, hlen⟩
        else
          .error (.invalidBatch "column types must match schema types")
      else
        .error (.invalidBatch "all columns in a record batch must have the same length")

/-- `record_batch::create`: materialise the columns and build a batch of them. -/
def create (schema : Schema) (columns : List ColumnVector) : Result RecordBatch := do
  tryNew schema (← columns.mapM columnToArray)

/-- A batch has as many rows as it says. -/
@[simp] theorem rows_length (b : RecordBatch) : b.rows.length = b.numRows := by
  simp [rows]

/-- A batch has a column for each field. -/
theorem columns_length (b : RecordBatch) : b.columns.length = b.schema.fields.length := by
  simpa using congrArg List.length b.types_eq

/-- The columns are of the types of the schema. -/
theorem types_eq_schema (b : RecordBatch) : b.types = b.schema.types := b.types_eq

/-- A row by its number. -/
theorem rows_getElem? (b : RecordBatch) {i : ℕ} (h : i < b.numRows) :
    b.rows[i]? = some (b.row i) :=
  Table.rows_getElem? _ h

/-- The rows are those with a number below their count. -/
theorem mem_rows_iff {b : RecordBatch} {r : Row} : r ∈ b.rows ↔ ∃ i < b.numRows, b.row i = r := by
  simp [rows, row, Table.rows]

/-- A cell of a row is the cell of its column. -/
theorem row_getElem? (b : RecordBatch) {i j : ℕ} {c : ArrayRef} (hi : i < b.numRows)
    (hj : b.columns[j]? = some c) : (b.row i)[j]? = c.cells[i]? := by
  have hlen := b.lengths c (List.mem_of_getElem? hj)
  simp [row, hj, hlen, hi]

/-- Every row of a batch fits its column types. -/
theorem row_fits (b : RecordBatch) (i : ℕ) : RowFits b.types (b.row i) := by
  unfold RowFits types row Table.row
  rw [List.map_map, List.forall₂_map_left_iff, List.forall₂_map_right_iff, List.forall₂_same]
  intro a _ hsup
  by_cases hi : i < a.cells.length
  · simpa [hi] using a.fits hsup _ (List.getElem_mem hi)
  · exact .inl (by simp [List.getElem?_eq_none (not_lt.mp hi)])

/-- A batch is made of arrays that match the schema and have one length. -/
theorem tryNew_eq_ok_iff {s : Schema} {arrays : List ArrayRef} {b : RecordBatch} :
    tryNew s arrays = .ok b ↔ b.schema = s ∧ b.columns = arrays ∧ arrays ≠ [] := by
  constructor
  · intro h
    unfold tryNew at h
    split at h
    · cases h
    cases arrays with
    | nil => cases h
    | cons a as =>
      simp only [List.head?_cons] at h
      split at h
      · split at h
        · cases h
          simp
        · cases h
      · cases h
  · rintro ⟨rfl, rfl, hne⟩
    unfold tryNew
    rw [if_neg (by simpa using b.columns_length.symm)]
    obtain ⟨s, cols, n, ht, hl⟩ := b
    cases cols with
    | nil => exact absurd rfl hne
    | cons a as =>
      obtain rfl : a.cells.length = n := hl a List.mem_cons_self
      simp only [List.head?_cons, dif_pos hl, dif_pos ht]

/-- Which batches `create` returns. -/
theorem create_eq_ok_iff {s : Schema} {cols : List ColumnVector} {b : RecordBatch} :
    create s cols = .ok b ↔
      b.schema = s ∧ cols ≠ [] ∧
        List.Forall₂ (fun col a => columnToArray col = .ok a) cols b.columns := by
  unfold create
  simp only [Outcome.bind_eq_ok_iff, tryNew_eq_ok_iff, Outcome.mapM_eq_ok_iff]
  constructor
  · rintro ⟨arrays, hall, rfl, rfl, hne⟩
    refine ⟨rfl, ?_, hall⟩
    rintro rfl
    exact hne (List.forall₂_nil_left_iff.mp hall)
  · rintro ⟨rfl, hne, hall⟩
    refine ⟨b.columns, hall, rfl, rfl, fun h => hne ?_⟩
    rw [h] at hall
    exact List.forall₂_nil_right_iff.mp hall

/-- The number of arrays is checked against the number of fields. -/
theorem tryNew_eq_columnCountMismatch_iff {s : Schema} {arrays : List ArrayRef} :
    tryNew s arrays = .error columnCountMismatch ↔ s.fields.length ≠ arrays.length := by
  unfold tryNew
  split
  · rename_i h
    exact iff_of_true rfl h
  · rename_i h
    refine iff_of_false (fun herr => ?_) h
    revert herr
    split
    · simp [columnCountMismatch]
    · split
      · split <;> simp [columnCountMismatch]
      · simp [columnCountMismatch]

/-- Arrays are materialised as they are. -/
theorem create_arrays {s : Schema} {arrays : List ArrayRef}
    (h : ∀ a ∈ arrays, a.dataType.hasBuilder) :
    create s (arrays.map ArrowFieldVector) = tryNew s arrays := by
  have hmap : arrays.mapM (columnToArray ∘ ArrowFieldVector) = .ok arrays := by
    have := Outcome.mapM_eq_ok_map (f := columnToArray ∘ ArrowFieldVector) (g := id)
      fun a ha => columnToArray_arrowFieldVector (h a ha)
    rwa [List.map_id] at this
  rw [create, List.mapM_map, hmap, Outcome.ok_bind]

/-- A batch created from materialised arrays has these arrays for columns. -/
theorem create_arrays_eq_ok_iff {s : Schema} {arrays : List ArrayRef} {b : RecordBatch}
    (h : ∀ a ∈ arrays, a.dataType.hasBuilder) :
    create s (arrays.map ArrowFieldVector) = .ok b ↔
      b.schema = s ∧ arrays ≠ [] ∧ b.columns = arrays := by
  rw [create_arrays h, tryNew_eq_ok_iff]
  constructor
  · rintro ⟨rfl, rfl, hne⟩
    exact ⟨rfl, hne, rfl⟩
  · rintro ⟨rfl, hne, rfl⟩
    exact ⟨rfl, rfl, hne⟩

/-- The rows of a created batch are the rows of values of its columns. -/
theorem create_row {s : Schema} {cols : List ColumnVector} {b : RecordBatch}
    (h : create s cols = .ok b) {i : ℕ} (hi : i < b.numRows) :
    cols.mapM (fun col => col.value i) = .ok (b.row i) := by
  obtain ⟨-, -, hall⟩ := create_eq_ok_iff.mp h
  simp only [row, Table.row, List.map_map]
  refine Outcome.mapM_eq_ok_map_of_forall₂ hall ?_
  intro col a _ ha hcol
  have hi' : i < a.cells.length := by rwa [b.lengths a ha]
  exact (columnToArray_eq_ok_iff.mp hcol).2.2.2 i _ (by simp [hi'])

/-- The columns a batch was created from are as long as the batch, and of its schema's types. -/
theorem create_column {s : Schema} {cols : List ColumnVector} {b : RecordBatch}
    (h : create s cols = .ok b) :
    (∀ col ∈ cols, col.len = b.numRows ∧ col.dataType.hasBuilder) ∧
      cols.map ColumnVector.dataType = s.types := by
  obtain ⟨rfl, -, hall⟩ := create_eq_ok_iff.mp h
  constructor
  · intro col hcol
    obtain ⟨a, ha, hca⟩ := Outcome.forall₂_mem_left hall hcol
    obtain ⟨hsup, -, hlen, -⟩ := columnToArray_eq_ok_iff.mp hca
    exact ⟨hlen.symm.trans (b.lengths a ha), hsup⟩
  · rw [← b.types_eq]
    exact Outcome.forall₂_map_eq hall fun _ _ hca => (columnToArray_eq_ok_iff.mp hca).2.1.symm

/-- `create` returns a batch when the columns have the schema's types, one common length, and
values that fit. -/
theorem create_succeeds {s : Schema} {cols : List ColumnVector} {n : ℕ} (hne : cols ≠ [])
    (htypes : cols.map ColumnVector.dataType = s.types)
    (hcols : ∀ col ∈ cols, col.dataType.hasBuilder ∧ col.len = n ∧
      ∀ i < n, ∃ v, col.value i = .ok v ∧ v.FitsIn col.dataType) :
    ∃ b, create s cols = .ok b ∧ b.numRows = n := by
  have harr : Outcome.Succeeds (cols.mapM columnToArray) := by
    rw [Outcome.mapM_succeeds_iff]
    intro col hcol
    obtain ⟨hsup, hlen, hvals⟩ := hcols col hcol
    exact ArrowVectorBuilder.fill_succeeds hsup (by rwa [hlen])
  obtain ⟨arrays, harr⟩ := harr
  have hall := Outcome.mapM_eq_ok_iff.mp harr
  have hlens : ∀ a ∈ arrays, a.cells.length = n := by
    intro a ha
    obtain ⟨col, hcol, hca⟩ := Outcome.mapM_mem harr ha
    rw [(columnToArray_eq_ok_iff.mp hca).2.2.1, (hcols col hcol).2.1]
  have htypes' : arrays.map ArrayRef.dataType = s.types := by
    rw [← htypes]
    exact (Outcome.forall₂_map_eq hall fun _ _ hca =>
      (columnToArray_eq_ok_iff.mp hca).2.1.symm).symm
  exact ⟨⟨s, arrays, n, htypes', hlens⟩, create_eq_ok_iff.mpr ⟨rfl, hne, hall⟩, rfl⟩

/-! ## Batches of given rows -/

/-- A batch of the given rows. -/
def ofRows (schema : Schema) (rows : List Row) (h : ∀ r ∈ rows, RowFits schema.types r) :
    RecordBatch where
  schema := schema
  columns := List.ofFn fun i : Fin schema.fields.length =>
    { dataType := (schema.fields.get i).dataType
      cells := Table.column rows i
      fits := fun hsup v hv => by
        obtain ⟨r, hr, rfl⟩ := List.mem_map.mp hv
        have hfit := h r hr
        have hlen : r.length = schema.fields.length := by simpa using hfit.length_eq.symm
        have hi : (i : ℕ) < r.length := lt_of_lt_of_eq i.isLt hlen.symm
        have hti : schema.types[(i : ℕ)]? = some (schema.fields.get i).dataType := by
          simp [Schema.types]
        rw [List.getD_eq_getElem r default hi]
        exact hfit.getElem hti (List.getElem?_eq_getElem hi) hsup }
  numRows := rows.length
  types_eq := by
    apply List.ext_getElem
    · simp [Schema.types]
    · intro i h₁ h₂
      simp [Schema.types]
  lengths c hc := by
    obtain ⟨i, rfl⟩ := List.mem_ofFn.mp hc
    simp

/-- The batch that is made of rows has these rows. -/
theorem ofRows_rows (schema : Schema) (rows : List Row) (h : ∀ r ∈ rows, RowFits schema.types r) :
    (ofRows schema rows h).rows = rows := by
  have hcells : (ofRows schema rows h).columns.map ArrayRef.cells =
      Table.columns schema.fields.length rows := by
    apply List.ext_getElem
    · simp [ofRows]
    · intro i h₁ h₂
      simp [ofRows, Table.columns]
  rw [RecordBatch.rows, hcells]
  exact Table.rows_columns fun r hr => by simpa using (h r hr).length_eq.symm

/-- The rows of a batch fit its schema. -/
theorem rows_fit (b : RecordBatch) : ∀ r ∈ b.rows, RowFits b.schema.types r := by
  intro r hr
  obtain ⟨i, -, rfl⟩ := mem_rows_iff.mp hr
  exact b.types_eq_schema ▸ b.row_fits i

/-- A batch is determined by its schema and rows. -/
theorem ext_rows {b c : RecordBatch} (hs : b.schema = c.schema) (hrows : b.rows = c.rows) :
    b = c := by
  have hnum : b.numRows = c.numRows := by
    rw [← b.rows_length, ← c.rows_length, hrows]
  have hlen : b.columns.length = c.columns.length := by
    rw [b.columns_length, c.columns_length, hs]
  -- A column is its cells and its type: the cells are read off the rows, the types off the schema.
  have hcells : b.columns.map ArrayRef.cells = c.columns.map ArrayRef.cells := by
    rw [← Table.columns_rows (b.columns.map ArrayRef.cells) (n := b.numRows)
        (by simpa using b.lengths),
      ← Table.columns_rows (c.columns.map ArrayRef.cells) (n := c.numRows)
        (by simpa using c.lengths), List.length_map, List.length_map, hlen]
    exact congrArg (Table.columns c.columns.length) hrows
  have htypes : b.columns.map ArrayRef.dataType = c.columns.map ArrayRef.dataType := by
    rw [b.types_eq, c.types_eq, hs]
  have hcols : b.columns = c.columns := by
    apply List.ext_getElem hlen
    intro i hi hi'
    have hcell := congrArg (·[i]?) hcells
    have htype := congrArg (·[i]?) htypes
    simp only [List.getElem?_map, List.getElem?_eq_getElem hi, List.getElem?_eq_getElem hi',
      Option.map_some, Option.some.injEq] at hcell htype
    exact ArrayRef.ext htype hcell
  obtain ⟨s, cols, n, _, _⟩ := b
  obtain ⟨s', cols', n', _, _⟩ := c
  simp only at hs hnum hcols
  subst hs hnum hcols
  rfl

/-! ## Gathering columns -/

/-- `c` consists of the columns of `b` at the positions `idx`, in that order. -/
structure Gathers (idx : List ℕ) (b c : RecordBatch) : Prop where
  schema_eq : b.schema.project idx = .ok c.schema
  columns_eq : idx.mapM (index b.columns) = .ok c.columns
  numRows_eq : c.numRows = b.numRows

/-- Only columns of the batch are gathered. -/
theorem Gathers.lt {idx : List ℕ} {b c : RecordBatch} (h : Gathers idx b c) :
    ∀ i ∈ idx, i < b.columns.length := by
  intro i hi
  obtain ⟨a, -, ha⟩ := Outcome.mapM_mem_left h.columns_eq hi
  exact index_succeeds_iff.mp ⟨a, ha⟩

/-- Columns picked from a batch hold the cells at the same positions of every row. -/
theorem rows_of_columns {idx : List ℕ} {b c : RecordBatch}
    (hcols : idx.mapM (index b.columns) = .ok c.columns) (hnum : c.numRows = b.numRows) :
    c.rows = b.rows.map fun r => idx.map fun i => r.getD i .null := by
  have hcells : c.columns.map ArrayRef.cells =
      idx.map fun i => (b.columns.map ArrayRef.cells).getD i [] := by
    refine (Outcome.forall₂_map_eq (Outcome.mapM_eq_ok_iff.mp hcols) ?_).symm
    intro i a ha
    simp [index_eq_ok_iff.mp ha]
  have hlt : ∀ i ∈ idx, i < b.columns.length := by
    intro i hi
    obtain ⟨a, -, ha⟩ := Outcome.mapM_mem_left hcols hi
    exact index_succeeds_iff.mp ⟨a, ha⟩
  rw [rows, hcells, hnum, Table.rows_gather _ _ _ (by simpa using hlt)]
  rfl

/-- Gathering columns gathers the same positions of every row. -/
theorem Gathers.rows_eq {idx : List ℕ} {b c : RecordBatch} (h : Gathers idx b c) :
    c.rows = b.rows.map fun r => idx.map fun i => r.getD i .null :=
  rows_of_columns h.columns_eq h.numRows_eq

end RecordBatch

end RQuery
