import RQuery.Datatypes.RecordBatch

/-!
# Data sources

The three implementations of the trait `DataSource`: CSV files, Parquet files and batches in
memory. A source describes its schema and scans its batches, and an empty projection means all
columns.

The file readers are third-party code and a parameter: `Readers` holds what is on disk and what the
readers return, and `Readers.Documented` the two ordering rules their documentation gives. The CSV
reader's `with_projection` takes column indices and yields the columns in the order of the index
list; Parquet's `ProjectionMask` is a set, and its reader yields the columns in file order.

`scan_layout_iff` compares the two: a scan lays out its columns as requested except when a Parquet
file is asked for its columns in another order than its own.
-/

namespace RQuery

/-! ## File order -/

/-- The columns of `s` that a mask keeps, in file order. -/
def fileOrder (s : Schema) (mask : List String) : List ℕ :=
  (List.range s.fields.length).filter fun i => (s.names.getD i "") ∈ mask

/-- The names a mask keeps, in file order. -/
theorem map_fileOrder (s : Schema) (mask : List String) :
    (fileOrder s mask).map (fun i => s.names.getD i "") = s.names.filter (· ∈ mask) := by
  have hnames : (List.range s.fields.length).map (fun i => s.names.getD i "") = s.names := by
    simpa using Table.map_getD_range s.names
  conv_rhs => rw [← hnames, List.filter_map]
  rfl

/-- A mask of distinct names keeps them in their own order exactly when they are listed in the
order of the file. -/
theorem filter_mem_eq_iff {names mask : List String} (hnames : names.Nodup) (hmask : mask.Nodup) :
    names.filter (· ∈ mask) = mask ↔ mask.Sublist names := by
  constructor
  · intro h
    exact h ▸ List.filter_sublist
  · intro h
    have hsub : mask.Sublist (names.filter (· ∈ mask)) := by
      have hself := h.filter (fun n => decide (n ∈ mask))
      rwa [List.filter_eq_self.mpr (by simp)] at hself
    have hperm : (names.filter (· ∈ mask)).Perm mask := by
      rw [List.perm_ext_iff_of_nodup (hnames.filter _) hmask]
      intro n
      simpa using fun hn => h.subset hn
    exact (hsub.eq_of_length hperm.length_eq.symm).symm

/-- The file order of a projection is the requested order exactly when the projection lists the
file's columns in the order of the file. -/
theorem fileOrder_eq_iff {s : Schema} (hs : s.DistinctNames) {projection : List String}
    {idx : List ℕ} (hproj : projection.Nodup) (hidx : s.resolve projection = .ok idx) :
    fileOrder s projection = idx ↔ projection.Sublist s.names := by
  rw [← filter_mem_eq_iff hs hproj, ← map_fileOrder]
  constructor
  · rintro rfl
    exact Schema.resolve_names hidx
  · intro h
    have hfile : s.resolve projection = .ok (fileOrder s projection) := by
      conv_lhs => rw [← h]
      refine hs.resolve_names _ fun i hi => ?_
      exact List.mem_range.mp (List.mem_filter.mp hi).1
    simpa [hidx] using hfile.symm

section

variable [FloatModel]

/-- An iterator of batches, whose items panic when they are pulled. -/
abbrev BatchStream := List (Result RecordBatch)

/-- How a CSV file is to be read: the arguments of `ReaderBuilder`. -/
structure CsvFormat where
  filename : String
  schema : Schema
  hasHeaders : Bool
  batchSize : ℕ
  delimiter : UInt8

/-- The files on disk and the readers of arrow-csv and parquet. -/
class Readers where
  /-- `Format::infer_schema` over the first 1024 records. -/
  csvInfer (filename : String) (hasHeaders : Bool) (delimiter : UInt8) : Result Schema
  /-- `File::open`, `ReaderBuilder::build` and the reader, with the index list of
  `with_projection`. -/
  csvRead (format : CsvFormat) (projection : Option (List ℕ)) : Result BatchStream
  /-- Batch `k` of the file read in this format, with every column. -/
  csvContent (format : CsvFormat) (k : ℕ) : RecordBatch
  csvContent_schema (format : CsvFormat) (k : ℕ) : (csvContent format k).schema = format.schema
  /-- `ParquetRecordBatchReaderBuilder::schema`. -/
  parquetSchema (filename : String) : Result Schema
  /-- The reader, with the leaf columns of its `ProjectionMask`. -/
  parquetRead (filename : String) (mask : Option (List String)) : Result BatchStream
  /-- Batch `k` of the file, with every column. -/
  parquetContent (filename : String) (k : ℕ) : RecordBatch
  parquetContent_schema (filename : String) (s : Schema) (k : ℕ)
    (h : parquetSchema filename = .ok s) : (parquetContent filename k).schema = s

/-- The documented behaviour of the readers. -/
structure Readers.Documented (R : Readers) : Prop where
  /-- `with_projection(indices)` yields the columns in the order of the index list. -/
  csv_projection : ∀ format idx stream, R.csvRead format (some idx) = .ok stream →
    ∀ k b, stream[k]? = some (.ok b) → (R.csvContent format k).Gathers idx b
  /-- `ProjectionMask::columns` selects columns, and the reader yields them in file order. -/
  parquet_mask : ∀ filename s mask stream, R.parquetSchema filename = .ok s →
    R.parquetRead filename (some mask) = .ok stream →
    ∀ k b, stream[k]? = some (.ok b) →
      (R.parquetContent filename k).Gathers (fileOrder s mask) b

/-! ## The implementations -/

structure CsvDataSource where
  filename : String
  /-- `none`: the schema is inferred from the file on each access. -/
  schema? : Option Schema
  hasHeaders : Bool
  batchSize : ℕ
  delimiter : UInt8
  deriving DecidableEq

structure ParquetDataSource where
  filename : String
  deriving DecidableEq

/-- Batches in memory. They are of the source's schema. -/
structure InMemoryDataSource where
  schema : Schema
  data : List RecordBatch
  conforms : ∀ b ∈ data, b.schema = schema
  deriving DecidableEq

namespace CsvDataSource

variable [Readers]

/-- `CsvDataSource::new`: the delimiter is a comma. -/
def new (filename : String) (schema : Option Schema) (hasHeaders : Bool) (batchSize : ℕ) :
    CsvDataSource :=
  ⟨filename, schema, hasHeaders, batchSize, 44⟩

/-- `CsvDataSource::tsv`: the delimiter is a tab. -/
def tsv (filename : String) (schema : Option Schema) (hasHeaders : Bool) (batchSize : ℕ) :
    CsvDataSource :=
  { new filename schema hasHeaders batchSize with delimiter := 9 }

def inferSchema (s : CsvDataSource) : Result Schema :=
  Readers.csvInfer s.filename s.hasHeaders s.delimiter

def schema (s : CsvDataSource) : Result Schema :=
  match s.schema? with
  | some t => .ok t
  | none => s.inferSchema

/-- The format a schema gives the reader of this source. -/
def format (s : CsvDataSource) (schema : Schema) : CsvFormat :=
  ⟨s.filename, schema, s.hasHeaders, s.batchSize, s.delimiter⟩

def scan (s : CsvDataSource) (projection : List String) : Result BatchStream := do
  let fullSchema ← s.schema
  if projection.isEmpty then
    Readers.csvRead (s.format fullSchema) none
  else
    let indices ← fullSchema.resolve projection
    Readers.csvRead (s.format fullSchema) (some indices)

end CsvDataSource

namespace ParquetDataSource

variable [Readers]

def schema (s : ParquetDataSource) : Result Schema :=
  Readers.parquetSchema s.filename

def scan (s : ParquetDataSource) (projection : List String) : Result BatchStream :=
  if projection.isEmpty then
    Readers.parquetRead s.filename none
  else
    Readers.parquetRead s.filename (some projection)

end ParquetDataSource

namespace InMemoryDataSource

/-- One step of `scan`: the batch with only the projected columns. -/
def projectBatch (projectedSchema : Schema) (indices : List ℕ) (b : RecordBatch) :
    Result RecordBatch := do
  RecordBatch.tryNew projectedSchema (← indices.mapM (index b.columns))

def scan (s : InMemoryDataSource) (projection : List String) : Result BatchStream :=
  if projection.isEmpty then
    .ok (s.data.map .ok)
  else do
    let projectionIndices ← s.schema.resolve projection
    let projectedSchema ← s.schema.select projection
    let projected ← s.data.mapM (projectBatch projectedSchema projectionIndices)
    return projected.map .ok

end InMemoryDataSource

/-- `Arc<dyn DataSource>`, one of the three implementations. -/
inductive DataSource
  | csv (s : CsvDataSource)
  | inMemory (s : InMemoryDataSource)
  | parquet (s : ParquetDataSource)
  deriving DecidableEq

namespace DataSource

variable [Readers]

/-- The schema of the underlying data source. -/
def schema : DataSource → Result Schema
  | csv s => s.schema
  | inMemory s => .ok s.schema
  | parquet s => s.schema

/-- Scan the source, selecting the given columns; no columns means all columns. -/
def scan : DataSource → List String → Result BatchStream
  | csv s, projection => s.scan projection
  | inMemory s, projection => s.scan projection
  | parquet s, projection => s.scan projection

/-- Batch `k` of the source, with every column. -/
def content : DataSource → Schema → ℕ → Option RecordBatch
  | csv s, schema, k => some (Readers.csvContent (s.format schema) k)
  | inMemory s, _, k => s.data[k]?
  | parquet s, _, k => some (Readers.parquetContent s.filename k)

end DataSource

/-! ## Scans in memory -/

namespace InMemoryDataSource

/-- A batch is projected exactly onto the batch of its gathered columns. -/
theorem projectBatch_eq_ok_iff {t : Schema} {idx : List ℕ} {b c : RecordBatch} (hne : idx ≠ [])
    (ht : b.schema.project idx = .ok t) :
    projectBatch t idx b = .ok c ↔ b.Gathers idx c := by
  unfold projectBatch
  simp only [Outcome.bind_eq_ok_iff, RecordBatch.tryNew_eq_ok_iff]
  constructor
  · rintro ⟨cols, hcols, rfl, rfl, hcne⟩
    refine ⟨ht, hcols, ?_⟩
    obtain ⟨a, ha⟩ := List.exists_mem_of_ne_nil _ hcne
    obtain ⟨i, -, hi⟩ := Outcome.mapM_mem hcols ha
    rw [← c.lengths a ha, b.lengths a (List.mem_of_getElem? (index_eq_ok_iff.mp hi))]
  · rintro ⟨hschema, hcols, -⟩
    refine ⟨c.columns, hcols, ?_, rfl, ?_⟩
    · simpa [ht, eq_comm] using hschema
    · intro hnil
      rw [hnil] at hcols
      exact hne (List.length_eq_zero_iff.mp (by simpa using (Outcome.mapM_length hcols).symm))

/-- A batch of the source's schema can always be projected to resolved columns. -/
theorem gathers_exists {b : RecordBatch} {idx : List ℕ} (hlt : ∀ i ∈ idx, i < b.columns.length) :
    ∃ c, b.Gathers idx c := by
  have hcols : Outcome.Succeeds (idx.mapM (index b.columns)) := by
    rw [Outcome.mapM_succeeds_iff]
    exact fun i hi => index_succeeds_iff.mpr (hlt i hi)
  have hfields : Outcome.Succeeds (idx.mapM (index b.schema.fields)) := by
    rw [Outcome.mapM_succeeds_iff]
    exact fun i hi => index_succeeds_iff.mpr (b.columns_length ▸ hlt i hi)
  obtain ⟨cols, hcols⟩ := hcols
  obtain ⟨fields, hfields⟩ := hfields
  have htypes : cols.map ArrayRef.dataType = fields.map Field.dataType := by
    have hc := Outcome.forall₂_map_eq (Outcome.mapM_eq_ok_iff.mp hcols)
      (f := fun i => (b.types.getD i .null)) (g := ArrayRef.dataType)
      fun i a ha => by simp [RecordBatch.types, index_eq_ok_iff.mp ha]
    have hf := Outcome.forall₂_map_eq (Outcome.mapM_eq_ok_iff.mp hfields)
      (f := fun i => (b.types.getD i .null)) (g := Field.dataType)
      fun i a ha => by simp [b.types_eq_schema, Schema.types, index_eq_ok_iff.mp ha]
    rw [← hc, ← hf]
  have hlen : ∀ a ∈ cols, a.cells.length = b.numRows := by
    intro a ha
    obtain ⟨i, -, hi⟩ := Outcome.mapM_mem hcols ha
    exact b.lengths a (List.mem_of_getElem? (index_eq_ok_iff.mp hi))
  exact ⟨⟨⟨fields⟩, cols, b.numRows, htypes, hlen⟩, by simp [Schema.project, hfields], hcols, rfl⟩

/-- A scan in memory returns for each batch the requested columns in the requested order. -/
theorem scan_eq_ok {s : InMemoryDataSource} (hs : s.schema.DistinctNames)
    {projection : List String} {idx : List ℕ} (hne : projection ≠ [])
    (hidx : s.schema.resolve projection = .ok idx) :
    ∃ out, s.scan projection = .ok (out.map .ok) ∧
      List.Forall₂ (fun b c => b.Gathers idx c) s.data out := by
  have hidxne : idx ≠ [] := by
    rintro rfl
    exact hne (List.forall₂_nil_right_iff.mp (Schema.resolve_eq_ok_iff.mp hidx))
  have hsel : Outcome.Succeeds (s.schema.select projection) :=
    hs.select_succeeds_iff.mpr (Schema.resolve_succeeds_iff.mp ⟨idx, hidx⟩)
  obtain ⟨t, ht⟩ := hsel
  have hproj : s.schema.project idx = .ok t := hs.select_eq_project hidx ▸ ht
  have hstep : ∀ b ∈ s.data, ∀ c, projectBatch t idx b = .ok c ↔ b.Gathers idx c := fun b hb c =>
    projectBatch_eq_ok_iff hidxne (s.conforms b hb ▸ hproj)
  have hsucc : Outcome.Succeeds (s.data.mapM (projectBatch t idx)) := by
    rw [Outcome.mapM_succeeds_iff]
    intro b hb
    have hlt : ∀ i ∈ idx, i < b.columns.length := by
      rw [b.columns_length, s.conforms b hb]
      exact Schema.resolve_lt hidx
    obtain ⟨c, hc⟩ := gathers_exists hlt
    exact ⟨c, (hstep b hb c).mpr hc⟩
  obtain ⟨out, hout⟩ := hsucc
  refine ⟨out, by simp [scan, hne, hidx, ht, hout], ?_⟩
  have hall := Outcome.mapM_eq_ok_iff.mp hout
  rw [List.forall₂_iff_zip] at hall ⊢
  exact ⟨hall.1, fun {b c} h => (hstep b (List.of_mem_zip h).1 c).mp (hall.2 h)⟩

end InMemoryDataSource

/-! ## A disk of Parquet files

Readers that behave as documented: every file on the disk is a Parquet file, given by its batches.
-/

namespace RecordBatch

/-- A batch without rows. -/
def empty (s : Schema) : RecordBatch where
  schema := s
  columns := s.fields.map fun f => ⟨f.dataType, [], by simp⟩
  numRows := 0
  types_eq := by simp [Schema.types]
  lengths := by simp

end RecordBatch

/-- The batches of a Parquet file, restricted to the columns of a mask. -/
def readMasked (t : InMemoryDataSource) : Option (List String) → BatchStream
  | none => t.data.map .ok
  | some mask => t.data.map fun b => do
      let idx := fileOrder t.schema mask
      InMemoryDataSource.projectBatch (← t.schema.project idx) idx b

/-- A CSV file without rows is of the schema it is read with. -/
theorem emptyCsv_schema (format : CsvFormat) (_k : ℕ) :
    (RecordBatch.empty format.schema).schema = format.schema := rfl

/-- A file that cannot be opened has no schema. -/
theorem noParquet_schema (filename : String) (s : Schema) (_k : ℕ)
    (h : (.error (.inputOutput filename) : Result Schema) = .ok s) :
    (RecordBatch.empty ⟨[]⟩).schema = s := by
  cases h

/-- The readers over a disk that holds the given Parquet files and no CSV file. -/
@[reducible] def parquetDisk (files : String → Option InMemoryDataSource) : Readers where
  csvInfer filename _ _ := .error (.inputOutput filename)
  csvRead format _ := .error (.inputOutput format.filename)
  csvContent format _ := .empty format.schema
  csvContent_schema _ _ := rfl
  parquetSchema filename :=
    (files filename).elim (.error (.inputOutput filename)) fun t => .ok t.schema
  parquetRead filename mask :=
    (files filename).elim (.error (.inputOutput filename)) fun t => .ok (readMasked t mask)
  parquetContent filename k :=
    (files filename).elim (.empty ⟨[]⟩) fun t => t.data[k]?.getD (.empty t.schema)
  parquetContent_schema filename s k h := by
    cases hf : files filename with
    | none => simp [hf] at h
    | some t =>
      obtain rfl : t.schema = s := by simpa [hf] using h
      cases hk : t.data[k]? with
      | none => simp [hk, RecordBatch.empty]
      | some b => simpa [hk] using t.conforms b (List.mem_of_getElem? hk)

/-- A disk of Parquet files keeps what the readers are documented to do. -/
theorem parquetDisk_documented (files : String → Option InMemoryDataSource) :
    (parquetDisk files).Documented where
  csv_projection format idx stream h := by cases h
  parquet_mask filename s mask stream hs hread k b hb := by
    change (files filename).elim (Except.error (Panic.inputOutput filename))
      (fun t => Except.ok t.schema) = .ok s at hs
    change (files filename).elim (Except.error (Panic.inputOutput filename))
      (fun t => Except.ok (readMasked t (some mask))) = .ok stream at hread
    change RecordBatch.Gathers (fileOrder s mask) ((files filename).elim (.empty ⟨[]⟩) fun t =>
      t.data[k]?.getD (.empty t.schema)) b
    cases hf : files filename with
    | none => simp [hf] at hs
    | some t =>
      obtain rfl : t.schema = s := by simpa [hf] using hs
      obtain rfl : readMasked t (some mask) = stream := by simpa [hf] using hread
      simp only [readMasked, List.getElem?_map, Option.map_eq_some_iff] at hb
      obtain ⟨full, hfull, hb⟩ := hb
      obtain ⟨u, hu, hb⟩ := Outcome.bind_eq_ok_iff.mp hb
      have hne : fileOrder t.schema mask ≠ [] := by
        intro hnil
        simp [hnil, InMemoryDataSource.projectBatch, RecordBatch.tryNew_eq_ok_iff] at hb
      rw [InMemoryDataSource.projectBatch_eq_ok_iff hne
        (t.conforms _ (List.mem_of_getElem? hfull) ▸ hu)] at hb
      simpa [hfull] using hb

/-! ## Layout of a scan -/

namespace DataSource

variable [R : Readers]

/-- The batch `b`, the `k`-th of a scan, has exactly the requested columns in the requested
order. -/
def LaidOutAs (ds : DataSource) (s : Schema) (projection : List String) (k : ℕ)
    (b : RecordBatch) : Prop :=
  s.select projection = .ok b.schema ∧
    ∃ full idx, ds.content s k = some full ∧ s.resolve projection = .ok idx ∧ full.Gathers idx b

/-- A batch read from a source that is the gathering of the requested columns is laid out as
requested. -/
theorem laidOutAs_of_gathers {ds : DataSource} {s : Schema} (hs : s.DistinctNames)
    {projection : List String} {idx : List ℕ} (hidx : s.resolve projection = .ok idx) {k : ℕ}
    {full b : RecordBatch} (hfull : ds.content s k = some full) (hschema : full.schema = s)
    (hb : full.Gathers idx b) : ds.LaidOutAs s projection k b :=
  ⟨by rw [hs.select_eq_project hidx, ← hschema, hb.schema_eq], full, idx, hfull, hidx, hb⟩

/-- Every batch a CSV scan yields is laid out as its projection says. -/
theorem csv_scan_laidOut (doc : R.Documented) {c : CsvDataSource} {s : Schema}
    (hschema : c.schema = .ok s) (hs : s.DistinctNames) {projection : List String} {idx : List ℕ}
    (hne : projection ≠ []) (hidx : s.resolve projection = .ok idx) {stream : BatchStream}
    (hscan : c.scan projection = .ok stream) {k : ℕ} {b : RecordBatch}
    (hb : stream[k]? = some (.ok b)) : (DataSource.csv c).LaidOutAs s projection k b := by
  have hread : Readers.csvRead (c.format s) (some idx) = .ok stream := by
    simpa [CsvDataSource.scan, hschema, hne, hidx] using hscan
  exact laidOutAs_of_gathers hs hidx rfl (Readers.csvContent_schema _ k)
    (doc.csv_projection _ _ _ hread k b hb)

/-- And so is every batch of a scan of memory. -/
theorem inMemory_scan_laidOut {m : InMemoryDataSource} (hs : m.schema.DistinctNames)
    {projection : List String} {idx : List ℕ} (hne : projection ≠ [])
    (hidx : m.schema.resolve projection = .ok idx) {stream : BatchStream}
    (hscan : m.scan projection = .ok stream) {k : ℕ} {b : RecordBatch}
    (hb : stream[k]? = some (.ok b)) :
    (DataSource.inMemory m).LaidOutAs m.schema projection k b := by
  obtain ⟨out, hout, hall⟩ := m.scan_eq_ok hs hne hidx
  obtain rfl : out.map .ok = stream := by simpa [hout] using hscan
  have hk : out[k]? = some b := by simpa using hb
  obtain ⟨full, hfull, hgather⟩ : ∃ full, m.data[k]? = some full ∧ full.Gathers idx b := by
    obtain ⟨hlt, rfl⟩ := List.getElem?_eq_some_iff.mp hk
    have hlt' : k < m.data.length := hall.length_eq ▸ hlt
    exact ⟨m.data[k], List.getElem?_eq_getElem hlt', by simpa using hall.get hlt' hlt⟩
  exact laidOutAs_of_gathers hs hidx hfull (m.conforms _ (List.mem_of_getElem? hfull)) hgather

/-- A Parquet batch is laid out as requested exactly when the request is in file order. -/
theorem parquet_scan_laidOut_iff (doc : R.Documented) {p : ParquetDataSource} {s : Schema}
    (hschema : p.schema = .ok s) (hs : s.DistinctNames) {projection : List String} {idx : List ℕ}
    (hproj : projection.Nodup) (hidx : s.resolve projection = .ok idx) {stream : BatchStream}
    (hread : R.parquetRead p.filename (some projection) = .ok stream) {k : ℕ} {b : RecordBatch}
    (hb : stream[k]? = some (.ok b)) :
    (DataSource.parquet p).LaidOutAs s projection k b ↔ projection.Sublist s.names := by
  have hfile := doc.parquet_mask _ _ _ _ hschema hread k b hb
  have hcontent := Readers.parquetContent_schema p.filename s k hschema
  rw [← fileOrder_eq_iff hs hproj hidx]
  constructor
  · rintro ⟨hselect, -⟩
    have hnames : (fileOrder s projection).map (fun i => s.names.getD i "") = projection := by
      rw [← Schema.project_names (hcontent ▸ hfile.schema_eq), Schema.select_names hselect]
    have hresolve := hs.resolve_names (fileOrder s projection) fun i hi =>
      List.mem_range.mp (List.mem_filter.mp hi).1
    rw [hnames, hidx] at hresolve
    simpa using hresolve.symm
  · intro h
    exact laidOutAs_of_gathers hs hidx rfl hcontent (h ▸ hfile)

/-- Every batch of a scan has exactly the requested columns in the requested order, unless the
source is a Parquet file, the request is not in file order, and the file has a batch to read. -/
theorem scan_layout_iff (doc : R.Documented) {ds : DataSource} {s : Schema}
    (hschema : ds.schema = .ok s) (hs : s.DistinctNames) {projection : List String}
    (hne : projection ≠ []) (hproj : projection.Nodup) (hex : ∀ n ∈ projection, n ∈ s.names) :
    (∀ stream, ds.scan projection = .ok stream →
      ∀ k b, stream[k]? = some (.ok b) → ds.LaidOutAs s projection k b) ↔
      ∀ p, ds = .parquet p → projection.Sublist s.names ∨
        ∀ stream, R.parquetRead p.filename (some projection) = .ok stream →
          ∀ b, .ok b ∉ stream := by
  -- CSV and memory gather in the requested order; the Parquet mask keeps the order of the file.
  obtain ⟨idx, hidx⟩ := Schema.resolve_succeeds_iff.mpr hex
  cases ds with
  | csv c =>
    refine ⟨fun _ p hp => (by cases hp), fun _ stream hscan k b hb => ?_⟩
    exact csv_scan_laidOut doc hschema hs hne hidx hscan hb
  | inMemory m =>
    obtain rfl : m.schema = s := by simpa [schema] using hschema
    refine ⟨fun _ p hp => (by cases hp), fun _ stream hscan k b hb => ?_⟩
    exact inMemory_scan_laidOut hs hne hidx hscan hb
  | parquet p =>
    have hscan : (DataSource.parquet p).scan projection =
        R.parquetRead p.filename (some projection) := by
      simp [scan, ParquetDataSource.scan, hne]
    constructor
    · rintro h p' hp'
      obtain rfl : p = p' := by simpa using hp'
      by_cases hempty : ∃ stream b, R.parquetRead p.filename (some projection) = .ok stream ∧
          .ok b ∈ stream
      · obtain ⟨stream, b, hread, hb⟩ := hempty
        obtain ⟨k, hk⟩ := List.mem_iff_getElem?.mp hb
        exact .inl ((parquet_scan_laidOut_iff doc hschema hs hproj hidx hread hk).mp
          (h stream (hscan ▸ hread) k b hk))
      · exact .inr fun stream hread b hb => hempty ⟨stream, b, hread, hb⟩
    · intro h stream hread k b hb
      rw [hscan] at hread
      have hsub := (h p rfl).resolve_right fun hnone =>
        hnone stream hread b (List.mem_of_getElem? hb)
      exact (parquet_scan_laidOut_iff doc hschema hs hproj hidx hread hb).mpr hsub

end DataSource

end

section ReversedParquet

attribute [local instance] integerFloats

/-- Two integer columns `a` and `b` with one row. -/
def twoColumnBatch : RecordBatch where
  schema := ⟨[⟨"a", .int32⟩, ⟨"b", .int32⟩]⟩
  columns := [Int32Array [1], Int32Array [2]]
  numRows := 1
  types_eq := by decide
  lengths := by decide

def twoColumnFile : InMemoryDataSource where
  schema := twoColumnBatch.schema
  data := [twoColumnBatch]
  conforms := by decide

local instance twoColumnDisk : Readers :=
  parquetDisk fun filename => if filename = "ab.parquet" then some twoColumnFile else none

/-- A scan of `b, a` reads the columns `a, b`. -/
theorem scan_reversed_not_laidOut :
    (DataSource.parquet ⟨"ab.parquet"⟩).schema = .ok twoColumnBatch.schema ∧
      (DataSource.parquet ⟨"ab.parquet"⟩).scan ["b", "a"] = .ok [.ok twoColumnBatch] ∧
      ¬ (DataSource.parquet ⟨"ab.parquet"⟩).LaidOutAs twoColumnBatch.schema ["b", "a"] 0
        twoColumnBatch := by
  refine ⟨by decide, by decide, ?_⟩
  rintro ⟨hselect, -⟩
  revert hselect
  decide

/-- The condition at the reversed request. -/
theorem scan_layout_iff_twoColumnFile :
    (∀ stream, (DataSource.parquet ⟨"ab.parquet"⟩).scan ["b", "a"] = .ok stream →
      ∀ k b, stream[k]? = some (.ok b) →
        (DataSource.parquet ⟨"ab.parquet"⟩).LaidOutAs twoColumnBatch.schema ["b", "a"] k b) ↔
      ∀ p, DataSource.parquet ⟨"ab.parquet"⟩ = .parquet p →
        ["b", "a"].Sublist twoColumnBatch.schema.names ∨
        ∀ stream, Readers.parquetRead p.filename (some ["b", "a"]) = .ok stream →
          ∀ b, .ok b ∉ stream :=
  DataSource.scan_layout_iff (parquetDisk_documented _) (by decide) (by decide) (by decide)
    (by decide) (by decide)

end ReversedParquet

end RQuery
