import RQuery.Datatypes.RecordBatch

/-!
# Batches built row by row

The blocking operators assemble their output rows first and append each row to one builder per
field of the output schema. `buildRows_eq_ok_iff` says that this returns the batch of these rows
whenever there is one.
-/

namespace RQuery

variable [FloatModel]

/-- A batch of these rows can be built. -/
structure Builds (schema : Schema) (rows : List Row) : Prop where
  fields_ne : schema.fields ≠ []
  hasBuilder : ∀ t ∈ schema.types, t.hasBuilder
  fits : ∀ r ∈ rows, RowFits schema.types r

theorem Builds.perm {schema : Schema} {rows rows' : List Row} (h : Builds schema rows)
    (hp : rows.Perm rows') : Builds schema rows' :=
  ⟨h.fields_ne, h.hasBuilder, fun r hr => h.fits r (hp.mem_iff.mpr hr)⟩

/-- Append the cells of a row to the builders, cell `i` to builder `i`. -/
def appendRow : List ArrowVectorBuilder → Row → Result (List ArrowVectorBuilder) :=
  Table.stepRow (.other "builders[i]: index out of bounds") ArrowVectorBuilder.appendValue

/-- A batch of the given rows: `HashJoinExec::create_batch`, and the output loop of
`HashAggregateExec::execute`. -/
def buildRows (schema : Schema) (rows : List Row) : Result RecordBatch := do
  let builders ← schema.types.mapM ArrowVectorBuilder.new
  let builders ← rows.foldlM appendRow builders
  RecordBatch.create schema (builders.map fun b => ArrowFieldVector b.build)

/-- Appending values one by one appends the list of them, if they fit. -/
theorem appendValues_eq_ok_iff {b c : ArrowVectorBuilder} {vs : List ScalarValue} :
    vs.foldlM ArrowVectorBuilder.appendValue b = .ok c ↔
      c.array.dataType = b.array.dataType ∧ c.array.cells = b.array.cells ++ vs := by
  induction vs generalizing b with
  | nil =>
    simp only [List.foldlM_nil, Outcome.pure_eq_ok, Except.ok.injEq, List.append_nil]
    obtain ⟨⟨t, cells, _⟩, _⟩ := b
    obtain ⟨⟨t', cells', _⟩, _⟩ := c
    simp only [ArrowVectorBuilder.mk.injEq, ArrayRef.mk.injEq]
    exact and_congr eq_comm eq_comm
  | cons v vs ih =>
    simp only [List.foldlM_cons, Outcome.bind_eq_ok_iff, ih, ArrowVectorBuilder.appendValue_eq_ok_iff]
    constructor
    · rintro ⟨m, ⟨-, ht, hcells⟩, ht', hcells'⟩
      exact ⟨ht'.trans ht, by rw [hcells', hcells]; simp⟩
    · rintro ⟨ht, hcells⟩
      have hfit : ∀ w ∈ c.array.cells, w.FitsIn c.array.dataType := c.array.fits c.supported
      rw [ht, hcells] at hfit
      have hb : ∀ w ∈ b.array.cells ++ [v], w.FitsIn b.array.dataType := fun w hw =>
        hfit w (by rw [List.append_cons]; exact List.mem_append_left vs hw)
      exact ⟨⟨⟨b.array.dataType, b.array.cells ++ [v], fun _ => hb⟩, b.supported⟩,
        ⟨hfit v (by simp), rfl, rfl⟩, ht, by simp [hcells]⟩

/-- The builders of a schema exist exactly when its types are supported, and they are empty. -/
theorem newBuilders_eq_ok_iff {types : List DataType} {bs : List ArrowVectorBuilder} :
    types.mapM ArrowVectorBuilder.new = .ok bs ↔
      bs.map (fun b => b.array.dataType) = types ∧ ∀ b ∈ bs, b.array.cells = [] := by
  induction types generalizing bs with
  | nil => cases bs <;> simp
  | cons t types ih =>
    rw [Outcome.mapM_cons_eq_ok_iff]
    constructor
    · rintro ⟨b, bs, hb, hbs, rfl⟩
      obtain ⟨htypes, hcells⟩ := ih.mp hbs
      unfold ArrowVectorBuilder.new at hb
      split at hb
      · cases hb
        exact ⟨by simp [htypes], by simpa using hcells⟩
      · cases hb
    · rintro ⟨htypes, hcells⟩
      cases bs with
      | nil => simp at htypes
      | cons b bs =>
        simp only [List.map_cons, List.cons.injEq] at htypes
        simp only [List.forall_mem_cons] at hcells
        refine ⟨b, bs, ?_, ih.mpr ⟨htypes.2, hcells.2⟩, rfl⟩
        obtain ⟨⟨t', cells, hfits⟩, hsup⟩ := b
        obtain ⟨rfl, rfl⟩ : t' = t ∧ cells = [] := ⟨htypes.1, hcells.1⟩
        simp [ArrowVectorBuilder.new, show t'.hasBuilder from hsup]

/-- Arrays of supported types are the arrays of some builders. -/
theorem exists_builders (arrays : List ArrayRef) (h : ∀ a ∈ arrays, a.dataType.hasBuilder) :
    ∃ bs : List ArrowVectorBuilder, bs.map ArrowVectorBuilder.array = arrays := by
  induction arrays with
  | nil => exact ⟨[], rfl⟩
  | cons a arrays ih =>
    obtain ⟨bs, rfl⟩ := ih fun a ha => h a (List.mem_cons_of_mem _ ha)
    exact ⟨⟨a, h a List.mem_cons_self⟩ :: bs, rfl⟩

/-- A batch of finished builders has the builders' arrays for columns. -/
theorem create_builders_eq_ok_iff {schema : Schema} {cs : List ArrowVectorBuilder}
    {out : RecordBatch} :
    RecordBatch.create schema (cs.map fun b => ArrowFieldVector b.build) = .ok out ↔
      out.schema = schema ∧ cs ≠ [] ∧ out.columns = cs.map ArrowVectorBuilder.array := by
  have hsup : ∀ a ∈ cs.map ArrowVectorBuilder.array, a.dataType.hasBuilder := by
    intro a ha
    obtain ⟨c, -, rfl⟩ := List.mem_map.mp ha
    exact c.supported
  have hcols := RecordBatch.create_arrays_eq_ok_iff (s := schema) (b := out) hsup
  rwa [List.map_map, ne_eq, List.map_eq_nil_iff] at hcols

/-- Building a batch of rows as wide as the schema returns the batch of these rows, when the types
are supported and there is one. -/
theorem buildRows_eq_ok_iff {schema : Schema} {rows : List Row} {out : RecordBatch}
    (h : ∀ r ∈ rows, r.length = schema.fields.length) :
    buildRows schema rows = .ok out ↔
      out.schema = schema ∧ out.rows = rows ∧ schema.fields ≠ [] ∧
        ∀ t ∈ schema.types, t.hasBuilder := by
  have hfill : ∀ bs : List ArrowVectorBuilder,
      bs.map (fun b => b.array.dataType) = schema.types → (∀ b ∈ bs, b.array.cells = []) →
      ∀ cs, rows.foldlM appendRow bs = .ok cs ↔
        cs.map (fun c => c.array.dataType) = schema.types ∧
          cs.map (fun c => c.array.cells) = Table.columns schema.fields.length rows := by
    intro bs htypes hempty cs
    have hlen : bs.length = schema.fields.length := by
      simpa using congrArg List.length htypes
    unfold appendRow
    rw [Table.foldlM_stepRow_eq_ok_iff (by rwa [hlen])]
    simp only [appendValues_eq_ok_iff]
    constructor
    · rintro ⟨hcs, h⟩
      constructor
      · rw [← htypes]
        apply List.ext_getElem (by simpa using hcs)
        intro i hi hi'
        simp only [List.length_map] at hi hi'
        obtain ⟨c, hc, ht, -⟩ := h i bs[i] (List.getElem?_eq_getElem hi')
        obtain ⟨_, rfl⟩ := List.getElem?_eq_some_iff.mp hc
        simpa using ht
      · apply List.ext_getElem (by simp [hcs, hlen])
        intro i hi hi'
        simp only [List.length_map, Table.columns_length] at hi hi'
        have hib : i < bs.length := by omega
        obtain ⟨c, hc, -, hcells⟩ := h i bs[i] (List.getElem?_eq_getElem hib)
        obtain ⟨_, rfl⟩ := List.getElem?_eq_some_iff.mp hc
        simpa [hempty, Table.columns] using hcells
    · rintro ⟨ht, hc⟩
      have hcs : cs.length = bs.length := by
        rw [hlen]
        simpa using congrArg List.length ht
      refine ⟨hcs, fun i b hb => ?_⟩
      obtain ⟨hi, rfl⟩ := List.getElem?_eq_some_iff.mp hb
      have hi' : i < cs.length := by omega
      refine ⟨cs[i], List.getElem?_eq_getElem hi', ?_, ?_⟩
      · have hti := congrArg (·[i]?) (ht.trans htypes.symm)
        simpa [hi, hi'] using hti
      · have hci := congrArg (·[i]?) hc
        have hif : i < schema.fields.length := by omega
        simpa [hi', hif, hempty, Table.columns] using hci
  unfold buildRows
  simp only [Outcome.bind_eq_ok_iff, newBuilders_eq_ok_iff, create_builders_eq_ok_iff]
  constructor
  · rintro ⟨bs, ⟨htypes, hempty⟩, cs, hcs, rfl, hne, hcols⟩
    obtain ⟨hct, hcc⟩ := (hfill bs htypes hempty cs).mp hcs
    have hcells : out.columns.map ArrayRef.cells =
        Table.columns out.schema.fields.length rows := by
      rw [hcols, List.map_map, ← hcc]
      rfl
    have hlen : out.numRows = rows.length := by
      obtain ⟨c, hc⟩ := List.exists_mem_of_ne_nil _ hne
      have hmem : c.array ∈ out.columns := hcols ▸ List.mem_map_of_mem hc
      rw [← out.lengths _ hmem]
      exact Table.mem_columns_length (hcells ▸ List.mem_map_of_mem hmem)
    refine ⟨rfl, ?_, ?_, ?_⟩
    · rw [RecordBatch.rows, hcells, hlen, Table.rows_columns h]
    · intro hnil
      simp [Schema.types, hnil] at hct
      exact hne hct
    · rw [← hct]
      intro t ht
      obtain ⟨c, -, rfl⟩ := List.mem_map.mp ht
      exact c.supported
  · rintro ⟨rfl, hrows, hne, hsup⟩
    obtain ⟨bs, hbs⟩ := exists_builders (out.schema.types.map fun t => ⟨t, [], by simp⟩)
      (by simpa using hsup)
    obtain ⟨cs, hcs⟩ := exists_builders out.columns fun a ha =>
      hsup _ (out.types_eq ▸ List.mem_map_of_mem ha)
    have hbt : bs.map (fun b => b.array.dataType) = out.schema.types := by
      have := congrArg (List.map ArrayRef.dataType) hbs
      simpa [Function.comp_def] using this
    have hbe : ∀ b ∈ bs, b.array.cells = [] := by
      intro b hb
      have hmem : b.array ∈ bs.map ArrowVectorBuilder.array := List.mem_map_of_mem hb
      rw [hbs] at hmem
      obtain ⟨t, -, ht⟩ := List.mem_map.mp hmem
      rw [← ht]
    refine ⟨bs, ⟨hbt, hbe⟩, cs, (hfill bs hbt hbe cs).mpr ⟨?_, ?_⟩, rfl, ?_, hcs.symm⟩
    · rw [← out.types_eq, ← hcs, List.map_map]
      rfl
    · have hcells := Table.columns_rows (out.columns.map ArrayRef.cells)
        (n := out.numRows) (by simpa using out.lengths)
      rw [← hrows, ← out.columns_length]
      rw [List.length_map] at hcells
      rw [RecordBatch.rows, hcells, ← hcs, List.map_map]
      rfl
    · rintro rfl
      have hlen := out.columns_length
      rw [← hcs] at hlen
      exact hne (List.length_eq_zero_iff.mp (by simpa using hlen.symm))

/-- Building fails only where there is no batch to build. -/
theorem buildRows_succeeds {schema : Schema} {rows : List Row} (h : Builds schema rows) :
    ∃ out, buildRows schema rows = .ok out ∧ out.schema = schema ∧ out.rows = rows := by
  have hlen : ∀ r ∈ rows, r.length = schema.fields.length := fun r hr => by
    simpa using (h.fits r hr).length_eq.symm
  refine ⟨.ofRows schema rows h.fits, (buildRows_eq_ok_iff hlen).mpr ⟨rfl, ?_, h.fields_ne,
    h.hasBuilder⟩, rfl, ?_⟩ <;> exact RecordBatch.ofRows_rows _ _ h.fits

theorem builds_of_buildRows {schema : Schema} {rows : List Row} {out : RecordBatch}
    (hlen : ∀ r ∈ rows, r.length = schema.fields.length) (h : buildRows schema rows = .ok out) :
    Builds schema rows := by
  obtain ⟨rfl, rfl, hne, hsup⟩ := (buildRows_eq_ok_iff hlen).mp h
  exact ⟨hne, hsup, out.rows_fit⟩

/-- The batch that is built has the rows. Rows without cells are lost: a batch counts its rows by its
columns. -/
theorem buildRows_rows {schema : Schema} {rows : List Row} {out : RecordBatch}
    (h : buildRows schema rows = .ok out) :
    out.schema = schema ∧ out.rows = rows.filter (!·.isEmpty) := by
  -- A row without cells appends nothing, so leaving such rows out changes no builder.
  have hfilter : buildRows schema (rows.filter (!·.isEmpty)) = .ok out := by
    rw [← h, buildRows, buildRows]
    simp only [appendRow, Table.foldlM_stepRow_filter]
  obtain ⟨bs, hbs, h⟩ := Outcome.bind_eq_ok_iff.mp h
  obtain ⟨cs, hcs, h⟩ := Outcome.bind_eq_ok_iff.mp h
  obtain ⟨htypes, hempty⟩ := newBuilders_eq_ok_iff.mp hbs
  obtain ⟨hschema, hne, hcols⟩ := create_builders_eq_ok_iff.mp h
  have hlen : bs.length = schema.fields.length := by
    simpa using congrArg List.length htypes
  -- Without a builder there is no column to count rows by, and no batch is created.
  have hcsne : bs ≠ [] := by
    rintro rfl
    have hnil : ∀ (rows : List Row) (cs : List ArrowVectorBuilder),
        rows.foldlM appendRow [] = .ok cs → cs = [] := by
      intro rows
      induction rows with
      | nil => exact fun cs h => (Except.ok.inj h).symm
      | cons r rows ih =>
        intro cs h
        cases r with
        | nil => exact ih cs h
        | cons v r => cases h
    exact hne (hnil rows cs hcs)
  have happends : ∀ (a : ArrowVectorBuilder) v c, a.appendValue v = .ok c →
      c.array.cells.length = a.array.cells.length + 1 := fun a v c hv => by
    obtain ⟨-, -, hcells⟩ := ArrowVectorBuilder.appendValue_eq_ok_iff.mp hv
    rw [hcells, List.length_append, List.length_singleton]
  -- The columns end equally long, so every row that is not empty had one cell for each builder.
  obtain ⟨-, hwide⟩ := Table.foldlM_stepRow_rectangular (k := 0) (m := out.numRows) happends
    (fun b hb => by rw [hempty b hb]; rfl)
    (fun c hc => out.lengths _ (hcols ▸ List.mem_map_of_mem hc)) hcsne hcs
  have hrows : ∀ r ∈ rows.filter (!·.isEmpty), r.length = schema.fields.length := by
    intro r hr
    obtain ⟨hmem, hcell⟩ := List.mem_filter.mp hr
    exact (hwide r hmem (by simpa using hcell)).trans hlen
  exact ⟨hschema, ((buildRows_eq_ok_iff hrows).mp hfilter).2.1⟩

end RQuery
