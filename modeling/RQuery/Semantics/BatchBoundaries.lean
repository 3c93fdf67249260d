import RQuery.QueryPlanner.QueryPlanner
import RQuery.Semantics.HashJoinRows
import RQuery.Common.Chunks

/-!
# Results do not depend on batch boundaries

Two plans that differ only in how the rows of their replayed sources are split into batches yield
the same rows. The streams that the two executions pull cut the same list of rows
(`execute_agree`): a selection, a projection and a limit work row by row, and an aggregation and a
join pull all of their input first. Below a limit a stream need not be pulled to its end, and what
it would have failed at then is not seen.
-/

namespace RQuery

variable [FloatModel]

/-- The plans are the same but for the batches that hold the rows of the sources. A source is
either replayed by the plan or scanned in memory. -/
inductive SameReplayedRows : PhysicalPlan → PhysicalPlan → Prop
  | inMemory {schema : Schema} {batches batches' : List RecordBatch}
      (hb : ∀ b ∈ batches, b.schema = schema) (hb' : ∀ b ∈ batches', b.schema = schema)
      (hrows : rowsOf batches = rowsOf batches') :
      SameReplayedRows (.inMemory schema batches) (.inMemory schema batches')
  | scan {source source' : InMemoryDataSource} (columns : List String)
      (hschema : source.schema = source'.schema) (hrows : rowsOf source.data = rowsOf source'.data) :
      SameReplayedRows (.scan (.inMemory source) columns) (.scan (.inMemory source') columns)
  | projection {input input' : PhysicalPlan} (schema : Schema) (expr : List Expression)
      (hinput : SameReplayedRows input input') :
      SameReplayedRows (.projection input schema expr) (.projection input' schema expr)
  | selection {input input' : PhysicalPlan} (expr : Expression)
      (hinput : SameReplayedRows input input') :
      SameReplayedRows (.selection input expr) (.selection input' expr)
  | limit {input input' : PhysicalPlan} (n : ℕ) (hinput : SameReplayedRows input input') :
      SameReplayedRows (.limit input n) (.limit input' n)
  | hashAggregate {input input' : PhysicalPlan} (agg : HashAggregate)
      (hinput : SameReplayedRows input input') :
      SameReplayedRows (.hashAggregate input agg .completeMode)
        (.hashAggregate input' agg .completeMode)
  | hashJoin {left left' right right' : PhysicalPlan} (join : HashJoin)
      (htype : join.joinType ≠ .right) (hleft : SameReplayedRows left left')
      (hright : SameReplayedRows right right') :
      SameReplayedRows (.hashJoin left right join) (.hashJoin left' right' join)

variable [Readers]

/-- Plans that replay the same rows have the same schema. -/
theorem SameReplayedRows.schema_eq {P P' : PhysicalPlan} (h : SameReplayedRows P P') :
    P'.schema = P.schema := by
  induction h with
  | inMemory _ _ _ => rfl
  | scan columns hschema _ =>
    simp only [PhysicalPlan.schema, DataSource.schema, hschema]
  | projection schema expr _ _ => rfl
  | selection expr _ ih => exact ih
  | limit n _ ih => exact ih
  | hashAggregate agg _ _ => rfl
  | hashJoin join _ _ _ _ _ => rfl

variable [Runtime]

/-! ## The streams -/

omit [Readers] [Runtime] in
/-- The columns of all batches of the stream are of these types. -/
def OfTypes (types : List DataType) (stream : BatchStream) : Prop :=
  ∀ b, .ok b ∈ stream → b.types = types

omit [Readers] [Runtime] in
/-- The rows of the batches of a stream. -/
def rowChunks (stream : BatchStream) : List (Result (List Row)) :=
  stream.map fun item => RecordBatch.rows <$> item

omit [Readers] [Runtime] in
/-- The chunks of a stream without a panic are the rows of its batches. -/
theorem rowChunks_map_ok (batches : List RecordBatch) :
    rowChunks (batches.map .ok) = (batches.map RecordBatch.rows).map .ok := by
  rw [rowChunks, List.map_map, List.map_map]
  rfl

omit [Readers] [Runtime] in
/-- A stream without a failing chunk can be pulled to its end. -/
theorem of_rowChunks_eq_map_ok {stream : BatchStream} {xss : List (List Row)}
    (h : rowChunks stream = xss.map .ok) :
    ∃ batches : List RecordBatch, stream = batches.map .ok ∧ rowsOf batches = xss.flatten := by
  induction stream generalizing xss with
  | nil =>
    obtain rfl : [] = xss := by simpa [rowChunks] using h
    exact ⟨[], rfl, rfl⟩
  | cons item rest ih =>
    cases xss with
    | nil => cases h
    | cons xs xss =>
      obtain ⟨hitem, hrest⟩ := List.cons.inj h
      obtain ⟨b, rfl, rfl⟩ := Outcome.map_eq_ok_iff.mp hitem
      obtain ⟨batches, rfl, hrows⟩ := ih hrest
      refine ⟨b :: batches, rfl, ?_⟩
      rw [rowsOf, List.flatMap_cons, ← rowsOf, hrows, List.flatten_cons]

omit [Readers] [Runtime] in
/-- Two streams that can be pulled to their ends and cut the same list hold the same rows. -/
theorem rowsOf_eq_of_agree {batches batches' : List RecordBatch}
    (h : Chunks.Agree (rowChunks (batches.map .ok)) (rowChunks (batches'.map .ok))) :
    rowsOf batches = rowsOf batches' := by
  obtain ⟨whole, hs, hs'⟩ := h
  rw [rowChunks_map_ok] at hs hs'
  rw [rowsOf, rowsOf, List.flatMap_def, List.flatMap_def, ← hs.eq_flatten, ← hs'.eq_flatten]

omit [Readers] [Runtime] in
/-- Batches with the same rows agree, however they are cut. -/
theorem agree_of_rowsOf_eq {batches batches' : List RecordBatch}
    (h : rowsOf batches = rowsOf batches') :
    Chunks.Agree (rowChunks (batches.map .ok)) (rowChunks (batches'.map .ok)) := by
  rw [rowsOf, rowsOf, List.flatMap_def, List.flatMap_def] at h
  rw [rowChunks_map_ok, rowChunks_map_ok]
  exact ⟨_, Chunks.cuts_map_ok _, h ▸ Chunks.cuts_map_ok _⟩

omit [Readers] [Runtime] in
/-- An operator that works on single batches works row by row when it does so on each batch. -/
theorem traverses_map {types : List DataType} {f : Row → Result (List Row)}
    {op : RecordBatch → Result RecordBatch}
    (hop : ∀ b out, b.types = types → op b = .ok out →
      ∃ yss, b.rows.mapM f = .ok yss ∧ out.rows = yss.flatten)
    {stream : BatchStream} (hstream : OfTypes types stream) :
    Chunks.Traverses f (rowChunks stream)
      (rowChunks (stream.map fun item => do op (← item))) := by
  induction stream with
  | nil => exact .nil
  | cons item rest ih =>
    refine .cons ?_ (ih fun b hb => hstream b (List.mem_cons_of_mem _ hb))
    intro ys hys
    cases item with
    | error e => cases hys
    | ok b =>
      obtain ⟨out, hout, rfl⟩ := Outcome.map_eq_ok_iff.mp hys
      obtain ⟨yss, hyss, hrows⟩ := hop b out (hstream b List.mem_cons_self) hout
      exact ⟨b.rows, yss, rfl, hyss, hrows⟩

/-- What a projection makes of one row. -/
def projectRow (types : List DataType) (exprs : List Expression) (r : Row) : Result (List Row) := do
  return [← exprs.mapM fun e => e.evalCell types r]

/-- What a selection makes of one row. -/
def filterRow (types : List DataType) (expr : Expression) (r : Row) : Result (List Row) := do
  return if (← expr.evalCell types r) = .boolean true then [r] else []

omit [Readers] in
/-- A batch is projected row by row. -/
theorem projectBatch_traverses {types : List DataType} {schema : Schema} {exprs : List Expression}
    {b out : RecordBatch} (htypes : b.types = types) (h : projectBatch schema exprs b = .ok out) :
    ∃ yss, b.rows.mapM (projectRow types exprs) = .ok yss ∧ out.rows = yss.flatten := by
  obtain ⟨-, -, -, -, hrows⟩ := projectBatch_ok h
  rw [htypes] at hrows
  refine ⟨out.rows.map fun r => [r], ?_, by rw [← List.flatMap_def, List.flatMap_singleton']⟩
  unfold projectRow
  rw [Outcome.mapM_bind_pure, hrows]
  rfl

omit [Readers] [Runtime] in
/-- Keeping the rows whose cell is true, row by row. -/
theorem keepTrue_eq_flatten (rows : List Row) (cells : List ScalarValue) :
    keepTrue rows cells =
      ((rows.zip cells).map fun x => if x.2 = .boolean true then [x.1] else []).flatten := by
  unfold keepTrue
  induction rows.zip cells with
  | nil => rfl
  | cons x rest ih =>
    rw [List.map_cons, List.flatten_cons, ← ih]
    by_cases hx : x.2 = .boolean true <;> simp [hx]

omit [Readers] in
/-- Each row is kept or dropped by its own cell. -/
theorem filterRow_mapM {types : List DataType} {expr : Expression} {rows : List Row}
    {cells : List ScalarValue} (h : rows.mapM (expr.evalCell types) = .ok cells) :
    rows.mapM (filterRow types expr) =
      .ok ((rows.zip cells).map fun x => if x.2 = .boolean true then [x.1] else []) := by
  have hall := Outcome.mapM_eq_ok_iff.mp h
  clear h
  induction hall with
  | nil => rfl
  | @cons r cell rows cells hcell _ ih =>
    rw [List.zip_cons_cons, List.map_cons, Outcome.mapM_cons_eq_ok_iff]
    exact ⟨_, _, by rw [filterRow, hcell]; rfl, ih, rfl⟩

omit [Readers] in
/-- A batch is filtered row by row. -/
theorem filterBatch_traverses {types : List DataType} {schema : Schema} {expr : Expression}
    {b out : RecordBatch} (htypes : b.types = types) (h : filterBatch schema expr b = .ok out) :
    ∃ yss, b.rows.mapM (filterRow types expr) = .ok yss ∧ out.rows = yss.flatten := by
  obtain ⟨-, cells, hcells, -, -, -, -, hrows⟩ := filterBatch_eq_ok_iff.mp h
  rw [htypes] at hcells
  exact ⟨_, filterRow_mapM hcells, hrows.trans (keepTrue_eq_flatten _ _)⟩

omit [Readers] [Runtime] in
/-- A limit cuts the first rows of the list. -/
theorem cuts_limitStream {schema : Schema} {n : ℕ} {stream : BatchStream} {whole : List Row}
    (h : Chunks.Cuts whole (rowChunks stream)) :
    Chunks.Cuts (whole.take n) (rowChunks (limitStream schema n stream)) := by
  -- On the stream, with the rows still to be taken; the batch that reaches the limit is cut.
  induction stream generalizing n whole with
  | nil =>
    obtain rfl : [] = whole := h.complete (by simp [rowChunks])
    rw [List.take_nil]
    exact h
  | cons item rest ih =>
    cases item with
    | error e =>
      rw [limitStream]
      exact Chunks.cuts_error _ e _
    | ok b =>
      obtain ⟨whole', rfl, hrest⟩ := Chunks.cuts_ok_iff.mp h
      cases n with
      | zero => exact ⟨List.nil_prefix, fun _ => rfl⟩
      | succ n =>
        have hlen : b.rows.length = b.numRows := b.rows_length
        rw [limitStream]
        by_cases hle : b.numRows ≤ n + 1
        · rw [if_pos hle, List.take_append, List.take_of_length_le (hlen ▸ hle)]
          exact Chunks.cuts_ok_iff.mpr ⟨_, rfl, hlen ▸ ih hrest⟩
        · rw [if_neg hle, List.take_append_of_le_length (by omega)]
          cases htruncate : truncate schema b (n + 1) with
          | error e => exact Chunks.cuts_error _ e _
          | ok out =>
            obtain ⟨-, -, -, -, hrows⟩ := (truncate_eq_ok_iff (by omega)).mp htruncate
            -- After the cut nothing more is taken, whatever the rest of the stream holds.
            have hcut := ih (n := 0) hrest
            rw [List.take_zero] at hcut
            exact Chunks.cuts_ok_iff.mpr ⟨[], by rw [hrows, List.append_nil], hcut⟩

omit [Readers] [Runtime] in
/-- A stream without a panic is of types if its batches are. -/
theorem ofTypes_map_ok {types : List DataType} {batches : List RecordBatch} :
    OfTypes types (batches.map .ok) ↔ ∀ b ∈ batches, b.types = types := by
  simp [OfTypes]

/-! ## The operators -/

omit [Readers] in
/-- Projected batches are of the types of their schema. -/
theorem projection_ofTypes (schema : Schema) (expr : List Expression) (stream : BatchStream) :
    OfTypes schema.types (stream.map fun item => do projectBatch schema expr (← item)) := by
  intro b hb
  obtain ⟨item, -, hitem⟩ := List.mem_map.mp hb
  obtain ⟨c, -, hc⟩ := Outcome.bind_eq_ok_iff.mp hitem
  rw [b.types_eq_schema, (projectBatch_ok hc).1]

omit [Readers] in
/-- Filtered batches are of the types of their schema. -/
theorem selection_ofTypes (schema : Schema) (expr : Expression) (stream : BatchStream) :
    OfTypes schema.types (stream.map fun item => do filterBatch schema expr (← item)) := by
  intro b hb
  obtain ⟨item, -, hitem⟩ := List.mem_map.mp hb
  obtain ⟨c, -, hc⟩ := Outcome.bind_eq_ok_iff.mp hitem
  obtain ⟨-, -, -, hschema, -⟩ := filterBatch_eq_ok_iff.mp hc
  rw [b.types_eq_schema, hschema]

omit [Readers] [Runtime] in
/-- A batch is cut under a schema of its own types. -/
theorem limitStream_ofTypes {types : List DataType} {schema : Schema} {n : ℕ}
    {stream : BatchStream} (h : OfTypes types stream) :
    OfTypes types (limitStream schema n stream) := by
  induction stream generalizing n with
  | nil => exact h
  -- Every batch passes as it came, or cut to its first rows; either way its types stay.
  | cons item rest ih =>
    have hrest : OfTypes types rest := fun b hb => h b (List.mem_cons_of_mem _ hb)
    intro out hout
    cases item with
    | error e => exact absurd hout (by simp [limitStream])
    | ok b =>
      cases n with
      | zero => cases hout
      | succ n =>
        rw [limitStream] at hout
        by_cases hle : b.numRows ≤ n + 1
        · rw [if_pos hle] at hout
          rcases List.mem_cons.mp hout with heq | hout
          · exact Except.ok.inj heq ▸ h b List.mem_cons_self
          · exact ih hrest out hout
        · rw [if_neg hle] at hout
          rcases List.mem_cons.mp hout with heq | hout
          · obtain ⟨hschema, htypes, -⟩ := (truncate_eq_ok_iff (by omega)).mp heq.symm
            rw [out.types_eq_schema, hschema, ← htypes, h b List.mem_cons_self]
          · exact ih hrest out hout

omit [Readers] [Runtime] in
/-- A scan in memory picks the columns out of every row. -/
theorem scan_ok {source : InMemoryDataSource} {columns : List String} {stream : BatchStream}
    (h : source.scan columns = .ok stream) :
    ∃ types, ∃ pick : Row → Row,
      (∀ source' : InMemoryDataSource, source.schema = source'.schema →
        ∀ stream', source'.scan columns = .ok stream' → ∃ out, stream' = out.map .ok ∧
          (∀ b ∈ out, b.types = types) ∧ rowsOf out = (rowsOf source'.data).map pick) := by
  by_cases hcolumns : columns.isEmpty
  · refine ⟨source.schema.types, id, fun source' hschema stream' h' => ?_⟩
    rw [InMemoryDataSource.scan, if_pos hcolumns] at h'
    refine ⟨source'.data, (Except.ok.inj h').symm, fun b hb => ?_, (List.map_id _).symm⟩
    rw [b.types_eq_schema, source'.conforms b hb, hschema]
  · rw [InMemoryDataSource.scan, if_neg hcolumns] at h
    obtain ⟨idx, hidx, h⟩ := Outcome.bind_eq_ok_iff.mp h
    obtain ⟨t, ht, -⟩ := Outcome.bind_eq_ok_iff.mp h
    refine ⟨t.types, cellsAt idx, fun source' hschema stream' h' => ?_⟩
    rw [InMemoryDataSource.scan, if_neg hcolumns, ← hschema, hidx, ht, Outcome.ok_bind,
      Outcome.ok_bind] at h'
    obtain ⟨out, hout, rfl⟩ := Outcome.bind_pure_eq_ok_iff.mp h'
    have hbatch : ∀ b c, InMemoryDataSource.projectBatch t idx b = .ok c →
        c.schema = t ∧ c.rows = b.rows.map (cellsAt idx) := by
      intro b c hc
      obtain ⟨cols, hcols, hc⟩ := Outcome.bind_eq_ok_iff.mp hc
      obtain ⟨rfl, rfl, hne⟩ := RecordBatch.tryNew_eq_ok_iff.mp hc
      obtain ⟨a, ha⟩ := List.exists_mem_of_ne_nil _ hne
      obtain ⟨i, -, hi⟩ := Outcome.mapM_mem hcols ha
      refine ⟨rfl, RecordBatch.rows_of_columns hcols ?_⟩
      rw [← c.lengths a ha, b.lengths a (List.mem_of_getElem? (index_eq_ok_iff.mp hi))]
    refine ⟨out, rfl, fun c hc => ?_, ?_⟩
    · obtain ⟨b, -, hb⟩ := Outcome.mapM_mem hout hc
      rw [c.types_eq_schema, (hbatch b c hb).1]
    · rw [rowsOf, rowsOf, List.map_flatMap, List.flatMap_def, List.flatMap_def]
      have hall := Outcome.mapM_eq_ok_iff.mp hout
      congr 1
      exact (Outcome.forall₂_map_eq hall fun b c hb => (hbatch b c hb).2.symm).symm

omit [Readers] in
/-- An aggregation returns the same batch for all batches of the same rows. -/
theorem aggregate_run_congr {agg : HashAggregate} {mode : AggregateMode} {types : List DataType}
    {stream stream' : BatchStream} {out out' : RecordBatch} (ht : OfTypes types stream)
    (ht' : OfTypes types stream') (hagree : Chunks.Agree (rowChunks stream) (rowChunks stream'))
    (h : agg.run mode stream = .ok out) (h' : agg.run mode stream' = .ok out') : out = out' := by
  obtain ⟨batches, items, m, rows, hbatches, hitems, hm, hrows, hout⟩ :=
    HashAggregate.run_eq_ok_iff.mp h
  obtain ⟨batches', items', m', rows', hbatches', hitems', hm', hrows', hout'⟩ :=
    HashAggregate.run_eq_ok_iff.mp h'
  obtain rfl := Outcome.mapM_id_eq_ok_iff.mp hbatches
  obtain rfl := Outcome.mapM_id_eq_ok_iff.mp hbatches'
  have hread := HashAggregate.readBatches_of_types (ofTypes_map_ok.mp ht) hitems
  have hread' := HashAggregate.readBatches_of_types (ofTypes_map_ok.mp ht') hitems'
  rw [← rowsOf] at hread hread'
  rw [← rowsOf_eq_of_agree hagree, hread] at hread'
  rw [← Except.ok.inj hread', hm] at hm'
  rw [← Except.ok.inj hm', hrows] at hrows'
  rw [← Except.ok.inj hrows', hout] at hout'
  exact Except.ok.inj hout'

/-- The streams of the two executions cut the same list of rows. -/
theorem execute_agree {P P' : PhysicalPlan} (h : SameReplayedRows P P') {ctx : ExecutorContext}
    {s s' : BatchStream} (hs : P.execute ctx = .ok s) (hs' : P'.execute ctx = .ok s') :
    ∃ types, OfTypes types s ∧ OfTypes types s' ∧ Chunks.Agree (rowChunks s) (rowChunks s') := by
  -- On the two plans side by side; they differ only in how their tables are cut into batches.
  induction h generalizing s s' with
  | @inMemory schema batches batches' hb hb' hrows =>
    cases hs
    cases hs'
    refine ⟨schema.types, ofTypes_map_ok.mpr fun b h => ?_, ofTypes_map_ok.mpr fun b h => ?_,
      agree_of_rowsOf_eq hrows⟩
    · rw [b.types_eq_schema, hb b h]
    · rw [b.types_eq_schema, hb' b h]
  | @scan source source' columns hschema hrows =>
    obtain ⟨types, pick, hpick⟩ := scan_ok hs
    obtain ⟨out, rfl, htypes, hout⟩ := hpick source rfl s hs
    obtain ⟨out', rfl, htypes', hout'⟩ := hpick source' hschema s' hs'
    refine ⟨types, ofTypes_map_ok.mpr htypes, ofTypes_map_ok.mpr htypes', agree_of_rowsOf_eq ?_⟩
    rw [hout, hout', hrows]
  | @projection input input' schema expr _ ih =>
    obtain ⟨t, ht, rfl⟩ := Outcome.bind_pure_eq_ok_iff.mp hs
    obtain ⟨t', ht', rfl⟩ := Outcome.bind_pure_eq_ok_iff.mp hs'
    obtain ⟨types, htypes, htypes', hagree⟩ := ih ht ht'
    exact ⟨schema.types, projection_ofTypes schema expr t, projection_ofTypes schema expr t',
      hagree.traverse (traverses_map (fun b out => projectBatch_traverses) htypes)
        (traverses_map (fun b out => projectBatch_traverses) htypes')⟩
  | @selection input input' expr hinput ih =>
    obtain ⟨schema, hschema, hs⟩ := Outcome.bind_eq_ok_iff.mp hs
    obtain ⟨schema', hschema', hs'⟩ := Outcome.bind_eq_ok_iff.mp hs'
    obtain rfl : schema = schema' := by simpa [hinput.schema_eq, hschema] using hschema'
    obtain ⟨t, ht, rfl⟩ := Outcome.bind_pure_eq_ok_iff.mp hs
    obtain ⟨t', ht', rfl⟩ := Outcome.bind_pure_eq_ok_iff.mp hs'
    obtain ⟨types, htypes, htypes', hagree⟩ := ih ht ht'
    exact ⟨schema.types, selection_ofTypes schema expr t, selection_ofTypes schema expr t',
      hagree.traverse (traverses_map (fun b out => filterBatch_traverses) htypes)
        (traverses_map (fun b out => filterBatch_traverses) htypes')⟩
  | @limit input input' n hinput ih =>
    obtain ⟨schema, hschema, hs⟩ := Outcome.bind_eq_ok_iff.mp hs
    obtain ⟨schema', hschema', hs'⟩ := Outcome.bind_eq_ok_iff.mp hs'
    obtain rfl : schema = schema' := by simpa [hinput.schema_eq, hschema] using hschema'
    obtain ⟨t, ht, rfl⟩ := Outcome.bind_pure_eq_ok_iff.mp hs
    obtain ⟨t', ht', rfl⟩ := Outcome.bind_pure_eq_ok_iff.mp hs'
    obtain ⟨types, htypes, htypes', whole, hcuts, hcuts'⟩ := ih ht ht'
    exact ⟨types, limitStream_ofTypes htypes, limitStream_ofTypes htypes', whole.take n,
      cuts_limitStream hcuts, cuts_limitStream hcuts'⟩
  | @hashAggregate input input' agg _ ih =>
    obtain ⟨t, ht, hs⟩ := Outcome.bind_eq_ok_iff.mp hs
    obtain ⟨t', ht', hs'⟩ := Outcome.bind_eq_ok_iff.mp hs'
    obtain ⟨out, hout, rfl⟩ := Outcome.bind_pure_eq_ok_iff.mp hs
    obtain ⟨out', hout', rfl⟩ := Outcome.bind_pure_eq_ok_iff.mp hs'
    obtain ⟨types, htypes, htypes', hagree⟩ := ih ht ht'
    -- The map is filled row by row, so where a batch ended cannot be seen in it.
    obtain rfl := aggregate_run_congr htypes htypes' hagree hout hout'
    have hsingle : [Except.ok out] = [out].map (Except.ok (ε := Panic)) := rfl
    rw [hsingle]
    have hout : OfTypes out.types ([out].map .ok) := ofTypes_map_ok.mpr (by simp)
    exact ⟨out.types, hout, hout, agree_of_rowsOf_eq rfl⟩
  | @hashJoin left left' right right' join _ hleft hright ihl ihr =>
    obtain ⟨l, hl, hs⟩ := Outcome.bind_eq_ok_iff.mp hs
    obtain ⟨l', hl', hs'⟩ := Outcome.bind_eq_ok_iff.mp hs'
    obtain ⟨r, hr, hs⟩ := Outcome.bind_eq_ok_iff.mp hs
    obtain ⟨r', hr', hs'⟩ := Outcome.bind_eq_ok_iff.mp hs'
    -- Both inputs are collected before the join, so only their rows matter.
    obtain ⟨lb, rb, ob, schema, rfl, rfl, rfl, hschema, hdeclared, hrows⟩ := HashJoin.run_ok hs
    obtain ⟨lb', rb', ob', schema', rfl, rfl, rfl, hschema', hdeclared', hrows'⟩ :=
      HashJoin.run_ok hs'
    obtain rfl : schema = schema' := by simpa [hright.schema_eq, hschema] using hschema'
    obtain ⟨-, -, -, hagreel⟩ := ihl hl hl'
    obtain ⟨-, -, -, hagreer⟩ := ihr hr hr'
    refine ⟨join.schema.types, ofTypes_map_ok.mpr fun b hb => ?_,
      ofTypes_map_ok.mpr fun b hb => ?_, agree_of_rowsOf_eq ?_⟩
    · rw [b.types_eq_schema, hdeclared b hb]
    · rw [b.types_eq_schema, hdeclared' b hb]
    · rw [hrows, hrows', rowsOf_eq_of_agree hagreel, rowsOf_eq_of_agree hagreer, hleft.schema_eq]

/-- Where neither execution panics, the two yield the same rows in the same order. -/
theorem rows_eq_of_sameReplayedRows {P P' : PhysicalPlan} (h : SameReplayedRows P P')
    {ctx : ExecutorContext} {rows rows' : List Row} (hrows : P.rows ctx = .ok rows)
    (hrows' : P'.rows ctx = .ok rows') : rows = rows' := by
  obtain ⟨s, hs, hrows⟩ := Outcome.bind_eq_ok_iff.mp hrows
  obtain ⟨s', hs', hrows'⟩ := Outcome.bind_eq_ok_iff.mp hrows'
  obtain ⟨batches, hbatches, rfl⟩ := Outcome.bind_pure_eq_ok_iff.mp hrows
  obtain ⟨batches', hbatches', rfl⟩ := Outcome.bind_pure_eq_ok_iff.mp hrows'
  obtain rfl := Outcome.mapM_id_eq_ok_iff.mp hbatches
  obtain rfl := Outcome.mapM_id_eq_ok_iff.mp hbatches'
  obtain ⟨-, -, -, hagree⟩ := execute_agree h hs hs'
  exact rowsOf_eq_of_agree hagree

end RQuery
