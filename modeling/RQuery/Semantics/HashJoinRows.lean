import RQuery.Semantics.Rows

/-!
# The rows of a hash join

What `HashJoinExec` does to the rows of its inputs. Reading keys and rows off the batches, building
the table and probing it depend on the rows alone and not on the batches that they come in, and so
do the rows of the output (`HashJoin.run_ok`).
-/

namespace RQuery

namespace HashJoin

variable [FloatModel]

/-- The table of the right rows: the rows of every key, in order. -/
def tableOf (join : HashJoin) (rs : List Row) : HashTable :=
  (KeyedFold.firstKeys (rs.map (cellsAt join.rightKeys))).map fun key =>
    (key, Joins.matching (cellsAt join.rightKeys) rs key)

/-- The output rows of the probe phase. -/
def probeRows (join : HashJoin) (rightFieldCount : ℕ) (ls rs : List Row) : List Row :=
  ls.flatMap fun l => join.probeRow (join.tableOf rs) rightFieldCount (cellsAt join.leftKeys l) l

/-- The output rows of a right join's last phase. -/
def paddedRows [Runtime] (join : HashJoin) (leftFieldCount : ℕ) (ls rs : List Row) : List Row :=
  join.unmatchedRows (join.tableOf rs)
    ((ls.map (cellsAt join.leftKeys)).filter fun key => (get? (join.tableOf rs) key).isSome)
    leftFieldCount

/-- The output rows. -/
def outputRows [Runtime] (join : HashJoin) (leftFieldCount rightFieldCount : ℕ)
    (ls rs : List Row) : List Row :=
  join.probeRows rightFieldCount ls rs ++
    if join.joinType = .right then join.paddedRows leftFieldCount ls rs else []

/-! ## Reading the batches -/

/-- A cell that can be read is the cell of the array. -/
theorem value_eq_getD {a : ArrayRef} {i : ℕ} {v : ScalarValue} (h : a.value i = .ok v) :
    v = a.cells.getD i .null := by
  obtain ⟨w, hw, h⟩ := Outcome.bind_eq_ok_iff.mp h
  rw [index_eq_ok_iff] at hw
  rw [List.getD_eq_getElem?_getD, hw, Option.getD_some]
  by_cases hnull : w.isNull
  · rw [if_pos hnull] at h
    obtain rfl : ScalarValue.null = v := Except.ok.inj h
    cases w <;> simp_all [ScalarValue.isNull]
  · rw [if_neg hnull] at h
    split at h
    · exact (Except.ok.inj h).symm
    · cases h

/-- The key of a row is made of its cells at the key columns. -/
theorem keyOf_eq {b : RecordBatch} {keys : List ℕ} {i : ℕ} {key : RowKey}
    (h : keyOf b keys i = .ok key) : key = cellsAt keys (b.row i) := by
  refine Outcome.eq_map_of_mapM h fun k v hk => ?_
  obtain ⟨cv, hcv, hv⟩ := Outcome.bind_eq_ok_iff.mp hk
  obtain ⟨a, ha, rfl⟩ := Outcome.bind_pure_eq_ok_iff.mp hcv
  rw [index_eq_ok_iff] at ha
  rw [value_eq_getD hv]
  simp [RecordBatch.row, Table.row, ha]

/-- The row that is read is the row of the batch. -/
theorem fullRow_eq {b : RecordBatch} {i : ℕ} {row : Row} (h : fullRow b i = .ok row) :
    row = b.row i := by
  rw [Outcome.eq_map_of_mapM h fun a v hv => value_eq_getD hv, RecordBatch.row, Table.row,
    List.map_map]
  rfl

/-! ## The build phase -/

/-- Appending the rows of every key one by one makes the table of the rows. -/
theorem foldKeyed_tableOf (join : HashJoin) {rs : List Row} {table : HashTable}
    (h : KeyedFold.foldKeyed [] (fun rows r => (.ok (rows ++ [r]) : Result (List Row)))
      (rs.map fun r => (cellsAt join.rightKeys r, r)) [] = .ok table) :
    table = join.tableOf rs := by
  rw [KeyedFold.foldKeyed_eq_ok_iff] at h
  -- Every row is appended behind the earlier ones of its key.
  have hfold : ∀ (rows acc : List Row),
      rows.foldlM (fun acc r => (.ok (acc ++ [r]) : Result (List Row))) acc = .ok (acc ++ rows) := by
    intro rows
    induction rows with
    | nil => intro acc; simp
    | cons r rows ih =>
      intro acc
      rw [List.foldlM_cons, Outcome.ok_bind, ih, List.append_assoc, List.singleton_append]
  -- So a key holds its matching rows in order.
  have hvalues : ∀ key, KeyedFold.accumulated []
      (fun rows r => (.ok (rows ++ [r]) : Result (List Row)))
      (rs.map fun r => (cellsAt join.rightKeys r, r)) key =
        .ok (Joins.matching (cellsAt join.rightKeys) rs key) := by
    intro key
    rw [KeyedFold.accumulated, hfold, List.nil_append, KeyedFold.valuesOf, Joins.matching,
      List.filter_map, List.map_map]
    exact congrArg Except.ok (List.map_id _)
  rw [List.map_map, KeyedFold.tabulate] at h
  refine Outcome.eq_map_of_mapM h fun key p hp => ?_
  rw [hvalues] at hp
  exact (Except.ok.inj hp).symm

/-- Inserting a batch appends each of its rows to those of its key. -/
theorem insertBatch_ok {join : HashJoin} {table table' : HashTable} {b : RecordBatch}
    (h : join.insertBatch table b = .ok table') :
    KeyedFold.foldKeyed [] (fun rows r => (.ok (rows ++ [r]) : Result (List Row)))
      (b.rows.map fun r => (cellsAt join.rightKeys r, r)) table = .ok table' := by
  have hread : (List.range b.numRows).foldlM (fun table row => do
      let x ← (do
        let key ← keyOf b join.rightKeys row
        return (key, ← fullRow b row) : Result (RowKey × Row))
      KeyedFold.upsert [] (fun rows => .ok (rows ++ [x.2])) table x.1) table = .ok table' := by
    rw [← h, insertBatch]
    simp only [bind_assoc, pure_bind]
  obtain ⟨items, hitems, hfold⟩ := Outcome.foldlM_bind_eq_ok_iff.mp hread
  have hrows : items = b.rows.map fun r => (cellsAt join.rightKeys r, r) := by
    rw [show b.rows = (List.range b.numRows).map b.row from rfl, List.map_map]
    refine Outcome.eq_map_of_mapM hitems fun i x hx => ?_
    obtain ⟨key, hkey, hx⟩ := Outcome.bind_eq_ok_iff.mp hx
    obtain ⟨r, hr, rfl⟩ := Outcome.bind_pure_eq_ok_iff.mp hx
    rw [keyOf_eq hkey, fullRow_eq hr]
    rfl
  rw [← hrows]
  exact hfold

/-- The build side makes the table of all its rows. -/
theorem insertBatches_ok {join : HashJoin} {right : BatchStream} {table : HashTable}
    (h : right.foldlM (fun table item => do join.insertBatch table (← item)) [] = .ok table) :
    ∃ rb, right = rb.map .ok ∧ table = join.tableOf (rowsOf rb) := by
  obtain ⟨rb, hrb, hfold⟩ := Outcome.foldlM_bind_eq_ok_iff.mp h
  refine ⟨rb, Outcome.mapM_id_eq_ok_iff.mp hrb, foldKeyed_tableOf join ?_⟩
  have hbatches : ∀ (rb : List RecordBatch) (table table' : HashTable),
      rb.foldlM join.insertBatch table = .ok table' →
      KeyedFold.foldKeyed [] (fun rows r => (.ok (rows ++ [r]) : Result (List Row)))
        ((rowsOf rb).map fun r => (cellsAt join.rightKeys r, r)) table = .ok table' := by
    intro rb
    induction rb with
    | nil => exact fun table table' h => h
    | cons b rb ih =>
      intro table table' h
      rw [List.foldlM_cons] at h
      obtain ⟨m, hm, h⟩ := Outcome.bind_eq_ok_iff.mp h
      rw [rowsOf, List.flatMap_cons, List.map_append, KeyedFold.foldKeyed,
        Outcome.foldlM_append_eq_ok_iff]
      exact ⟨m, insertBatch_ok hm, ih m table' h⟩
  exact hbatches rb [] table hfold

/-- Looking a key up finds its rows. -/
theorem get?_tableOf (join : HashJoin) (rs : List Row) (key : RowKey) :
    get? (join.tableOf rs) key =
      if key ∈ rs.map (cellsAt join.rightKeys) then
        some (Joins.matching (cellsAt join.rightKeys) rs key)
      else none := by
  have hfind : ∀ keys : List RowKey, get? (keys.map fun key =>
      (key, Joins.matching (cellsAt join.rightKeys) rs key)) key =
        if key ∈ keys then some (Joins.matching (cellsAt join.rightKeys) rs key) else none := by
    intro keys
    induction keys with
    | nil => rfl
    | cons k keys ih =>
      unfold get? at ih ⊢
      rw [List.map_cons, List.find?_cons]
      by_cases hk : k = key
      · subst hk
        simp
      · simpa [hk, Ne.symm hk] using ih
  rw [tableOf, hfind]
  simp only [KeyedFold.mem_firstKeys]

/-! ## The probe phase -/

/-- A batch is probed row by row. -/
theorem probeBatch_ok {join : HashJoin} {table : HashTable} {rightFieldCount : ℕ}
    {b : RecordBatch} {rows : List Row} (h : join.probeBatch table rightFieldCount b = .ok rows) :
    rows = b.rows.flatMap fun l =>
      join.probeRow table rightFieldCount (cellsAt join.leftKeys l) l := by
  obtain ⟨rowss, hrowss, rfl⟩ := Outcome.bind_pure_eq_ok_iff.mp h
  rw [List.flatMap_def, show b.rows = (List.range b.numRows).map b.row from rfl, List.map_map]
  congr 1
  refine Outcome.eq_map_of_mapM hrowss fun i x hx => ?_
  obtain ⟨key, hkey, hx⟩ := Outcome.bind_eq_ok_iff.mp hx
  obtain ⟨r, hr, rfl⟩ := Outcome.bind_pure_eq_ok_iff.mp hx
  rw [Function.comp, keyOf_eq hkey, fullRow_eq hr]

/-- The rows of the batch of some output rows, if there are any. -/
theorem createBatches_ok {join : HashJoin} {rows : List Row} {out : List RecordBatch}
    (h : join.createBatches rows = .ok out) :
    (∀ b ∈ out, b.schema = join.schema) ∧ rowsOf out = rows.filter (!·.isEmpty) := by
  unfold createBatches at h
  split at h
  · rename_i hnil
    cases h
    rw [List.isEmpty_iff.mp hnil]
    exact ⟨by simp, rfl⟩
  · obtain ⟨b, hb, rfl⟩ := Outcome.bind_pure_eq_ok_iff.mp h
    obtain ⟨hschema, hrows⟩ := buildRows_rows hb
    refine ⟨by simpa using hschema, ?_⟩
    rw [rowsOf, List.flatMap_singleton, hrows]

/-! ## Against the nested loops -/

/-- The table has the keys of the right side. -/
theorem get?_tableOf_isSome {join : HashJoin} {rs : List Row} {key : RowKey} :
    (get? (join.tableOf rs) key).isSome ↔ key ∈ rs.map (cellsAt join.rightKeys) := by
  rw [get?_tableOf]
  by_cases hkey : key ∈ rs.map (cellsAt join.rightKeys)
  · rw [if_pos hkey]
    exact iff_of_true rfl hkey
  · rw [if_neg hkey]
    exact iff_of_false (by simp) hkey

/-- A key without a match is no key of the right side. -/
theorem matching_isEmpty_iff {keys : List ℕ} {rs : List Row} {key : RowKey} :
    (Joins.matching (cellsAt keys) rs key).isEmpty ↔ key ∉ rs.map (cellsAt keys) := by
  rw [List.isEmpty_iff, Joins.matching, List.filter_eq_nil_iff, List.mem_map]
  simp only [decide_eq_true_eq, not_exists, not_and]

/-- The probe phase pairs every left row with the right rows of its key. -/
theorem probeRow_tableOf (join : HashJoin) (rightFieldCount : ℕ) (rs : List Row) (key : RowKey)
    (l : Row) :
    join.probeRow (join.tableOf rs) rightFieldCount key l =
      if key ∈ rs.map (cellsAt join.rightKeys) then
        (Joins.matching (cellsAt join.rightKeys) rs key).map (join.combineRows l)
      else if join.joinType = .left then
        [join.combineRows l (List.replicate rightFieldCount .null)]
      else [] := by
  unfold probeRow
  rw [get?_tableOf]
  by_cases hkey : key ∈ rs.map (cellsAt join.rightKeys)
  · rw [if_pos hkey, if_pos hkey]
  · rw [if_neg hkey, if_neg hkey]
    cases join.joinType <;> rfl

/-- But for a left join, probing yields the inner join. -/
theorem probeRows_inner {join : HashJoin} (h : join.joinType ≠ .left) (rightFieldCount : ℕ)
    (ls rs : List Row) :
    join.probeRows rightFieldCount ls rs =
      Joins.inner (cellsAt join.leftKeys) (cellsAt join.rightKeys) join.combineRows ls rs := by
  refine congrArg (fun f => ls.flatMap f) (funext fun l => ?_)
  rw [probeRow_tableOf, if_neg h]
  by_cases hkey : cellsAt join.leftKeys l ∈ rs.map (cellsAt join.rightKeys)
  · rw [if_pos hkey]
  · rw [if_neg hkey, List.isEmpty_iff.mp (matching_isEmpty_iff.mpr hkey)]
    rfl

/-- Probing for a left join yields the left join. -/
theorem probeRows_left {join : HashJoin} (h : join.joinType = .left) (rightFieldCount : ℕ)
    (ls rs : List Row) :
    join.probeRows rightFieldCount ls rs =
      Joins.left (cellsAt join.leftKeys) (cellsAt join.rightKeys) join.combineRows
        (fun l => join.combineRows l (List.replicate rightFieldCount .null)) ls rs := by
  refine congrArg (fun f => ls.flatMap f) (funext fun l => ?_)
  rw [probeRow_tableOf, if_pos h]
  by_cases hkey : cellsAt join.leftKeys l ∈ rs.map (cellsAt join.rightKeys)
  · rw [if_pos hkey, if_neg (matching_isEmpty_iff.not.mpr (not_not.mpr hkey))]
  · rw [if_neg hkey, if_pos (matching_isEmpty_iff.mpr hkey)]

/-- The last phase of a right join pads the right rows without a match. -/
theorem paddedRows_perm [Runtime] (join : HashJoin) (leftFieldCount : ℕ) (ls rs : List Row) :
    (join.paddedRows leftFieldCount ls rs).Perm
      (Joins.unmatched (cellsAt join.leftKeys) (cellsAt join.rightKeys)
        (join.combineRows (List.replicate leftFieldCount .null)) ls rs) := by
  unfold paddedRows unmatchedRows
  refine ((Runtime.mapOrder_perm (join.tableOf rs)).flatMap_right _).trans (.of_eq ?_)
  rw [tableOf, List.flatMap_map, Joins.unmatched]
  refine List.flatMap_congr fun key hkey => ?_
  have hsome : (get? (join.tableOf rs) key).isSome :=
    get?_tableOf_isSome.mpr (KeyedFold.mem_firstKeys.mp hkey)
  have hmem : key ∈ (ls.map (cellsAt join.leftKeys)).filter
      (fun key => (get? (join.tableOf rs) key).isSome) ↔ key ∈ ls.map (cellsAt join.leftKeys) := by
    rw [List.mem_filter, and_iff_left hsome]
  rw [← tableOf]
  by_cases hleft : key ∈ ls.map (cellsAt join.leftKeys)
  · rw [if_pos (hmem.mpr hleft), if_pos hleft]
  · rw [if_neg (hmem.not.mpr hleft), if_neg hleft]

/-- The rows of a hash join are those of the nested-loop join with its layout of a pair. -/
theorem outputRows_perm_joins [Runtime] (join : HashJoin) (leftFieldCount rightFieldCount : ℕ)
    (ls rs : List Row) :
    (join.outputRows leftFieldCount rightFieldCount ls rs).Perm
      (match join.joinType with
      | .inner => Joins.inner (cellsAt join.leftKeys) (cellsAt join.rightKeys) join.combineRows ls rs
      | .left => Joins.left (cellsAt join.leftKeys) (cellsAt join.rightKeys) join.combineRows
          (fun l => join.combineRows l (List.replicate rightFieldCount .null)) ls rs
      | .right => Joins.right (cellsAt join.leftKeys) (cellsAt join.rightKeys) join.combineRows
          (join.combineRows (List.replicate leftFieldCount .null)) ls rs) := by
  unfold outputRows
  cases htype : join.joinType with
  | inner =>
    rw [if_neg (by decide), List.append_nil, probeRows_inner (by rw [htype]; decide)]
  | left => rw [if_neg (by decide), List.append_nil, probeRows_left htype]
  | right =>
    rw [if_pos rfl, probeRows_inner (by rw [htype]; decide)]
    exact (paddedRows_perm join leftFieldCount ls rs).append_left _

/-! ## The run -/

variable [Runtime]

omit [Runtime] in
/-- The batches of the probe phase. -/
theorem probeBatches_ok {join : HashJoin} {rs : List Row} {left : BatchStream} {c : ℕ}
    {outputs : List (List RecordBatch)}
    (h : left.mapM (fun item => do
      join.createBatches (← join.probeBatch (join.tableOf rs) c (← item))) = .ok outputs) :
    ∃ lb, left = lb.map .ok ∧ (∀ b ∈ outputs.flatten, b.schema = join.schema) ∧
      rowsOf outputs.flatten = (join.probeRows c (rowsOf lb) rs).filter (!·.isEmpty) := by
  obtain ⟨lb, hlb, hcreate⟩ := Outcome.mapM_bind_eq_ok_iff.mp h
  have hall := Outcome.mapM_eq_ok_iff.mp hcreate
  refine ⟨lb, Outcome.mapM_id_eq_ok_iff.mp hlb, ?_⟩
  clear h hcreate hlb
  induction hall with
  | nil => exact ⟨by simp, rfl⟩
  | @cons b obs lb outputs hb _ ih =>
    obtain ⟨rows, hrows, hcreate⟩ := Outcome.bind_eq_ok_iff.mp hb
    obtain rfl := probeBatch_ok hrows
    obtain ⟨hschema, hout⟩ := createBatches_ok hcreate
    refine ⟨?_, ?_⟩
    · rw [List.flatten_cons, List.forall_mem_append]
      exact ⟨hschema, ih.1⟩
    · rw [List.flatten_cons, rowsOf, List.flatMap_append, ← rowsOf, ← rowsOf, hout, ih.2, probeRows,
        probeRows, rowsOf, rowsOf, List.flatMap_cons, List.flatMap_append, List.filter_append]

omit [Runtime] in
/-- The matched keys are the keys on the left that the table has. -/
theorem matchedKeys_ok {join : HashJoin} {rs : List Row} {lb : List RecordBatch}
    {keys : List RowKey} (h : join.matchedKeys (join.tableOf rs) (lb.map .ok) = .ok keys) :
    keys = ((rowsOf lb).map (cellsAt join.leftKeys)).filter fun key =>
      (get? (join.tableOf rs) key).isSome := by
  obtain ⟨keyss, hkeyss, rfl⟩ := Outcome.bind_pure_eq_ok_iff.mp h
  congr 1
  rw [List.mapM_map] at hkeyss
  have hbatch : keyss = lb.map fun b => b.rows.map (cellsAt join.leftKeys) := by
    refine Outcome.eq_map_of_mapM hkeyss fun b keys hkeys => ?_
    rw [show b.rows = (List.range b.numRows).map b.row from rfl, List.map_map]
    exact Outcome.eq_map_of_mapM hkeys fun i key hkey => keyOf_eq hkey
  rw [hbatch, rowsOf, List.map_flatMap, List.flatMap_def]

/-- The batches of a run are of the join's schema, and their rows are those that the join makes of
the rows of its inputs. -/
theorem run_ok {join : HashJoin} {leftSchema rightSchema : Result Schema}
    {left right out : BatchStream}
    (h : join.run leftSchema rightSchema left right = .ok out) :
    ∃ lb rb ob rs, left = lb.map .ok ∧ right = rb.map .ok ∧ out = ob.map .ok ∧
      rightSchema = .ok rs ∧ (∀ b ∈ ob, b.schema = join.schema) ∧
      rowsOf ob = (join.outputRows (leftSchema.toOption.getD ⟨[]⟩).fields.length rs.fields.length
        (rowsOf lb) (rowsOf rb)).filter (!·.isEmpty) := by
  obtain ⟨table, htable, h⟩ := Outcome.bind_eq_ok_iff.mp h
  obtain ⟨rs, hrs, h⟩ := Outcome.bind_eq_ok_iff.mp h
  obtain ⟨outputs, houtputs, h⟩ := Outcome.bind_eq_ok_iff.mp h
  obtain ⟨rb, rfl, rfl⟩ := insertBatches_ok htable
  obtain ⟨lb, rfl, hschema, hrows⟩ := probeBatches_ok houtputs
  dsimp only at h
  -- Only a right join goes through the table once more for the rows that nothing matched.
  by_cases hright : join.joinType = .right
  · rw [if_pos hright] at h
    obtain ⟨keys, hkeys, h⟩ := Outcome.bind_eq_ok_iff.mp h
    obtain ⟨ls, hls, h⟩ := Outcome.bind_eq_ok_iff.mp h
    obtain ⟨unmatched, hunmatched, rfl⟩ := Outcome.bind_pure_eq_ok_iff.mp h
    obtain rfl := matchedKeys_ok hkeys
    obtain ⟨hschema', hrows'⟩ := createBatches_ok hunmatched
    refine ⟨lb, rb, outputs.flatten ++ unmatched, rs, rfl, rfl, rfl, hrs,
      List.forall_mem_append.mpr ⟨hschema, hschema'⟩, ?_⟩
    rw [outputRows, if_pos hright, List.filter_append, paddedRows, hls, ← hrows, rowsOf,
      List.flatMap_append, ← rowsOf, ← rowsOf, hrows']
    rfl
  · rw [if_neg hright] at h
    have hout : (outputs.flatten ++ []).map Except.ok = out := Except.ok.inj h
    rw [List.append_nil] at hout
    refine ⟨lb, rb, outputs.flatten, rs, rfl, rfl, hout.symm, hrs, hschema, ?_⟩
    rw [outputRows, if_neg hright, List.append_nil, hrows]

/-- A run reads every row of its inputs. -/
theorem run_reads {join : HashJoin} {leftSchema rightSchema : Result Schema}
    {left right out : BatchStream} (h : join.run leftSchema rightSchema left right = .ok out)
    {b : RecordBatch} (hb : .ok b ∈ left ∨ .ok b ∈ right) {i : ℕ} (hi : i < b.numRows) :
    Outcome.Succeeds (fullRow b i) := by
  obtain ⟨table, htable, h⟩ := Outcome.bind_eq_ok_iff.mp h
  obtain ⟨rs, hrs, h⟩ := Outcome.bind_eq_ok_iff.mp h
  obtain ⟨outputs, houtputs, -⟩ := Outcome.bind_eq_ok_iff.mp h
  rcases hb with hb | hb
  · obtain ⟨_, -, hbatch⟩ := Outcome.mapM_mem_left houtputs hb
    rw [Outcome.ok_bind] at hbatch
    obtain ⟨rows, hrows, -⟩ := Outcome.bind_eq_ok_iff.mp hbatch
    obtain ⟨rowss, hrowss, -⟩ := Outcome.bind_pure_eq_ok_iff.mp hrows
    obtain ⟨_, -, hrow⟩ := Outcome.mapM_mem_left hrowss (List.mem_range.mpr hi)
    obtain ⟨key, -, hrow⟩ := Outcome.bind_eq_ok_iff.mp hrow
    obtain ⟨row, hrow, -⟩ := Outcome.bind_pure_eq_ok_iff.mp hrow
    exact ⟨row, hrow⟩
  · obtain ⟨table₁, table₂, hbatch⟩ := Outcome.foldlM_mem htable hb
    obtain ⟨table₃, table₄, hstep⟩ := Outcome.foldlM_mem hbatch (List.mem_range.mpr hi)
    obtain ⟨key, -, hstep⟩ := Outcome.bind_eq_ok_iff.mp hstep
    obtain ⟨row, hrow, -⟩ := Outcome.bind_eq_ok_iff.mp hstep
    exact ⟨row, hrow⟩

/-! ## When a run returns -/

section

omit [Runtime]

/-- The rows of the batch can be read: its columns are of the schema, and all supported. -/
def Readable (s : Schema) (b : RecordBatch) : Prop :=
  b.schema = s ∧ ∀ t ∈ s.types, t.hasBuilder

/-- Every cell of a batch that can be read is read. -/
theorem Readable.value {s : Schema} {b : RecordBatch} (hb : Readable s b) {a : ArrayRef}
    (ha : a ∈ b.columns) {i : ℕ} (hi : i < b.numRows) : Outcome.Succeeds (a.value i) := by
  obtain ⟨rfl, hsup⟩ := hb
  have htype : a.dataType.hasBuilder :=
    hsup _ (b.types_eq_schema ▸ List.mem_map_of_mem ha)
  have hlt : i < a.cells.length := (b.lengths a ha).symm ▸ hi
  exact ⟨_, a.value_eq_ok htype (List.getElem?_eq_getElem hlt)⟩

/-- The key of a row can be read. -/
theorem keyOf_succeeds {s : Schema} {b : RecordBatch} (hb : Readable s b) {keys : List ℕ}
    (hkeys : ∀ k ∈ keys, k < s.fields.length) {i : ℕ} (hi : i < b.numRows) :
    Outcome.Succeeds (keyOf b keys i) := by
  rw [keyOf, Outcome.mapM_succeeds_iff]
  intro k hk
  have hlt : k < b.columns.length := by
    rw [b.columns_length, hb.1]
    exact hkeys k hk
  obtain ⟨v, hv⟩ := hb.value (List.getElem_mem hlt) hi
  exact ⟨v, by rw [RecordBatch.field, index_of_lt hlt]; exact hv⟩

/-- A row can be read. -/
theorem fullRow_succeeds {s : Schema} {b : RecordBatch} (hb : Readable s b) {i : ℕ}
    (hi : i < b.numRows) : Outcome.Succeeds (fullRow b i) := by
  rw [fullRow, Outcome.mapM_succeeds_iff]
  exact fun a ha => hb.value ha hi

/-- A batch that can be read can be inserted. -/
theorem insertBatch_succeeds {join : HashJoin} {s : Schema} {b : RecordBatch} (hb : Readable s b)
    (hkeys : ∀ k ∈ join.rightKeys, k < s.fields.length) (table : HashTable) :
    Outcome.Succeeds (join.insertBatch table b) := by
  refine Outcome.foldlM_succeeds (fun i hi table => ?_) table
  obtain ⟨key, hkey⟩ := keyOf_succeeds hb hkeys (List.mem_range.mp hi)
  obtain ⟨row, hrow⟩ := fullRow_succeeds hb (List.mem_range.mp hi)
  rw [hkey, Outcome.ok_bind, hrow, Outcome.ok_bind]
  exact KeyedFold.upsert_succeeds (fun rows => ⟨rows ++ [row], rfl⟩) table key

/-- A batch that can be read can be probed. -/
theorem probeBatch_succeeds {join : HashJoin} {s : Schema} {b : RecordBatch} (hb : Readable s b)
    (hkeys : ∀ k ∈ join.leftKeys, k < s.fields.length) (table : HashTable) (c : ℕ) :
    Outcome.Succeeds (join.probeBatch table c b) := by
  have hrows : Outcome.Succeeds ((List.range b.numRows).mapM fun row => do
      let probeKey ← keyOf b join.leftKeys row
      return join.probeRow table c probeKey (← fullRow b row)) := by
    rw [Outcome.mapM_succeeds_iff]
    intro i hi
    obtain ⟨key, hkey⟩ := keyOf_succeeds hb hkeys (List.mem_range.mp hi)
    obtain ⟨row, hrow⟩ := fullRow_succeeds hb (List.mem_range.mp hi)
    exact ⟨_, by rw [hkey, Outcome.ok_bind, hrow]; rfl⟩
  obtain ⟨rows, hrows⟩ := hrows
  exact ⟨rows.flatten, by rw [probeBatch, hrows]; rfl⟩

/-- Rows that can be built are put into a batch. -/
theorem createBatches_succeeds {join : HashJoin} {rows : List Row} (h : Builds join.schema rows) :
    Outcome.Succeeds (join.createBatches rows) := by
  unfold createBatches
  split
  · exact ⟨[], rfl⟩
  · obtain ⟨out, hout, -⟩ := buildRows_succeeds h
    exact ⟨[out], by rw [hout]; rfl⟩

/-- The matched keys of batches that can be read are found. -/
theorem matchedKeys_succeeds {join : HashJoin} {s : Schema} {lb : List RecordBatch}
    (hlb : ∀ b ∈ lb, Readable s b) (hkeys : ∀ k ∈ join.leftKeys, k < s.fields.length)
    (table : HashTable) : Outcome.Succeeds (join.matchedKeys table (lb.map .ok)) := by
  have hall : Outcome.Succeeds ((lb.map (.ok : RecordBatch → Result RecordBatch)).mapM fun item => do
      let batch ← item
      (List.range batch.numRows).mapM (keyOf batch join.leftKeys)) := by
    rw [List.mapM_map, Outcome.mapM_succeeds_iff]
    intro b hb
    show Outcome.Succeeds ((List.range b.numRows).mapM (keyOf b join.leftKeys))
    rw [Outcome.mapM_succeeds_iff]
    exact fun i hi => keyOf_succeeds (hlb b hb) hkeys (List.mem_range.mp hi)
  obtain ⟨keys, hkeys⟩ := hall
  exact ⟨_, by rw [matchedKeys, hkeys]; rfl⟩

end

/-- A run returns when its inputs can be read and its rows can be built into batches. -/
theorem run_succeeds {join : HashJoin} {ls rs rs' : Schema} {leftSchema rightSchema : Result Schema}
    {lb rb : List RecordBatch} (hlb : ∀ b ∈ lb, Readable ls b) (hrb : ∀ b ∈ rb, Readable rs b)
    (hleftKeys : ∀ k ∈ join.leftKeys, k < ls.fields.length)
    (hrightKeys : ∀ k ∈ join.rightKeys, k < rs.fields.length)
    (hleft : join.joinType = .right → Outcome.Succeeds leftSchema) (hright : rightSchema = .ok rs')
    (hbuild : Builds join.schema (join.outputRows (leftSchema.toOption.getD ⟨[]⟩).fields.length
      rs'.fields.length (rowsOf lb) (rowsOf rb))) :
    ∃ ob : List RecordBatch, join.run leftSchema rightSchema (lb.map .ok) (rb.map .ok) =
      .ok (ob.map .ok) := by
  have hprobe : Builds join.schema (join.probeRows rs'.fields.length (rowsOf lb) (rowsOf rb)) :=
    ⟨hbuild.fields_ne, hbuild.hasBuilder, fun r hr => hbuild.fits r (List.mem_append_left _ hr)⟩
  have htable : Outcome.Succeeds ((rb.map (.ok : RecordBatch → Result RecordBatch)).foldlM
      (fun table item => do join.insertBatch table (← item)) []) := by
    refine Outcome.foldlM_succeeds (fun item hitem table => ?_) []
    obtain ⟨b, hb, rfl⟩ := List.mem_map.mp hitem
    exact insertBatch_succeeds (hrb b hb) hrightKeys table
  obtain ⟨table, htable⟩ := htable
  obtain rfl : table = join.tableOf (rowsOf rb) := by
    obtain ⟨rb', hrb', htable'⟩ := insertBatches_ok htable
    rw [htable', Outcome.map_ok_injective hrb']
  have houtputs : Outcome.Succeeds ((lb.map (.ok : RecordBatch → Result RecordBatch)).mapM
      fun item => do
        join.createBatches
          (← join.probeBatch (join.tableOf (rowsOf rb)) rs'.fields.length (← item))) := by
    rw [List.mapM_map, Outcome.mapM_succeeds_iff]
    intro b hb
    obtain ⟨rows, hrows⟩ := probeBatch_succeeds (hlb b hb) hleftKeys (join.tableOf (rowsOf rb))
      rs'.fields.length
    show Outcome.Succeeds (join.probeBatch _ _ b >>= join.createBatches)
    rw [hrows]
    refine createBatches_succeeds ⟨hprobe.fields_ne, hprobe.hasBuilder, fun r hr => ?_⟩
    rw [probeBatch_ok hrows] at hr
    obtain ⟨l, hl, hr⟩ := List.mem_flatMap.mp hr
    exact hprobe.fits r (List.mem_flatMap.mpr ⟨l, List.mem_flatMap.mpr ⟨b, hb, hl⟩, hr⟩)
  obtain ⟨outputs, houtputs⟩ := houtputs
  unfold run
  rw [htable, Outcome.ok_bind, hright, Outcome.ok_bind]
  dsimp only
  rw [houtputs, Outcome.ok_bind]
  by_cases htype : join.joinType = .right
  · obtain ⟨s, hs⟩ := hleft htype
    obtain ⟨keys, hkeys⟩ := matchedKeys_succeeds hlb hleftKeys (join.tableOf (rowsOf rb))
    obtain rfl := matchedKeys_ok hkeys
    have hpadded : Builds join.schema
        (join.paddedRows s.fields.length (rowsOf lb) (rowsOf rb)) := by
      refine ⟨hbuild.fields_ne, hbuild.hasBuilder, fun r hr => hbuild.fits r ?_⟩
      rw [outputRows, if_pos htype, hs]
      exact List.mem_append_right _ hr
    obtain ⟨unmatched, hunmatched⟩ := createBatches_succeeds hpadded
    refine ⟨outputs.flatten ++ unmatched, ?_⟩
    rw [paddedRows] at hunmatched
    rw [if_pos htype, hkeys, Outcome.ok_bind, hs, Outcome.ok_bind, hunmatched]
    rfl
  · rw [if_neg htype]
    exact ⟨outputs.flatten ++ [], rfl⟩

end HashJoin

end RQuery
