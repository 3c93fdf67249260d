import RQuery.Physical.Plan
import RQuery.Common.Joins

/-!
# Writing and reading a shuffle

`write_shuffle` puts every row into the partition that its key hashes to, and lists the partitions
with rows; a reader of the listed partitions gets every row back, those of a partition in the order
of the input (`writeShuffle_partitions`). The step lemma is `pushBatch_eq_ok`: a batch adds to every
buffer its rows of that partition.
-/

namespace RQuery

/-- A count that is not negative is the number. -/
theorem asUsize_of_nonneg {n : Int32} (h : 0 ≤ n.toInt) : asUsize n = n.toInt.toNat := by
  have := Int32.toInt_lt n
  rw [asUsize, Int.emod_eq_of_lt h (by omega)]

section

variable [FloatModel]

/-! ## Files -/

namespace ShuffleManager

variable {m : ShuffleManager} {file file' : PartitionFile} {batches : List RecordBatch}

/-- A written file has its batches. -/
theorem file?_writePartition_self (h : batches ≠ []) :
    (m.writePartition file batches).file? file = some batches := by
  rw [writePartition, if_neg (by simpa using h), file?, List.find?_cons, decide_eq_true rfl]
  rfl

/-- Other files stay. -/
theorem file?_writePartition_ne (h : file' ≠ file) :
    (m.writePartition file batches).file? file' = m.file? file' := by
  unfold writePartition
  split
  · rfl
  · have hkeep : (fun entry : PartitionFile × List RecordBatch =>
        decide (decide (entry.1 ≠ file) = true ∧ decide (entry.1 = file') = true)) =
          fun entry => decide (entry.1 = file') := by
      funext entry
      by_cases hentry : entry.1 = file'
      · simp [hentry, h]
      · simp [hentry]
    rw [file?, file?, List.find?_cons, decide_eq_false (Ne.symm h), List.find?_filter, hkeep]

end ShuffleManager

variable [Runtime]

namespace ShuffleWriter

/-- The partition of a row. -/
def partitionOf (w : ShuffleWriter) (types : List DataType) (row : Row) : Result ℕ := do
  let key ← w.partitionExpr.mapM fun e => e.evalCell types row
  hashTarget key (asUsize w.partitionCount)

/-- The rows of one partition, in order. -/
def rowsOfPartition (w : ShuffleWriter) (types : List DataType) (rows : List Row) (p : ℕ) :
    List Row :=
  rows.filter fun r => w.partitionOf types r = .ok p

variable {w : ShuffleWriter} {schema : Schema} {types : List DataType} {rows : List Row}

/-- The targets of a batch are the partitions of its rows. -/
theorem computeTargets_eq {b : RecordBatch} {keyColumns : List ColumnVector}
    (h : w.partitionExpr.mapM (fun e => e.evaluate b) = .ok keyColumns) :
    computeTargets keyColumns b.numRows (asUsize w.partitionCount) =
      b.rows.mapM (w.partitionOf b.types) := by
  rw [computeTargets, show b.rows = (List.range b.numRows).map b.row from rfl, List.mapM_map]
  refine Outcome.mapM_congr fun i hi => ?_
  have hcell : ∀ (e : Expression) (cv : ColumnVector), e.evaluate b = .ok cv →
      e.evalCell b.types (b.row i) = cv.value i := by
    intro e cv he
    obtain ⟨t, -, hcv⟩ := Expression.evaluate_computes he
    exact (hcv.value_eq i (List.mem_range.mp hi)).symm
  rw [Function.comp_apply, partitionOf,
    Outcome.mapM_congr_forall₂ (Outcome.mapM_eq_ok_iff.mp h) hcell]

/-- The rows that are selected for a partition. -/
theorem selected_rows {b : RecordBatch} {targets : List ℕ} {types : List DataType}
    (h : b.rows.mapM (w.partitionOf types) = .ok targets) (p : ℕ) :
    ((List.range b.numRows).filter fun row => targets[row]? = some p).map b.row =
      w.rowsOfPartition types b.rows p := by
  rw [rowsOfPartition, show b.rows = (List.range b.numRows).map b.row from rfl, List.filter_map]
  congr 1
  refine List.filter_congr fun i hi => ?_
  obtain ⟨t, ht, hpartition⟩ := Outcome.mapM_getElem? h (b.rows_getElem? (List.mem_range.mp hi))
  rw [ht, Function.comp_apply, hpartition]
  simp

/-- What a batch adds to a buffer: the rows of its partition, if it has any. -/
structure Extends (rows : List Row) (buffer buffer' : List RecordBatch) : Prop where
  rows_eq : rowsOf buffer' = rowsOf buffer ++ rows
  nonempty : (∀ b ∈ buffer, b.rows ≠ []) → ∀ b ∈ buffer', b.rows ≠ []

/-- The rows of the batch can be hashed into partitions. -/
structure Partitions (w : ShuffleWriter) (types : List DataType) (rows : List Row) : Prop where
  typed : ∀ e ∈ w.partitionExpr, Outcome.Succeeds (e.dataType types)
  evaluates : ∀ r ∈ rows, ∀ e ∈ w.partitionExpr, Outcome.Succeeds (e.evalCell types r)

/-- Every row has a partition. -/
theorem Partitions.partitionOf (h : w.Partitions types rows) (hn : 0 < asUsize w.partitionCount)
    {r : Row} (hr : r ∈ rows) :
    ∃ p < asUsize w.partitionCount, w.partitionOf types r = .ok p := by
  obtain ⟨key, hkey⟩ := Outcome.mapM_succeeds_iff.mpr (h.evaluates r hr)
  rw [ShuffleWriter.partitionOf, hkey, Outcome.ok_bind, hashTarget, if_neg hn.ne']
  exact ⟨_, Nat.mod_lt _ hn, rfl⟩

/-- A batch adds to every buffer its rows of that partition. -/
theorem pushBatch_eq_ok (hn : 0 < asUsize w.partitionCount) (hne : schema.fields ≠ [])
    (hsup : ∀ t ∈ schema.types, t.hasBuilder) {b : RecordBatch} (hb : b.schema = schema)
    (hrows : w.Partitions schema.types b.rows) (buffers : List (List RecordBatch)) :
    ∃ buffers', w.pushBatch schema buffers b = .ok buffers' ∧
      buffers'.length = buffers.length ∧
      ∀ p buffer, buffers[p]? = some buffer → ∃ buffer', buffers'[p]? = some buffer' ∧
        Extends (w.rowsOfPartition schema.types b.rows p) buffer buffer' := by
  have htypes : b.types = schema.types := hb ▸ b.types_eq_schema
  have hkeys : Outcome.Succeeds (w.partitionExpr.mapM fun e => e.evaluate b) := by
    rw [Outcome.mapM_succeeds_iff]
    intro e he
    obtain ⟨t, ht⟩ := hrows.typed e he
    rw [← htypes] at ht
    refine Expression.evaluate_succeeds ht fun k hk => htypes ▸ hrows.evaluates _ ?_ e he
    exact RecordBatch.mem_rows_iff.mpr ⟨k, hk, rfl⟩
  obtain ⟨keyColumns, hkeys⟩ := hkeys
  obtain ⟨targets, htargets⟩ : Outcome.Succeeds (b.rows.mapM (w.partitionOf schema.types)) := by
    rw [Outcome.mapM_succeeds_iff]
    intro r hr
    obtain ⟨p, -, hp⟩ := hrows.partitionOf hn hr
    exact ⟨p, hp⟩
  have hcompute := computeTargets_eq hkeys
  rw [htypes, htargets] at hcompute
  have hbuffer : ∀ x : List RecordBatch × ℕ, ∃ buffer',
      (do
        let take := (List.range b.numRows).filter fun row => targets[row]? = some x.2
        if take.isEmpty then return x.1 else return x.1 ++ [← takeRows schema b take]) =
          (.ok buffer' : Result (List RecordBatch)) ∧
      Extends (w.rowsOfPartition schema.types b.rows x.2) x.1 buffer' := by
    rintro ⟨buffer, p⟩
    have hselected := selected_rows htargets p
    dsimp only at hselected ⊢
    by_cases hempty : ((List.range b.numRows).filter fun row => targets[row]? = some p).isEmpty
    · rw [if_pos hempty]
      rw [List.isEmpty_iff.mp hempty, List.map_nil] at hselected
      exact ⟨buffer, rfl, by rw [← hselected, List.append_nil], id⟩
    · rw [if_neg hempty]
      have hfits : ∀ r ∈ w.rowsOfPartition schema.types b.rows p, RowFits schema.types r :=
        fun r hr => hb ▸ b.rows_fit r (List.mem_of_mem_filter hr)
      have htake : takeRows schema b
          ((List.range b.numRows).filter fun row => targets[row]? = some p) =
          .ok (.ofRows schema _ hfits) :=
        (takeRows_eq_ok_iff fun j hj => List.mem_range.mp (List.mem_of_mem_filter hj)).mpr
          ⟨rfl, htypes, hne, hsup, (RecordBatch.ofRows_rows _ _ hfits).trans hselected.symm⟩
      refine ⟨buffer ++ [.ofRows schema _ hfits], by rw [htake]; rfl, ?_, fun hall => ?_⟩
      · rw [rowsOf, rowsOf, List.flatMap_append, List.flatMap_singleton,
          RecordBatch.ofRows_rows _ _ hfits]
      · refine List.forall_mem_append.mpr ⟨hall, fun c hc => ?_⟩
        rw [List.mem_singleton.mp hc, RecordBatch.ofRows_rows _ _ hfits, ← hselected]
        simpa using hempty
  choose buffer' hbuffer' hextends using hbuffer
  refine ⟨buffers.zipIdx.map buffer', ?_, by simp, fun p buffer hp => ⟨buffer' (buffer, p), ?_, ?_⟩⟩
  · rw [pushBatch, hkeys, Outcome.ok_bind, hcompute, Outcome.ok_bind]
    exact Outcome.mapM_eq_ok_map fun x _ => hbuffer' x
  · simp [hp]
  · exact hextends (buffer, p)

/-- The buffers hold the rows of their partitions. -/
structure Buffers (w : ShuffleWriter) (types : List DataType) (rows : List Row)
    (buffers : List (List RecordBatch)) : Prop where
  length_eq : buffers.length = asUsize w.partitionCount
  rows_eq : ∀ (p : ℕ) (buffer : List RecordBatch), buffers[p]? = some buffer →
    rowsOf buffer = w.rowsOfPartition types rows p
  nonempty : ∀ (p : ℕ) (buffer : List RecordBatch), buffers[p]? = some buffer →
    ∀ b ∈ buffer, b.rows ≠ []

/-- The batches of the input end up in the buffers. -/
theorem partitionBatches_eq_ok (hn : 0 < asUsize w.partitionCount) (hne : schema.fields ≠ [])
    (hsup : ∀ t ∈ schema.types, t.hasBuilder) {batches : List RecordBatch}
    (hs : ∀ b ∈ batches, b.schema = schema)
    (hrows : w.Partitions schema.types (rowsOf batches)) :
    ∃ buffers, w.partitionBatches schema (batches.map .ok) = .ok buffers ∧
      w.Buffers schema.types (rowsOf batches) buffers := by
  rw [partitionBatches, List.foldlM_map]
  induction batches using List.reverseRecOn with
  | nil =>
    refine ⟨_, rfl, by simp, fun p buffer hp => ?_, fun p buffer hp => ?_⟩
    · obtain rfl := List.eq_of_mem_replicate (List.mem_of_getElem? hp)
      rfl
    · obtain rfl := List.eq_of_mem_replicate (List.mem_of_getElem? hp)
      simp
  | append_singleton batches b ih =>
    have happend : rowsOf (batches ++ [b]) = rowsOf batches ++ b.rows := by
      rw [rowsOf, List.flatMap_append, List.flatMap_singleton]
      rfl
    rw [happend] at hrows ⊢
    obtain ⟨buffers, hbuffers, hinv⟩ := ih (fun c hc => hs c (List.mem_append_left _ hc))
      ⟨hrows.typed, fun r hr => hrows.evaluates r (List.mem_append_left _ hr)⟩
    obtain ⟨buffers', hpush, hlen, hextends⟩ := pushBatch_eq_ok hn hne hsup
      (hs b (by simp)) ⟨hrows.typed, fun r hr => hrows.evaluates r (List.mem_append_right _ hr)⟩
      buffers
    have hold : ∀ p buffer', buffers'[p]? = some buffer' → ∃ buffer, buffers[p]? = some buffer ∧
        Extends (w.rowsOfPartition schema.types b.rows p) buffer buffer' := by
      intro p buffer' hp
      have hlt : p < buffers.length := hlen ▸ (List.getElem?_eq_some_iff.mp hp).1
      obtain ⟨buffer'', hp', h⟩ := hextends p _ (List.getElem?_eq_getElem hlt)
      obtain rfl : buffer'' = buffer' := by simpa [hp] using hp'.symm
      exact ⟨_, List.getElem?_eq_getElem hlt, h⟩
    refine ⟨buffers', ?_, hlen.trans hinv.length_eq, fun p buffer' hp => ?_,
      fun p buffer' hp => ?_⟩
    · rw [List.foldlM_append, hbuffers, Outcome.ok_bind, List.foldlM_cons, Outcome.ok_bind, hpush]
      rfl
    · obtain ⟨buffer, hbuffer, h⟩ := hold p buffer' hp
      rw [h.rows_eq, hinv.rows_eq p buffer hbuffer, rowsOfPartition, rowsOfPartition,
        rowsOfPartition, List.filter_append]
    · obtain ⟨buffer, hbuffer, h⟩ := hold p buffer' hp
      exact h.nonempty (hinv.nonempty p buffer hbuffer)

/-- The buffers hold every row once. -/
theorem Buffers.rows_perm {buffers : List (List RecordBatch)} (h : w.Buffers types rows buffers)
    (hn : 0 < asUsize w.partitionCount) (hrows : w.Partitions types rows) :
    (rowsOf buffers.flatten).Perm rows := by
  have hflat : rowsOf buffers.flatten = buffers.flatMap rowsOf := by
    rw [rowsOf, ← List.flatMap_id, List.flatMap_assoc]
    rfl
  have hrange : buffers.zipIdx.map Prod.snd = List.range (asUsize w.partitionCount) := by
    rw [List.zipIdx_map_snd, h.length_eq, List.range_eq_range']
  have hbuffers : buffers.flatMap rowsOf =
      (List.range (asUsize w.partitionCount)).flatMap (w.rowsOfPartition types rows) := by
    rw [List.flatMap_def, List.flatMap_def, ← hrange, List.map_map]
    congr 1
    conv_lhs => rw [← List.zipIdx_map_fst 0 buffers, List.map_map]
    refine List.map_congr_left fun x hx => ?_
    exact h.rows_eq x.2 x.1 (List.mem_zipIdx_iff_getElem?.mp hx)
  rw [hflat, hbuffers]
  have hnumbers : ((List.range (asUsize w.partitionCount)).map (Except.ok (ε := Panic))).Nodup :=
    List.nodup_range.map fun _ _ h => Except.ok.inj h
  have hperm := Joins.flatMap_matching_perm (w.partitionOf types) rows hnumbers
  rw [List.flatMap_map, List.filter_eq_self.mpr] at hperm
  · exact hperm
  · intro r hr
    obtain ⟨p, hp, hpartition⟩ := hrows.partitionOf hn hr
    exact decide_eq_true (List.mem_map.mpr ⟨p, List.mem_range.mpr hp, hpartition.symm⟩)

/-- Without rows all buffers are empty. -/
theorem Buffers.eq_nil {buffers : List (List RecordBatch)} (h : w.Buffers types [] buffers) :
    ∀ buffer ∈ buffers, buffer = [] := by
  intro buffer hmem
  obtain ⟨p, hp⟩ := List.getElem?_of_mem hmem
  have hrows := h.rows_eq p buffer hp
  by_contra hne
  obtain ⟨b, hb⟩ := List.exists_mem_of_ne_nil _ hne
  exact h.nonempty p buffer hp b hb (List.flatMap_eq_nil_iff.mp hrows b hb)

/-- A batch that was added to the buffers could be hashed into partitions. -/
theorem partitions_of_pushBatch {b : RecordBatch} (hb : b.schema = schema)
    {buffers buffers' : List (List RecordBatch)} (h : w.pushBatch schema buffers b = .ok buffers') :
    w.Partitions schema.types b.rows := by
  have htypes : b.types = schema.types := hb ▸ b.types_eq_schema
  obtain ⟨keyColumns, hkeys, h⟩ := Outcome.bind_eq_ok_iff.mp h
  obtain ⟨targets, htargets, -⟩ := Outcome.bind_eq_ok_iff.mp h
  rw [computeTargets_eq hkeys, htypes] at htargets
  constructor
  · intro e he
    obtain ⟨column, -, hcolumn⟩ := Outcome.mapM_mem_left hkeys he
    obtain ⟨t, ht, -⟩ := Expression.evaluate_computes hcolumn
    exact ⟨t, htypes ▸ ht⟩
  · intro r hr e he
    obtain ⟨target, -, htarget⟩ := Outcome.mapM_mem_left htargets hr
    obtain ⟨key, hkey, -⟩ := Outcome.bind_eq_ok_iff.mp htarget
    exact Outcome.mapM_succeeds_iff.mp ⟨key, hkey⟩ e he

/-- What a shuffle that was written has put into the buffers. -/
theorem writeShuffle_buffers {ctx : ExecutorContext} {batches : List RecordBatch}
    (hcount : 1 ≤ w.partitionCount.toInt) (hne : schema.fields ≠ [])
    (hsup : ∀ t ∈ schema.types, t.hasBuilder) (hs : ∀ b ∈ batches, b.schema = schema)
    (hbatches : batches ≠ []) {written : List ShuffleLocation × ShuffleManager}
    (h : w.writeShuffle (.ok schema) (.ok (batches.map .ok)) ctx = .ok written) :
    ∃ buffers, w.Buffers schema.types (rowsOf batches) buffers ∧
      w.Partitions schema.types (rowsOf batches) ∧ written = w.storePartitions ctx buffers := by
  have hn := asUsize_of_nonneg (n := w.partitionCount) (by omega)
  obtain ⟨buffers, hbuffers, rfl⟩ := Outcome.bind_pure_eq_ok_iff.mp h
  have hpartitions : ∀ b ∈ batches, w.Partitions schema.types b.rows := by
    intro b hb
    rw [partitionBatches, List.foldlM_map] at hbuffers
    obtain ⟨before, after, hpush⟩ := Outcome.foldlM_mem hbuffers hb
    exact partitions_of_pushBatch (hs b hb) hpush
  have hrows : w.Partitions schema.types (rowsOf batches) := by
    obtain ⟨b, hb⟩ := List.exists_mem_of_ne_nil _ hbatches
    refine ⟨(hpartitions b hb).typed, fun r hr => ?_⟩
    obtain ⟨c, hc, hr⟩ := List.mem_flatMap.mp hr
    exact (hpartitions c hc).evaluates r hr
  obtain ⟨buffers', hbuffers', hinv⟩ :=
    partitionBatches_eq_ok (by omega) hne hsup hs hrows
  obtain rfl : buffers' = buffers := Except.ok.inj (hbuffers'.symm.trans hbuffers)
  exact ⟨buffers', hinv, hrows, rfl⟩

omit [Runtime]

/-- The location that is reported for a partition. -/
def location (w : ShuffleWriter) (ctx : ExecutorContext) (p : ℕ) : ShuffleLocation :=
  ⟨w.jobUuid, w.stageId, Int32.ofNat p, ctx.executorId, ctx.executorHost, ctx.executorPort⟩

/-- Write one partition and add its location, unless it is empty. -/
def storeOne (w : ShuffleWriter) (ctx : ExecutorContext)
    (acc : List ShuffleLocation × ShuffleManager) (x : List RecordBatch × ℕ) :
    List ShuffleLocation × ShuffleManager :=
  if x.1.isEmpty then acc
  else (acc.1 ++ [w.location ctx x.2], acc.2.writePartition (w.partitionFile x.2) x.1)

/-- The partitions are stored one by one, with their numbers. -/
theorem storePartitions_eq (w : ShuffleWriter) (ctx : ExecutorContext)
    (buffers : List (List RecordBatch)) :
    w.storePartitions ctx buffers =
      buffers.zipIdx.foldl (w.storeOne ctx) ([], ctx.shuffleManager) := rfl

variable {ctx : ExecutorContext}

/-- A partition that is not empty is located. -/
theorem storeOne_locations (acc : List ShuffleLocation × ShuffleManager)
    (x : List RecordBatch × ℕ) :
    (w.storeOne ctx acc x).1 = acc.1 ++ if x.1.isEmpty then [] else [w.location ctx x.2] := by
  unfold storeOne
  split <;> simp

/-- A partition that is not empty is written to its file. -/
theorem storeOne_file? (acc : List ShuffleLocation × ShuffleManager) (x : List RecordBatch × ℕ)
    (file : PartitionFile) :
    (w.storeOne ctx acc x).2.file? file =
      if w.partitionFile x.2 = file ∧ x.1 ≠ [] then some x.1 else acc.2.file? file := by
  unfold storeOne
  by_cases hempty : x.1.isEmpty
  · rw [if_pos hempty, if_neg fun h => h.2 (List.isEmpty_iff.mp hempty)]
  · rw [if_neg hempty]
    have hne : x.1 ≠ [] := fun h => hempty (List.isEmpty_iff.mpr h)
    by_cases hfile : w.partitionFile x.2 = file
    · rw [if_pos ⟨hfile, hne⟩, ← hfile, ShuffleManager.file?_writePartition_self hne]
    · rw [if_neg fun h => hfile h.1, ShuffleManager.file?_writePartition_ne (Ne.symm hfile)]

/-- The locations of the partitions with rows are listed, whatever files there are. -/
theorem storePartitions_locations (w : ShuffleWriter) (ctx : ExecutorContext)
    (buffers : List (List RecordBatch)) :
    (w.storePartitions ctx buffers).1 =
      (buffers.zipIdx.filter fun x => !x.1.isEmpty).map fun x => w.location ctx x.2 := by
  rw [storePartitions_eq]
  suffices hacc : ∀ (xs : List (List RecordBatch × ℕ)) (acc : List ShuffleLocation × ShuffleManager),
      (xs.foldl (w.storeOne ctx) acc).1 =
        acc.1 ++ (xs.filter fun x => !x.1.isEmpty).map fun x => w.location ctx x.2 by
    rw [hacc, List.nil_append]
  intro xs
  induction xs with
  | nil => exact fun acc => (List.append_nil _).symm
  | cons x xs ih =>
    intro acc
    rw [List.foldl_cons, ih, storeOne_locations, List.filter_cons]
    cases x.1.isEmpty <;> simp

/-- The write loop writes the files of the partitions with rows, and no others. -/
theorem foldl_storeOne (ctx : ExecutorContext) {xs : List (List RecordBatch × ℕ)}
    (hfiles : (xs.map fun x => w.partitionFile x.2).Nodup)
    (acc : List ShuffleLocation × ShuffleManager) :
    (∀ x ∈ xs, x.1 ≠ [] →
        (xs.foldl (w.storeOne ctx) acc).2.file? (w.partitionFile x.2) = some x.1) ∧
      ∀ file, (∀ x ∈ xs, w.partitionFile x.2 ≠ file) →
        (xs.foldl (w.storeOne ctx) acc).2.file? file = acc.2.file? file := by
  induction xs generalizing acc with
  | nil => simp
  | cons x xs ih =>
    obtain ⟨hx, hxs⟩ := List.nodup_cons.mp hfiles
    obtain ⟨hstored, hother⟩ := ih hxs (w.storeOne ctx acc x)
    refine ⟨?_, fun file hfile => ?_⟩
    · intro y hy hne
      rcases List.mem_cons.mp hy with rfl | hy
      · have hnew : ∀ z ∈ xs, w.partitionFile z.2 ≠ w.partitionFile y.2 := fun z hz heq =>
          hx (List.mem_map.mpr ⟨z, hz, heq⟩)
        rw [List.foldl_cons, hother _ hnew, storeOne_file?, if_pos ⟨rfl, hne⟩]
      · exact hstored y hy hne
    · rw [List.foldl_cons, hother file fun z hz => hfile z (List.mem_cons_of_mem _ hz),
        storeOne_file?, if_neg fun h => hfile x List.mem_cons_self h.1]

/-- Writing a shuffle leaves the files of other jobs as they are. -/
theorem storePartitions_file? {buffers : List (List RecordBatch)} {file : PartitionFile}
    (h : file.jobUuid ≠ w.jobUuid) :
    (w.storePartitions ctx buffers).2.file? file = ctx.shuffleManager.file? file := by
  rw [storePartitions_eq]
  suffices hacc : ∀ (xs : List (List RecordBatch × ℕ)) (acc : List ShuffleLocation × ShuffleManager),
      (xs.foldl (w.storeOne ctx) acc).2.file? file = acc.2.file? file from hacc _ _
  intro xs
  induction xs with
  | nil => exact fun acc => rfl
  | cons x xs ih =>
    intro acc
    have hfile : ¬ (w.partitionFile x.2 = file ∧ x.1 ≠ []) := by
      rintro ⟨rfl, -⟩
      exact h rfl
    rw [List.foldl_cons, ih, storeOne_file?, if_neg hfile]

/-- Partitions have files of their own. -/
theorem partitionFile_inj {p q : ℕ} (hp : p < 2 ^ 31) (hq : q < 2 ^ 31)
    (h : w.partitionFile p = w.partitionFile q) : p = q := by
  have hid : Int32.ofNat p = Int32.ofNat q := congrArg PartitionFile.partitionId h
  have := congrArg Int32.toInt hid
  rw [Int32.toInt_ofNat_of_lt hp, Int32.toInt_ofNat_of_lt hq] at this
  omega

/-- The partitions have files of their own. -/
theorem nodup_partitionFiles (w : ShuffleWriter) {buffers : List (List RecordBatch)}
    (hlen : buffers.length < 2 ^ 31) :
    (buffers.zipIdx.map fun x => w.partitionFile x.2).Nodup := by
  have hids : (buffers.zipIdx.map fun x => w.partitionFile x.2) =
      (List.range' 0 buffers.length).map w.partitionFile := by
    rw [← List.zipIdx_map_snd, List.map_map]
    rfl
  rw [hids]
  refine List.Nodup.map_on (fun p hp q hq h => ?_) List.nodup_range'
  rw [List.mem_range'_1] at hp hq
  exact partitionFile_inj (by omega) (by omega) h

/-- Reading the locations of buffers that were written gives the buffers. -/
theorem readShuffle_stored (w : ShuffleWriter) (ctx : ExecutorContext)
    {buffers : List (List RecordBatch)} (hlen : buffers.length < 2 ^ 31) :
    (∀ x ∈ buffers.zipIdx, x.1 ≠ [] →
        (w.storePartitions ctx buffers).2.readPartition (w.partitionFile x.2) = x.1.map .ok) ∧
      readShuffle { ctx with shuffleManager := (w.storePartitions ctx buffers).2 }
        (w.storePartitions ctx buffers).1 = .ok (buffers.flatten.map .ok) := by
  obtain ⟨hstored, -⟩ := foldl_storeOne ctx (nodup_partitionFiles w hlen) ([], ctx.shuffleManager)
  rw [← storePartitions_eq] at hstored
  have hread : ∀ x ∈ buffers.zipIdx, x.1 ≠ [] →
      (w.storePartitions ctx buffers).2.readPartition (w.partitionFile x.2) = x.1.map .ok := by
    intro x hx hne
    rw [ShuffleManager.readPartition, hstored x hx hne]
  have hlocations := storePartitions_locations w ctx buffers
  refine ⟨hread, ?_⟩
  have hlocal : ¬ ((w.storePartitions ctx buffers).1.any fun loc =>
      loc.executorId ≠ ctx.executorId) = true := by
    rw [hlocations, List.any_eq_true]
    rintro ⟨loc, hloc, hne⟩
    obtain ⟨x, -, rfl⟩ := List.mem_map.mp hloc
    simp [location] at hne
  rw [readShuffle, if_neg hlocal, hlocations, List.flatMap_map]
  -- The empty buffers have no files, and nothing to read.
  have hskip : ∀ xs : List (List RecordBatch × ℕ), (∀ x ∈ xs, x ∈ buffers.zipIdx) →
      (xs.filter fun x => !x.1.isEmpty).flatMap (fun x =>
        (w.storePartitions ctx buffers).2.readPartition (w.partitionFile x.2)) =
          (xs.map Prod.fst).flatten.map (.ok : RecordBatch → Result RecordBatch) := by
    intro xs hxs
    induction xs with
    | nil => rfl
    | cons x xs ih =>
      have ih := ih fun y hy => hxs y (List.mem_cons_of_mem _ hy)
      rw [List.filter_cons, List.map_cons, List.flatten_cons, List.map_append]
      by_cases hempty : x.1 = []
      · rw [if_neg (by simp [hempty]), ih, hempty]
        rfl
      · rw [if_pos (by simpa using hempty), List.flatMap_cons,
          hread x (hxs x List.mem_cons_self) hempty, ih]
  have hall := hskip buffers.zipIdx fun x hx => hx
  rw [List.zipIdx_map_fst] at hall
  exact congrArg Except.ok hall

end ShuffleWriter

omit [Runtime] in
/-- Local locations are read one after the other. -/
theorem readShuffle_eq_ok_iff {ctx : ExecutorContext} {locations : List ShuffleLocation}
    {stream : BatchStream} :
    readShuffle ctx locations = .ok stream ↔
      (∀ loc ∈ locations, loc.executorId = ctx.executorId) ∧
        stream = locations.flatMap fun loc =>
          ctx.shuffleManager.readPartition ⟨loc.jobUuid, loc.stageId, loc.partitionId⟩ := by
  have hlocal : (locations.any fun loc => loc.executorId ≠ ctx.executorId) = true ↔
      ¬ ∀ loc ∈ locations, loc.executorId = ctx.executorId := by
    simp
  unfold readShuffle
  split
  · rename_i h
    exact iff_of_false (fun h => nomatch h) fun h' => hlocal.mp h h'.1
  · rename_i h
    rw [and_iff_right (not_not.mp (hlocal.not.mp h)), Except.ok.injEq, eq_comm]

omit [Runtime] in
/-- Reading a list of locations several times yields its batches as often. -/
theorem readShuffle_replicate {ctx : ExecutorContext} {locations : List ShuffleLocation}
    {stream : BatchStream} (h : readShuffle ctx locations = .ok stream) (copies : ℕ) :
    readShuffle ctx (List.replicate copies locations).flatten =
      .ok (List.replicate copies stream).flatten := by
  obtain ⟨hlocal, rfl⟩ := readShuffle_eq_ok_iff.mp h
  refine readShuffle_eq_ok_iff.mpr ⟨fun loc hloc => ?_, ?_⟩
  · obtain ⟨ls, hls, hloc⟩ := List.mem_flatten.mp hloc
    exact hlocal loc (List.eq_of_mem_replicate hls ▸ hloc)
  · rw [List.flatMap_def, List.flatMap_def, List.map_flatten, List.map_replicate,
      List.flatten_flatten, List.map_replicate]

open ShuffleWriter

/-- Writing a shuffle and reading it back is a partitioned permutation of the rows: there is one
location for each partition with rows, in ascending order, its file holds the rows whose key hashes
to it in the order of the input, and a reader of all locations gets every row once. -/
theorem writeShuffle_partitions [Readers] {w : ShuffleWriter} {ctx : ExecutorContext}
    {input : PhysicalPlan} {schema : Schema} {batches : List RecordBatch}
    (hcount : 1 ≤ w.partitionCount.toInt) (hne : schema.fields ≠ [])
    (hsup : ∀ t ∈ schema.types, t.hasBuilder) (hschema : input.schema = .ok schema)
    (hinput : input.execute ctx = .ok (batches.map .ok)) (hs : ∀ b ∈ batches, b.schema = schema)
    (hkeys : w.Partitions schema.types (rowsOf batches)) :
    ∃ locations m, w.writeShuffle input.schema (input.execute ctx) ctx = .ok (locations, m) ∧
      locations = ((List.range w.partitionCount.toInt.toNat).filter fun p =>
        w.rowsOfPartition schema.types (rowsOf batches) p ≠ []).map (w.location ctx) ∧
      (locations.map fun l => l.partitionId.toInt).Pairwise (· < ·) ∧
      (∀ r ∈ rowsOf batches, ∃ key, (w.partitionExpr.mapM fun e => e.evalCell schema.types r) =
        .ok key ∧ w.partitionOf schema.types r =
          .ok ((Runtime.finish (key.flatMap ScalarValue.hashWrites)).toNat %
            w.partitionCount.toInt.toNat)) ∧
      (∀ p < w.partitionCount.toInt.toNat, w.location ctx p ∈ locations → ∃ file : List RecordBatch,
        m.readPartition (w.partitionFile p) = file.map .ok ∧
        rowsOf file = w.rowsOfPartition schema.types (rowsOf batches) p) ∧
      ∃ out : List RecordBatch, (PhysicalPlan.shuffleReader schema locations).execute
          { ctx with shuffleManager := m } = .ok (out.map .ok) ∧
        (rowsOf out).Perm (rowsOf batches) := by
  have hn := asUsize_of_nonneg (n := w.partitionCount) (by omega)
  have hpos : 0 < asUsize w.partitionCount := by omega
  have hlt : asUsize w.partitionCount < 2 ^ 31 := by
    have := Int32.toInt_lt w.partitionCount
    omega
  obtain ⟨buffers, hbuffers, hinv⟩ := partitionBatches_eq_ok hpos hne hsup hs hkeys
  have hlocations := storePartitions_locations w ctx buffers
  obtain ⟨hfiles, hread⟩ := readShuffle_stored w ctx (hinv.length_eq ▸ hlt)
  -- A buffer is empty when its partition has no rows.
  have hempty : ∀ x ∈ buffers.zipIdx,
      (x.1.isEmpty ↔ w.rowsOfPartition schema.types (rowsOf batches) x.2 = []) := by
    intro x hx
    have hx := List.mem_zipIdx_iff_getElem?.mp hx
    rw [← hinv.rows_eq x.2 x.1 hx, List.isEmpty_iff]
    refine ⟨fun h => by rw [h]; rfl, fun h => ?_⟩
    by_contra hne
    obtain ⟨b, hb⟩ := List.exists_mem_of_ne_nil _ hne
    exact hinv.nonempty x.2 x.1 hx b hb (List.flatMap_eq_nil_iff.mp h b hb)
  have hrange : buffers.zipIdx.map Prod.snd = List.range (asUsize w.partitionCount) := by
    rw [List.zipIdx_map_snd, hinv.length_eq, List.range_eq_range']
  have hlist : (w.storePartitions ctx buffers).1 =
      ((List.range (asUsize w.partitionCount)).filter fun p =>
        w.rowsOfPartition schema.types (rowsOf batches) p ≠ []).map (w.location ctx) := by
    rw [hlocations, ← hrange, List.filter_map, List.map_map]
    refine congrArg (List.map _) (List.filter_congr fun x hx => ?_)
    rw [Bool.eq_iff_iff, Bool.not_eq_true', Bool.eq_false_iff, Function.comp_apply,
      decide_eq_true_iff, ne_eq, not_iff_not]
    exact hempty x hx
  refine ⟨(w.storePartitions ctx buffers).1, (w.storePartitions ctx buffers).2, ?_, hn ▸ hlist,
    ?_, fun r hr => ?_, fun p hp hmem => ?_, buffers.flatten, hread, hinv.rows_perm hpos hkeys⟩
  · rw [writeShuffle, hschema, hinput, Outcome.ok_bind, Outcome.ok_bind, hbuffers]
    rfl
  · rw [hlist, List.map_map]
    refine List.pairwise_map.mpr
      ((List.pairwise_lt_range.filter _).imp_of_mem fun {p q} hp hq hlt' => ?_)
    have hp := List.mem_range.mp (List.mem_of_mem_filter hp)
    have hq := List.mem_range.mp (List.mem_of_mem_filter hq)
    show (Int32.ofNat p).toInt < (Int32.ofNat q).toInt
    rw [Int32.toInt_ofNat_of_lt (by omega), Int32.toInt_ofNat_of_lt (by omega)]
    omega
  · obtain ⟨key, hkey⟩ := Outcome.mapM_succeeds_iff.mpr (hkeys.evaluates r hr)
    refine ⟨key, hkey, ?_⟩
    rw [ShuffleWriter.partitionOf, hkey, Outcome.ok_bind, hashTarget, if_neg hpos.ne', hn]
  · have hp : p < buffers.length := by
      rw [hinv.length_eq]
      omega
    have hx : (buffers[p], p) ∈ buffers.zipIdx := List.mem_zipIdx_iff_getElem?.mpr (by simp)
    refine ⟨buffers[p], hfiles _ hx fun hnil => ?_,
      hinv.rows_eq p _ (List.getElem?_eq_getElem hp)⟩
    rw [hlist] at hmem
    obtain ⟨q, hq, heq⟩ := List.mem_map.mp hmem
    obtain ⟨hq, hqrows⟩ := List.mem_filter.mp hq
    have hfile : w.partitionFile q = w.partitionFile p :=
      congrArg (fun id => (⟨w.jobUuid, w.stageId, id⟩ : PartitionFile))
        (congrArg ShuffleLocation.partitionId heq)
    obtain rfl := partitionFile_inj ((List.mem_range.mp hq).trans hlt) (by omega) hfile
    exact of_decide_eq_true hqrows ((hempty _ hx).mp (List.isEmpty_iff.mpr hnil))

end

section ShuffledRows

attribute [local instance] integerFloats

local instance noShuffledFiles : Readers := parquetDisk fun _ => none

/-- A hasher that adds up the integers it is fed. -/
@[reducible] def addingRuntime : Runtime :=
  { insertionOrderRuntime with
    finish := fun writes => UInt64.ofNat (writes.map fun write => match write with
      | .int _ n => n.toNat
      | _ => 0).sum }

attribute [local instance] addingRuntime

/-- A column of keys, some of them null. -/
def shuffledKeys (cells : List ScalarValue) (h : ∀ v ∈ cells, v.FitsIn .int32) : RecordBatch where
  schema := ⟨[⟨"k", .int32⟩]⟩
  columns := [⟨.int32, cells, fun _ => h⟩]
  numRows := cells.length
  types_eq := rfl
  lengths := by simp

/-- Two batches of keys around an empty one. -/
def keyBatches : List RecordBatch :=
  [shuffledKeys [.int32 4, .null, .int32 2] (by decide), shuffledKeys [] (by decide),
    shuffledKeys [.int32 4, .int32 5] (by decide)]

/-- Partition by the key into three partitions. -/
def keyWriter : ShuffleWriter := ⟨[.column 0], "job", 0, 3⟩

/-- All keys come back from the files of the three partitions. -/
theorem writeShuffle_partitions_keys :
    ∃ locations m, keyWriter.writeShuffle (.ok ⟨[⟨"k", .int32⟩]⟩) (.ok (keyBatches.map .ok))
        ⟨"exec", "", 0, ⟨[]⟩⟩ = .ok (locations, m) ∧
      locations = [keyWriter.location ⟨"exec", "", 0, ⟨[]⟩⟩ 0,
        keyWriter.location ⟨"exec", "", 0, ⟨[]⟩⟩ 1, keyWriter.location ⟨"exec", "", 0, ⟨[]⟩⟩ 2] ∧
      ∃ out : List RecordBatch,
        (PhysicalPlan.shuffleReader ⟨[⟨"k", .int32⟩]⟩ locations).execute ⟨"exec", "", 0, m⟩ =
          .ok (out.map .ok) ∧
        (rowsOf out).Perm [[.int32 4], [.null], [.int32 2], [.int32 4], [.int32 5]] := by
  have hkeys : keyWriter.Partitions [.int32] (rowsOf keyBatches) := ⟨by decide, by decide⟩
  have hschema : (PhysicalPlan.inMemory ⟨[⟨"k", .int32⟩]⟩ keyBatches).schema =
      .ok ⟨[⟨"k", .int32⟩]⟩ := rfl
  have hinput : (PhysicalPlan.inMemory ⟨[⟨"k", .int32⟩]⟩ keyBatches).execute
      ⟨"exec", "", 0, ⟨[]⟩⟩ = .ok (keyBatches.map .ok) := rfl
  obtain ⟨locations, m, hwrite, hlocations, -, -, -, out, hread, hperm⟩ :=
    writeShuffle_partitions (by decide) (by decide) (by decide) hschema hinput (by decide) hkeys
  exact ⟨locations, m, hwrite, hlocations.trans (by decide), out, hread, hperm⟩

end ShuffledRows

end RQuery
