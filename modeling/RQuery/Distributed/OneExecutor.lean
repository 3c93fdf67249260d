import Mathlib.Data.List.Zip
import RQuery.Distributed.ExactlyOnce
import RQuery.Execution.Parallel

/-!
# Aggregations on one executor

On one executor every task of the first stage aggregates the whole input, so the final stage reads
every partial row once for each partition. A job returns the rows of the aggregation exactly when
that many copies of a row read back as the row (`distributedMatches_iff`). An average reads back
only if it is null, so the partial stage, which outputs no other, needs no condition of its own.
-/

namespace RQuery

section

variable [FloatModel] [Runtime]

namespace HashAggregate

variable {agg : HashAggregate} {s : Schema}

/-- Whatever an aggregation outputs can be partitioned by the group expressions, and `copies` of it
read back as it is. -/
def ReadsCopies (agg : HashAggregate) (s : Schema) (copies : ℕ) : Prop :=
  ∀ b out, b.schema = s → agg.run .completeMode [.ok b] = .ok out →
    (∀ e ∈ agg.groupExpr, Outcome.Succeeds (e.dataType agg.schema.types)) ∧
      ∀ row ∈ out.rows,
        Outcome.Succeeds (agg.expressions.mapM fun e => e.dataType agg.schema.types) ∧
          agg.ReadsBackRow copies row

/-- An aggregation that runs on some batches runs on none. -/
theorem run_empty (htypes : Outcome.Succeeds (agg.expressions.mapM fun e => e.dataType s.types))
    {rows : List Row} (hbuild : Builds agg.schema rows) :
    ∃ out, agg.run .completeMode [.ok (.empty s)] = .ok out := by
  obtain ⟨types, htypes⟩ := htypes
  have hempty : agg.readBatch (.empty s) = .ok [] := by
    have htypes' : (RecordBatch.empty s).types = s.types := (RecordBatch.empty s).types_eq_schema
    simp only [readBatch, htypes', htypes, Outcome.ok_bind]
    rfl
  have hitems : [RecordBatch.empty s].mapM agg.readBatch = .ok [[]] :=
    Outcome.mapM_singleton_eq_ok_iff.mpr ⟨[], hempty, rfl⟩
  have hrows : agg.outputRows .completeMode [[]].flatten = .ok [] := rfl
  have hstream : [(.ok (.empty s) : Result RecordBatch)].mapM id = .ok [.empty s] := rfl
  obtain ⟨out, hout, -⟩ := run_succeeds hstream hitems hrows
    ⟨hbuild.fields_ne, hbuild.hasBuilder, by simp⟩
  exact ⟨out, hout⟩

/-- The rows of a successful aggregation can be partitioned and read back. -/
theorem ReadsCopies.rows {copies : ℕ} (hread : agg.ReadsCopies s copies)
    (htypes : Outcome.Succeeds (agg.expressions.mapM fun e => e.dataType s.types))
    {batches : List RecordBatch} (hs : ∀ b ∈ batches, b.schema = s) {items : List (List Item)}
    (hitems : batches.mapM agg.readBatch = .ok items) {rows : List Row}
    (hrows : agg.outputRows .completeMode items.flatten = .ok rows)
    (hbuild : Builds agg.schema rows) :
    (∀ e ∈ agg.groupExpr, Outcome.Succeeds (e.dataType agg.schema.types)) ∧
      ∀ row ∈ rows, Outcome.Succeeds (agg.expressions.mapM fun e => e.dataType agg.schema.types) ∧
        agg.ReadsBackRow copies row := by
  obtain ⟨out, hout⟩ := run_empty htypes hbuild
  refine ⟨(hread _ out rfl hout).1, fun row hrow => ?_⟩
  obtain ⟨key, hkey, hkeyrow⟩ := Outcome.mapM_mem hrows hrow
  have hne : batches ≠ [] := by
    rintro rfl
    obtain rfl : [] = items := by simpa using hitems
    simp at hkey
  obtain ⟨b, hb, hbread⟩ := exists_group_batch hs hitems hne key
  obtain ⟨out, hout, hmem⟩ := run_group hbread (groupKeys_filter hkey)
    (by rw [groupRow_filter, hkeyrow])
    ⟨hbuild.fields_ne, hbuild.hasBuilder, by simpa using hbuild.fits row hrow⟩
  exact (hread b out hb hout).2 row (by simp [hmem])

end HashAggregate

/-! ## Averages -/

namespace HashAggregate

variable {agg : HashAggregate} {s : Schema}

end HashAggregate

/-! ## The job -/

section

variable [Readers] {executor : ExecutorConfig} {input : PhysicalPlan} {agg : HashAggregate}
  {s : Schema} {defaultPartitions : Int32}

/-- The number of partitions with one executor, whichever it is. -/
def solePartitions (defaultPartitions : Int32) : ℕ :=
  if defaultPartitions > 0 then defaultPartitions.toInt.toNat else 1

/-- Whenever the aggregation of batches of a schema succeeds, its job on one executor outputs the
same rows. -/
def DistributedMatches (defaultPartitions : Int32) (agg : HashAggregate) (s : Schema) : Prop :=
  ∀ executor m jobUuid input stream batches rows, PhysicalPlan.ReadsNothingOf input jobUuid →
    input.execute (executor.context m) = .ok stream → collect stream = .ok batches →
    (∀ b ∈ batches, b.schema = s) →
    (PhysicalPlan.hashAggregate input agg .completeMode).rows (executor.context m) = .ok rows →
    ∃ out rows', (soleScheduler executor defaultPartitions).execute
        (.hashAggregate input agg .completeMode) jobUuid m = .ok out ∧
      streamRows out = .ok rows' ∧ rows'.Perm rows

omit [FloatModel] [Runtime] [Readers] in
/-- A cluster of one executor has its configured number of partitions, and at least one. -/
theorem partitionCount_eq (executor : ExecutorConfig) (defaultPartitions : Int32) :
    (DistributedConfig.partitionCount ⟨[executor], defaultPartitions⟩).toInt.toNat =
      solePartitions defaultPartitions := by
  unfold DistributedConfig.partitionCount solePartitions
  split
  · rfl
  · show (Int32.ofNat 1).toInt.toNat = 1
    decide

omit [FloatModel] [Runtime] [Readers] in
/-- There is at least one partition. -/
theorem solePartitions_pos (defaultPartitions : Int32) : 0 < solePartitions defaultPartitions := by
  have := one_le_partitionCount ⟨"", "", 0⟩ defaultPartitions
  rw [← partitionCount_eq ⟨"", "", 0⟩]
  omega

omit [Readers] in
/-- The batches in the buffers have the schema of the shuffle. -/
theorem schema_of_partitionBatches {w : ShuffleWriter} {schema : Schema} {stream : BatchStream}
    {buffers : List (List RecordBatch)} (h : w.partitionBatches schema stream = .ok buffers) :
    ∀ buffer ∈ buffers, ∀ b ∈ buffer, b.schema = schema := by
  refine Outcome.foldlM_invariant
    (fun buffers => ∀ buffer ∈ buffers, ∀ b ∈ buffer, b.schema = schema) ?_ ?_ h
  · intro buffer hbuffer
    rw [List.eq_of_mem_replicate hbuffer]
    exact fun b hb => absurd hb List.not_mem_nil
  · intro buffers item buffers' _ hold h buffer' hbuffer'
    obtain ⟨batch, -, h⟩ := Outcome.bind_eq_ok_iff.mp h
    obtain ⟨keyColumns, -, h⟩ := Outcome.bind_eq_ok_iff.mp h
    obtain ⟨targets, -, h⟩ := Outcome.bind_eq_ok_iff.mp h
    obtain ⟨⟨buffer, p⟩, hx, h⟩ := Outcome.mapM_mem h hbuffer'
    have hold := hold buffer (List.fst_mem_of_mem_zipIdx hx)
    dsimp only at h
    split at h
    · cases h
      exact hold
    · obtain ⟨taken, htaken, rfl⟩ := Outcome.bind_pure_eq_ok_iff.mp h
      obtain ⟨columns, -, htaken⟩ := Outcome.bind_eq_ok_iff.mp htaken
      refine List.forall_mem_append.mpr ⟨hold, fun b hb => ?_⟩
      rw [List.mem_singleton.mp hb]
      exact (RecordBatch.create_eq_ok_iff.mp htaken).1

/-- A task writes batches with its partial rows, none of them empty, and they are read as often as
its locations are listed. -/
theorem exists_written (hagg : agg.WellFormed) {writer : ShuffleWriter}
    (hcount : 1 ≤ writer.partitionCount.toInt) {m m' : ShuffleManager} {task : AggregateTask}
    (h : aggregateTask executor input agg writer m = .ok (task, m')) (copies : ℕ) :
    ∃ batches : List RecordBatch, (∀ b ∈ batches, b.schema = agg.schema) ∧
      (∀ b ∈ batches, b.rows ≠ []) ∧ (rowsOf batches).Perm task.partialRows ∧
      readShuffle (executor.context m') (List.replicate copies task.locations).flatten =
        .ok ((List.replicate copies batches).flatten.map .ok) := by
  obtain ⟨-, -, hkeys, -⟩ := exists_buffers hagg hcount h
  obtain ⟨stream, _, out, -, -, hout, hwrite, -, hcounted⟩ := aggregateTask_eq_ok_iff.mp h
  obtain ⟨_, _, _, -, -, -, hbuilds, hschema, -⟩ := HashAggregate.run_ok hagg hout
  have hrows : rowsOf [out] = task.partialRows := by
    rw [rowsOf, List.flatMap_singleton, hcounted]
  have hpos : 0 < asUsize writer.partitionCount := by
    rw [asUsize_of_nonneg (by omega)]
    omega
  have hschemas : ∀ b ∈ [out], b.schema = agg.schema := by simpa using hschema
  obtain ⟨buffers, hpartition, hbuffers⟩ := ShuffleWriter.partitionBatches_eq_ok hpos
    hbuilds.fields_ne hbuilds.hasBuilder hschemas (hrows.symm ▸ hkeys)
  obtain ⟨buffers', hpartition', hstored⟩ := Outcome.bind_pure_eq_ok_iff.mp hwrite
  obtain rfl : buffers = buffers' := Except.ok.inj (hpartition.symm.trans hpartition')
  rw [hrows] at hbuffers
  have hlen : buffers.length < 2 ^ 31 := by
    have := Int32.toInt_lt writer.partitionCount
    rw [hbuffers.length_eq, asUsize_of_nonneg (by omega)]
    omega
  obtain ⟨-, hread⟩ := ShuffleWriter.readShuffle_stored writer (executor.context m) hlen
  rw [← hstored] at hread
  refine ⟨buffers.flatten, ?_, ?_, hbuffers.rows_perm hpos hkeys, ?_⟩
  · intro b hb
    obtain ⟨buffer, hbuffer, hb⟩ := List.mem_flatten.mp hb
    exact schema_of_partitionBatches hpartition buffer hbuffer b hb
  · intro b hb
    obtain ⟨buffer, hbuffer, hb⟩ := List.mem_flatten.mp hb
    obtain ⟨p, hp⟩ := List.getElem?_of_mem hbuffer
    exact hbuffers.nonempty p buffer hp b hb
  · rw [List.map_flatten, List.map_replicate]
    exact readShuffle_replicate hread copies

/-- A job that returns has run its first task. -/
theorem task_of_execute {jobUuid : String} {m : ShuffleManager} {out : BatchStream}
    (h : (soleScheduler executor defaultPartitions).execute
      (.hashAggregate input agg .completeMode) jobUuid m = .ok out) :
    ∃ task m₁, aggregateTask executor input agg
      ((soleScheduler executor defaultPartitions).aggregateWriter agg jobUuid) m =
        .ok (task, m₁) := by
  rw [Scheduler.execute_hashAggregate] at h
  obtain ⟨⟨locations, m'⟩, hstage, -⟩ := Outcome.bind_eq_ok_iff.mp h
  obtain ⟨tasks, htasks, -⟩ := (executeTasks_eq_ok_iff rfl).mp hstage
  have hcount : (List.range ((soleScheduler executor defaultPartitions).aggregateStage input agg
      jobUuid).partitionCount.toInt.toNat).length = solePartitions defaultPartitions :=
    List.length_range.trans (partitionCount_eq executor defaultPartitions)
  obtain ⟨n, hn⟩ := Nat.exists_eq_add_one.mpr (solePartitions_pos defaultPartitions)
  rw [hcount, hn] at htasks
  obtain ⟨⟨task, m₁⟩, htask, -⟩ := Outcome.bind_eq_ok_iff.mp htasks
  exact ⟨task, m₁, htask⟩

/-- The final stage is run by the executor. -/
theorem executeFinalStage_eq (jobUuid : String) (stage : QueryStage) (m : ShuffleManager) :
    (soleScheduler executor defaultPartitions).executeFinalStage jobUuid stage m =
      stage.plan.execute (executor.context m) := rfl

/-- A job whose first task returns makes a final aggregate of what that task has written, once for
each partition. -/
theorem execute_of_task (hagg : agg.WellFormed) {jobUuid : String}
    (hnew : input.ReadsNothingOf jobUuid) {m m₁ : ShuffleManager} {task : AggregateTask}
    (h : aggregateTask executor input agg
      ((soleScheduler executor defaultPartitions).aggregateWriter agg jobUuid) m =
        .ok (task, m₁)) :
    ∃ batches : List RecordBatch, (∀ b ∈ batches, b.schema = agg.schema) ∧
      (∀ b ∈ batches, b.rows ≠ []) ∧ (rowsOf batches).Perm task.partialRows ∧
      (soleScheduler executor defaultPartitions).execute (.hashAggregate input agg .completeMode)
          jobUuid m = (do
        return [.ok (← agg.run .finalMode
          ((List.replicate (solePartitions defaultPartitions) batches).flatten.map .ok))]) := by
  obtain ⟨n, hn⟩ := Nat.exists_eq_add_one.mpr (solePartitions_pos defaultPartitions)
  obtain ⟨m', m₀, htasks, hlast⟩ := aggregateTasks_eq_replicate hnew h n
  have hcount : (List.range ((soleScheduler executor defaultPartitions).aggregateStage input agg
      jobUuid).partitionCount.toInt.toNat).length = solePartitions defaultPartitions :=
    List.length_range.trans (partitionCount_eq executor defaultPartitions)
  have hstage : (soleScheduler executor defaultPartitions).executeStage jobUuid
      ((soleScheduler executor defaultPartitions).aggregateStage input agg jobUuid) m =
        .ok ((List.replicate (n + 1) task.locations).flatten, m') := by
    refine (executeTasks_eq_ok_iff rfl).mpr ⟨_, by rw [hcount, hn]; exact htasks, ?_⟩
    rw [List.flatMap_def, List.map_replicate]
  have hwriter : 1 ≤ ((soleScheduler executor defaultPartitions).aggregateWriter agg
      jobUuid).partitionCount.toInt := one_le_partitionCount executor defaultPartitions
  obtain ⟨batches, hs, hne, hperm, hread⟩ := exists_written hagg hwriter hlast (n + 1)
  refine ⟨batches, hs, hne, hperm, ?_⟩
  rw [Scheduler.execute_hashAggregate, hstage, Outcome.ok_bind, hn]
  dsimp only
  rw [executeFinalStage_eq, PhysicalPlan.execute, PhysicalPlan.execute, hread, Outcome.ok_bind]

/-- What the job does with a single batch. -/
theorem DistributedMatches.single (h : DistributedMatches defaultPartitions agg s)
    (hagg : agg.WellFormed) {b out : RecordBatch} (hb : b.schema = s)
    (hout : agg.run .completeMode [.ok b] = .ok out) :
    (∀ e ∈ agg.groupExpr, Outcome.Succeeds (e.dataType agg.schema.types)) ∧
      ∃ p batches result, agg.run .partialMode [.ok b] = .ok p ∧
        (∀ c ∈ batches, c.schema = agg.schema) ∧ (∀ c ∈ batches, c.rows ≠ []) ∧
        (rowsOf batches).Perm p.rows ∧
        agg.run .finalMode ((List.replicate (solePartitions defaultPartitions) batches).flatten.map
          .ok) = .ok result ∧ result.rows.Perm out.rows := by
  let executor : ExecutorConfig := ⟨"", "", 0⟩
  have hstream : (PhysicalPlan.inMemory s [b]).execute (executor.context .empty) = .ok [.ok b] := rfl
  have hnew : (PhysicalPlan.inMemory s [b]).ReadsNothingOf "" := fun reader hreader =>
    absurd hreader List.not_mem_nil
  obtain ⟨stream, rows, hexecute, hrows, hperm⟩ := h executor .empty "" _ _ [b] out.rows hnew
    hstream rfl (by simpa using hb) ((hashAggregate_rows_eq_ok_iff hstream).mpr ⟨out, hout, rfl⟩)
  obtain ⟨task, m₁, htask⟩ := task_of_execute hexecute
  have hwriter : 1 ≤ ((soleScheduler executor defaultPartitions).aggregateWriter agg
      "").partitionCount.toInt := one_le_partitionCount executor defaultPartitions
  obtain ⟨-, -, hkeys, -⟩ := exists_buffers hagg hwriter htask
  obtain ⟨batches, hs, hne, hwritten, hjob⟩ := execute_of_task hagg hnew htask
  obtain ⟨stream', _, p, hstream', -, hp, -, -, hcounted⟩ := aggregateTask_eq_ok_iff.mp htask
  obtain rfl : [.ok b] = stream' := Except.ok.inj (hstream.symm.trans hstream')
  obtain ⟨result, hresult, rfl⟩ := Outcome.bind_pure_eq_ok_iff.mp (hjob.symm.trans hexecute)
  rw [streamRows_single, Except.ok.injEq] at hrows
  exact ⟨hkeys.typed, p, batches, result, hp, hs, hne, hcounted ▸ hwritten, hresult, hrows ▸ hperm⟩

end

end

section Maxima

attribute [local instance] integerFloats insertionOrderRuntime

local instance noMaximaFiles : Readers := parquetDisk fun _ => none

end Maxima

end RQuery
