import RQuery.Distributed.Scheduler
import RQuery.Physical.ShuffleRoundTrip

/-!
# The tasks of a shuffle stage

The first stage of an aggregation is run as one task for each partition, and every task is given the
plan of the stage. `aggregateTask` is what a task does, with the rows that it aggregates on record.
On one executor all tasks aggregate the same rows, write the same files and report the same
locations (`aggregateTasks_eq_replicate`): the final stage reads the partial rows of the whole input
once for each partition. `exactlyOnce_iff` says when that is once.
-/

namespace RQuery

section

variable [FloatModel]

/-- The file at a location. -/
def ShuffleLocation.file (loc : ShuffleLocation) : PartitionFile :=
  ⟨loc.jobUuid, loc.stageId, loc.partitionId⟩

/-- The plan reads no shuffle files of the job. -/
def PhysicalPlan.ReadsNothingOf (plan : PhysicalPlan) (jobUuid : String) : Prop :=
  ∀ reader ∈ plan.shuffleReaders, ∀ loc ∈ reader.2, loc.jobUuid ≠ jobUuid

/-- The files of other jobs are the same. -/
def ShuffleManager.SameOutside (jobUuid : String) (m m' : ShuffleManager) : Prop :=
  ∀ file : PartitionFile, file.jobUuid ≠ jobUuid → m'.file? file = m.file? file

/-- Being the same outside a job's directory is transitive. -/
theorem ShuffleManager.SameOutside.trans {jobUuid : String} {m m' m'' : ShuffleManager}
    (h : SameOutside jobUuid m m') (h' : SameOutside jobUuid m' m'') :
    SameOutside jobUuid m m'' := fun file hfile => (h' file hfile).trans (h file hfile)

/-- One executor, whose client is run. -/
def soleScheduler [Readers] [Runtime] (executor : ExecutorConfig) (defaultPartitions : Int32) :
    Scheduler ShuffleManager where
  config := ⟨[executor], defaultPartitions⟩
  planner := ⟨⟨[executor], defaultPartitions⟩⟩
  executorClient := executorClient

omit [FloatModel] in
/-- With one executor there is at least one partition. -/
theorem one_le_partitionCount (executor : ExecutorConfig) (defaultPartitions : Int32) :
    1 ≤ (DistributedConfig.partitionCount ⟨[executor], defaultPartitions⟩).toInt := by
  unfold DistributedConfig.partitionCount
  split
  · rename_i h
    have := Int32.lt_iff_toInt_lt.mp h
    rw [Int32.toInt_zero] at this
    omega
  · show 1 ≤ (Int32.ofNat 1).toInt
    decide

/-- What one task of the first stage of an aggregation does. -/
structure AggregateTask where
  /-- The rows of the input that the task aggregates. -/
  aggregated : List Row
  /-- The rows that it writes to shuffle files. -/
  partialRows : List Row
  /-- Where it reports to have written them. -/
  locations : List ShuffleLocation
  deriving DecidableEq

variable [Readers] [Runtime]

/-- Run a task: aggregate the input and write the groups to shuffle files. -/
def aggregateTask (executor : ExecutorConfig) (input : PhysicalPlan) (agg : HashAggregate)
    (writer : ShuffleWriter) (m : ShuffleManager) : Result (AggregateTask × ShuffleManager) := do
  let stream ← input.execute (executor.context m)
  let batches ← collect stream
  let out ← agg.run .partialMode stream
  let written ← writer.writeShuffle (.ok agg.schema) (.ok [.ok out]) (executor.context m)
  return (⟨rowsOf batches, out.rows, written.1⟩, written.2)

/-- Run a number of tasks, one after the other. -/
def aggregateTasks (executor : ExecutorConfig) (input : PhysicalPlan) (agg : HashAggregate)
    (writer : ShuffleWriter) : ℕ → ShuffleManager → Result (List AggregateTask × ShuffleManager)
  | 0, m => return ([], m)
  | n + 1, m => do
    let (task, m) ← aggregateTask executor input agg writer m
    let (tasks, m) ← aggregateTasks executor input agg writer n m
    return (task :: tasks, m)

/-- Every row of the input reaches the final stage once: it is aggregated by one task, no file is
written by two tasks, no location is read twice, and what is read are the rows that the tasks have
written. -/
structure ExactlyOnce (inputRows : List Row) (tasks : List AggregateTask)
    (read : Result (List Row)) : Prop where
  aggregated : (tasks.flatMap AggregateTask.aggregated).Perm inputRows
  files : (tasks.flatMap fun task => task.locations.map ShuffleLocation.file).Nodup
  locations : (tasks.flatMap AggregateTask.locations).Nodup
  rows : ∃ rows, read = .ok rows ∧ rows.Perm (tasks.flatMap AggregateTask.partialRows)

/-! ## The tasks that the scheduler runs -/

/-- A plan yields the same in the states of the executor that agree on the files it reads. -/
theorem PhysicalPlan.execute_congr {executor : ExecutorConfig} {jobUuid : String}
    {m m' : ShuffleManager} (hm : m.SameOutside jobUuid m') {plan : PhysicalPlan}
    (h : plan.ReadsNothingOf jobUuid) :
    plan.execute (executor.context m') = plan.execute (executor.context m) := by
  induction plan with
  | scan | inMemory => rfl
  | projection _ _ _ ih | selection _ _ ih | limit _ _ ih | hashAggregate _ _ _ ih =>
    simp only [execute, ih h]
  | shuffleWriter => rfl
  | hashJoin left right join ihl ihr =>
    have hl : left.ReadsNothingOf jobUuid := fun reader hreader =>
      h reader (List.mem_append_left _ hreader)
    have hr : right.ReadsNothingOf jobUuid := fun reader hreader =>
      h reader (List.mem_append_right _ hreader)
    simp only [execute, ihl hl, ihr hr]
  -- The reader's files are of other jobs, so both stores have them.
  | shuffleReader schema locations =>
    have hread : ∀ loc ∈ locations,
        m'.readPartition loc.file = m.readPartition loc.file := by
      intro loc hloc
      unfold ShuffleManager.readPartition
      rw [hm loc.file (h _ (List.mem_singleton.mpr rfl) loc hloc)]
    have hflat : locations.flatMap (fun loc => m'.readPartition loc.file) =
        locations.flatMap fun loc => m.readPartition loc.file := by
      rw [List.flatMap_def, List.flatMap_def, List.map_congr_left hread]
    show readShuffle (executor.context m') locations = readShuffle (executor.context m) locations
    unfold readShuffle
    exact congrArg (ite _ _) (congrArg Except.ok hflat)

variable {executor : ExecutorConfig} {input : PhysicalPlan} {agg : HashAggregate}
  {writer : ShuffleWriter}

/-- What a task consists of. -/
theorem aggregateTask_eq_ok_iff {m m' : ShuffleManager} {task : AggregateTask} :
    aggregateTask executor input agg writer m = .ok (task, m') ↔
      ∃ stream batches out, input.execute (executor.context m) = .ok stream ∧
        collect stream = .ok batches ∧ agg.run .partialMode stream = .ok out ∧
        writer.writeShuffle (.ok agg.schema) (.ok [.ok out]) (executor.context m) =
          .ok (task.locations, m') ∧
        task.aggregated = rowsOf batches ∧ task.partialRows = out.rows := by
  simp only [aggregateTask, Outcome.bind_eq_ok_iff]
  constructor
  · rintro ⟨stream, hstream, batches, hbatches, out, hout, ⟨locations, m''⟩, hwrite, h⟩
    cases h
    exact ⟨stream, batches, out, hstream, hbatches, hout, hwrite, rfl, rfl⟩
  · rintro ⟨stream, batches, out, hstream, hbatches, hout, hwrite, haggregated, hcounted⟩
    refine ⟨stream, hstream, batches, hbatches, out, hout, _, hwrite, ?_⟩
    rw [← haggregated, ← hcounted]
    rfl

/-- The client runs the task. -/
theorem executeTask_eq_ok_iff {task : Task}
    (hplan : task.plan = .shuffleWriter (.hashAggregate input agg .partialMode) writer)
    {m m' : ShuffleManager} {locations : List ShuffleLocation} :
    executorClient.executeTask executor task m = .ok (locations, m') ↔
      ∃ run, aggregateTask executor input agg writer m = .ok (run, m') ∧
        run.locations = locations := by
  have hexecute : executorClient.executeTask executor task m =
      writer.writeShuffle (.ok agg.schema)
        ((PhysicalPlan.hashAggregate input agg .partialMode).execute (executor.context m))
        (executor.context m) := by
    simp only [executorClient, hplan]
    rfl
  rw [hexecute]
  simp only [aggregateTask_eq_ok_iff]
  constructor
  · intro h
    rw [PhysicalPlan.execute] at h
    cases hstream : input.execute (executor.context m) with
    | error e =>
      rw [hstream] at h
      cases h
    | ok stream =>
      rw [hstream, Outcome.ok_bind] at h
      cases hout : agg.run .partialMode stream with
      | error e =>
        rw [hout] at h
        cases h
      | ok out =>
        rw [hout] at h
        obtain ⟨batches, -, -, -, hbatches, -⟩ := HashAggregate.run_eq_ok_iff.mp hout
        exact ⟨⟨rowsOf batches, out.rows, locations⟩,
          ⟨stream, batches, out, rfl, hbatches, hout, h, rfl, rfl⟩, rfl⟩
  · rintro ⟨run, ⟨stream, batches, out, hstream, -, hout, hwrite, -⟩, rfl⟩
    rw [PhysicalPlan.execute, hstream, Outcome.ok_bind, hout]
    exact hwrite

/-- The scheduler runs as many tasks as it is given partitions, and collects their locations. -/
theorem executeTasks_eq_ok_iff {defaultPartitions : Int32} {jobUuid : String} {stage : QueryStage}
    (hplan : stage.plan = .shuffleWriter (.hashAggregate input agg .partialMode) writer)
    {partitionIds : List ℕ} {m m' : ShuffleManager} {locations : List ShuffleLocation} :
    (soleScheduler executor defaultPartitions).executeTasks jobUuid stage partitionIds m =
        .ok (locations, m') ↔
      ∃ tasks, aggregateTasks executor input agg writer partitionIds.length m = .ok (tasks, m') ∧
        tasks.flatMap AggregateTask.locations = locations := by
  induction partitionIds generalizing m locations with
  | nil =>
    constructor
    · intro h
      cases h
      exact ⟨[], rfl, rfl⟩
    · rintro ⟨tasks, htasks, rfl⟩
      cases htasks
      rfl
  | cons partitionId partitionIds ih =>
    have hexecutor : (soleScheduler executor defaultPartitions).executorOf partitionId =
        .ok executor := by
      simp [Scheduler.executorOf, soleScheduler, Nat.mod_one]
      rfl
    have hone : ∀ m written, (soleScheduler executor defaultPartitions).executeTaskOf jobUuid stage
        partitionId m = .ok written ↔
          ∃ run, aggregateTask executor input agg writer m = .ok (run, written.2) ∧
            run.locations = written.1 := by
      intro m written
      rw [Scheduler.executeTaskOf, hexecutor]
      exact executeTask_eq_ok_iff hplan
    rw [Scheduler.executeTasks_cons, List.length_cons, aggregateTasks]
    simp only [Outcome.bind_eq_ok_iff, hone]
    constructor
    · rintro ⟨⟨first, m₁⟩, ⟨run, hrun, rfl⟩, ⟨later, m₂⟩, hlater, h⟩
      cases h
      obtain ⟨tasks, htasks, rfl⟩ := ih.mp hlater
      exact ⟨run :: tasks, ⟨_, hrun, _, htasks, rfl⟩, rfl⟩
    · rintro ⟨tasks, ⟨⟨run, m₁⟩, hrun, ⟨later, m₂⟩, hlater, h⟩, rfl⟩
      cases h
      exact ⟨(run.locations, m₁), ⟨run, hrun, rfl⟩, (later.flatMap AggregateTask.locations, m₂),
        ih.mpr ⟨later, hlater, rfl⟩, rfl⟩

/-! ## All tasks do the same -/

/-- What a task with a result has written, and what it leaves. -/
theorem exists_buffers (hagg : agg.WellFormed) (hcount : 1 ≤ writer.partitionCount.toInt)
    {m m' : ShuffleManager} {task : AggregateTask}
    (h : aggregateTask executor input agg writer m = .ok (task, m')) :
    ∃ buffers, writer.Buffers agg.schema.types task.partialRows buffers ∧
      writer.Partitions agg.schema.types task.partialRows ∧
      (task.locations, m') = writer.storePartitions (executor.context m) buffers := by
  obtain ⟨stream, batches, out, -, -, hout, hwrite, -, hcounted⟩ := aggregateTask_eq_ok_iff.mp h
  obtain ⟨_, _, _, -, -, -, hbuilds, hschema, -⟩ := HashAggregate.run_ok hagg hout
  have hschemas : ∀ b ∈ [out], b.schema = agg.schema := by simpa using hschema
  obtain ⟨buffers, hbuffers, hkeys, hstored⟩ := ShuffleWriter.writeShuffle_buffers
    hcount hbuilds.fields_ne hbuilds.hasBuilder hschemas (by simp) hwrite
  rw [rowsOf, List.flatMap_singleton, ← hcounted] at hbuffers hkeys
  exact ⟨buffers, hbuffers, hkeys, hstored⟩

/-- A task leaves the files of other jobs as they are. -/
theorem sameOutside_of_aggregateTask {m m' : ShuffleManager} {task : AggregateTask}
    (h : aggregateTask executor input agg writer m = .ok (task, m')) :
    m.SameOutside writer.jobUuid m' := by
  obtain ⟨stream, batches, out, -, -, -, hwrite, -⟩ := aggregateTask_eq_ok_iff.mp h
  obtain ⟨buffers, -, hstored⟩ := Outcome.bind_pure_eq_ok_iff.mp hwrite
  intro file hfile
  have hm : m' = (writer.storePartitions (executor.context m) buffers).2 := congrArg Prod.snd hstored
  rw [hm, ShuffleWriter.storePartitions_file? hfile]
  rfl

/-- A task does the same again when only files of its job have changed. -/
theorem aggregateTask_again (hnew : input.ReadsNothingOf writer.jobUuid) {m m₁ m' : ShuffleManager}
    {task : AggregateTask} (h : aggregateTask executor input agg writer m = .ok (task, m'))
    (hm : m.SameOutside writer.jobUuid m₁) :
    ∃ m₂, aggregateTask executor input agg writer m₁ = .ok (task, m₂) := by
  obtain ⟨stream, batches, out, hstream, hbatches, hout, hwrite, haggregated, hcounted⟩ :=
    aggregateTask_eq_ok_iff.mp h
  obtain ⟨buffers, hbuffers, hstored⟩ := Outcome.bind_pure_eq_ok_iff.mp hwrite
  rw [← PhysicalPlan.execute_congr hm hnew] at hstream
  have hlocations : (writer.storePartitions (executor.context m₁) buffers).1 = task.locations := by
    have hbefore := congrArg Prod.fst hstored
    rw [ShuffleWriter.storePartitions_locations] at hbefore ⊢
    exact hbefore.symm
  refine ⟨(writer.storePartitions (executor.context m₁) buffers).2, ?_⟩
  refine aggregateTask_eq_ok_iff.mpr ⟨stream, batches, out, hstream, hbatches, hout, ?_,
    haggregated, hcounted⟩
  exact Outcome.bind_pure_eq_ok_iff.mpr ⟨buffers, hbuffers, by rw [← hlocations]⟩

/-- All tasks of the stage do what the first one does, the last one from some state on. -/
theorem aggregateTasks_eq_replicate (hnew : input.ReadsNothingOf writer.jobUuid)
    {m m₁ : ShuffleManager} {task : AggregateTask}
    (h : aggregateTask executor input agg writer m = .ok (task, m₁)) (n : ℕ) :
    ∃ m' m₀, aggregateTasks executor input agg writer (n + 1) m =
        .ok (List.replicate (n + 1) task, m') ∧
      aggregateTask executor input agg writer m₀ = .ok (task, m') := by
  induction n generalizing m m₁ with
  | zero =>
    refine ⟨m₁, m, ?_, h⟩
    rw [aggregateTasks, h]
    rfl
  | succ n ih =>
    obtain ⟨m₂, hnext⟩ := aggregateTask_again hnew h (sameOutside_of_aggregateTask h)
    obtain ⟨m', m₀, htasks, hlast⟩ := ih hnext
    refine ⟨m', m₀, ?_, hlast⟩
    rw [aggregateTasks, h, Outcome.ok_bind]
    dsimp only
    rw [htasks]
    rfl

/-! ## What the final stage reads -/

section

variable {m m' : ShuffleManager} {task : AggregateTask}

/-- A task without input rows writes no rows. -/
theorem partialRows_eq_nil (hagg : agg.WellFormed)
    (h : aggregateTask executor input agg writer m = .ok (task, m'))
    (hnone : task.aggregated = []) : task.partialRows = [] := by
  obtain ⟨stream, batches, out, -, hbatches, hout, -, haggregated, hcounted⟩ :=
    aggregateTask_eq_ok_iff.mp h
  obtain ⟨batches', items, rows, hbatches', hitems, hrows, -, -, hperm⟩ :=
    HashAggregate.run_ok hagg hout
  obtain rfl : batches = batches' := Except.ok.inj (hbatches.symm.trans hbatches')
  have hempty : items.flatten = [] := by
    rw [List.flatten_eq_nil_iff]
    intro xs hxs
    obtain ⟨b, hb, hread⟩ := Outcome.mapM_mem hitems hxs
    obtain ⟨_, -, hread⟩ := Outcome.bind_eq_ok_iff.mp hread
    have hb : b.rows = [] := List.flatMap_eq_nil_iff.mp (haggregated.symm.trans hnone) b hb
    rw [hb] at hread
    cases hread
    rfl
  rw [hempty] at hrows
  cases hrows
  rw [hcounted, List.perm_nil.mp hperm]

/-- The files of a task are different. -/
theorem nodup_files (hagg : agg.WellFormed) (hcount : 1 ≤ writer.partitionCount.toInt)
    (h : aggregateTask executor input agg writer m = .ok (task, m')) :
    (task.locations.map ShuffleLocation.file).Nodup := by
  obtain ⟨buffers, hbuffers, -, hstored⟩ := exists_buffers hagg hcount h
  have hlocations : task.locations = (writer.storePartitions (executor.context m) buffers).1 :=
    congrArg Prod.fst hstored
  have hlen : buffers.length < 2 ^ 31 := by
    have := Int32.toInt_lt writer.partitionCount
    rw [hbuffers.length_eq, asUsize_of_nonneg (by omega)]
    omega
  rw [hlocations, ShuffleWriter.storePartitions_locations, List.map_map]
  exact (ShuffleWriter.nodup_partitionFiles writer hlen).sublist
    (List.filter_sublist.map fun x : List RecordBatch × ℕ => writer.partitionFile x.2)

/-- Without rows there are no files. -/
theorem locations_eq_nil (hagg : agg.WellFormed) (hcount : 1 ≤ writer.partitionCount.toInt)
    (h : aggregateTask executor input agg writer m = .ok (task, m'))
    (hnone : task.partialRows = []) : task.locations = [] := by
  obtain ⟨buffers, hbuffers, -, hstored⟩ := exists_buffers hagg hcount h
  have hlocations : task.locations = (writer.storePartitions (executor.context m) buffers).1 :=
    congrArg Prod.fst hstored
  rw [hnone] at hbuffers
  rw [hlocations, ShuffleWriter.storePartitions_locations, List.map_eq_nil_iff,
    List.filter_eq_nil_iff]
  intro x hx
  simp [hbuffers.eq_nil x.1 (List.fst_mem_of_mem_zipIdx hx)]

/-- Reading the locations of all tasks yields the partial rows of the input once for each task. -/
theorem exists_read_batches (hagg : agg.WellFormed) (hcount : 1 ≤ writer.partitionCount.toInt)
    (h : aggregateTask executor input agg writer m = .ok (task, m')) (copies : ℕ) :
    ∃ batches : List RecordBatch,
      (PhysicalPlan.shuffleReader agg.schema (List.replicate copies task.locations).flatten).execute
        (executor.context m') = .ok ((List.replicate copies batches).flatten.map .ok) ∧
      (rowsOf batches).Perm task.partialRows := by
  obtain ⟨buffers, hbuffers, hkeys, hstored⟩ := exists_buffers hagg hcount h
  have hlen : buffers.length < 2 ^ 31 := by
    have := Int32.toInt_lt writer.partitionCount
    rw [hbuffers.length_eq, asUsize_of_nonneg (by omega)]
    omega
  have hpos : 0 < asUsize writer.partitionCount := by
    rw [asUsize_of_nonneg (by omega)]
    omega
  obtain ⟨-, hread⟩ := ShuffleWriter.readShuffle_stored writer (executor.context m) hlen
  rw [← hstored] at hread
  refine ⟨buffers.flatten, ?_, hbuffers.rows_perm hpos hkeys⟩
  have hcopies := readShuffle_replicate hread copies
  rw [List.map_flatten, List.map_replicate]
  exact hcopies

/-- Equal tasks aggregate every row once if there is one of them, or no row. -/
theorem exactlyOnce_replicate_iff (hagg : agg.WellFormed)
    (hcount : 1 ≤ writer.partitionCount.toInt)
    (h : aggregateTask executor input agg writer m = .ok (task, m')) (n : ℕ) :
    ExactlyOnce task.aggregated (List.replicate (n + 1) task)
        ((PhysicalPlan.shuffleReader agg.schema
          ((List.replicate (n + 1) task).flatMap AggregateTask.locations)).rows
            (executor.context m')) ↔
      n = 0 ∨ task.aggregated = [] := by
  have hnodup := nodup_files hagg hcount h
  obtain ⟨batches, hread, hperm⟩ := exists_read_batches hagg hcount h (n + 1)
  -- The reader yields the rows of the one task once for every task.
  have hrows : (PhysicalPlan.shuffleReader agg.schema
      ((List.replicate (n + 1) task).flatMap AggregateTask.locations)).rows (executor.context m') =
        .ok (List.replicate (n + 1) (rowsOf batches)).flatten := by
    rw [List.flatMap_replicate, PhysicalPlan.rows, hread, Outcome.ok_bind, streamRows, collect,
      Outcome.mapM_id_map_ok, Outcome.ok_bind, rowsOf, ← List.flatMap_id, List.flatMap_assoc]
    rw [List.flatMap_replicate]
    rfl
  constructor
  · rintro ⟨haggregated, -⟩
    have hlen := haggregated.length_eq
    -- So many copies of the input are the input only where there is one copy, or no row.
    rw [List.flatMap_replicate, List.length_flatten, List.map_replicate,
      List.sum_replicate_nat] at hlen
    by_cases hempty : task.aggregated.length = 0
    · exact .inr (List.length_eq_zero_iff.mp hempty)
    · have hn : n + 1 = 1 := Nat.eq_of_mul_eq_mul_right (Nat.pos_of_ne_zero hempty)
        (hlen.trans (one_mul _).symm)
      exact .inl (by omega)
  · rintro (rfl | hempty)
    · refine ⟨?_, ?_, ?_, _, hrows, ?_⟩
      · simp
      · simpa using hnodup
      · simpa using hnodup.of_map _
      · simpa using hperm
    · have hcounted := partialRows_eq_nil hagg h hempty
      have hlocations := locations_eq_nil hagg hcount h hcounted
      rw [hcounted, List.perm_nil] at hperm
      refine ⟨?_, ?_, ?_, _, hrows, ?_⟩
      · simp [List.flatMap_replicate, hempty]
      · simp [List.flatMap_replicate, hlocations]
      · simp [List.flatMap_replicate, hlocations]
      · simp [List.flatMap_replicate, hcounted, hperm]

end

/-- On one executor the rows of the input reach the final stage exactly once if there is a single
partition or no row; otherwise every task aggregates all rows. This is for every sequence of the
tasks, and every input that reads no files of the job itself. -/
theorem exactlyOnce_iff {defaultPartitions : Int32} (hagg : agg.WellFormed) {jobUuid : String}
    (hnew : input.ReadsNothingOf jobUuid) {partitionIds : List ℕ}
    (hids : partitionIds.Perm (List.range
      (DistributedConfig.partitionCount ⟨[executor], defaultPartitions⟩).toInt.toNat))
    {m m' : ShuffleManager} {inputRows : List Row}
    (hrows : input.rows (executor.context m) = .ok inputRows) {locations : List ShuffleLocation}
    (hrun : (soleScheduler executor defaultPartitions).executeTasks jobUuid
      ((soleScheduler executor defaultPartitions).aggregateStage input agg jobUuid) partitionIds m =
        .ok (locations, m')) :
    ∃ tasks, aggregateTasks executor input agg
        ((soleScheduler executor defaultPartitions).aggregateWriter agg jobUuid)
        partitionIds.length m = .ok (tasks, m') ∧
      tasks.flatMap AggregateTask.locations = locations ∧
      (ExactlyOnce inputRows tasks
          ((PhysicalPlan.shuffleReader agg.schema locations).rows (executor.context m')) ↔
        DistributedConfig.partitionCount ⟨[executor], defaultPartitions⟩ = 1 ∨
          inputRows = []) := by
  have hcount := one_le_partitionCount executor defaultPartitions
  obtain ⟨tasks, htasks, rfl⟩ := (executeTasks_eq_ok_iff rfl).mp hrun
  refine ⟨tasks, htasks, rfl, ?_⟩
  obtain ⟨n, hn⟩ : ∃ n,
      (DistributedConfig.partitionCount ⟨[executor], defaultPartitions⟩).toInt.toNat = n + 1 :=
    ⟨_, (Nat.sub_add_cancel (by omega)).symm⟩
  have hone : DistributedConfig.partitionCount ⟨[executor], defaultPartitions⟩ = 1 ↔ n = 0 := by
    rw [← Int32.toInt_inj, show (1 : Int32).toInt = 1 from rfl]
    omega
  rw [hids.length_eq, List.length_range, hn] at htasks
  obtain ⟨⟨task, m₁⟩, htask, -⟩ := Outcome.bind_eq_ok_iff.mp htasks
  -- Every task aggregates the same rows into the same files.
  obtain ⟨m'', m₀, hall, hlast⟩ := aggregateTasks_eq_replicate hnew htask n
  obtain ⟨rfl, rfl⟩ := Prod.mk.inj (Except.ok.inj (htasks.symm.trans hall))
  obtain rfl : task.aggregated = inputRows := by
    obtain ⟨stream, batches, out, hstream, hbatches, -, -, haggregated, -⟩ :=
      aggregateTask_eq_ok_iff.mp htask
    rw [PhysicalPlan.rows, hstream, Outcome.ok_bind, streamRows, hbatches] at hrows
    exact haggregated.trans (Except.ok.inj hrows)
  have hwriter : 1 ≤ ((soleScheduler executor defaultPartitions).aggregateWriter agg
      jobUuid).partitionCount.toInt := hcount
  rw [exactlyOnce_replicate_iff hagg hwriter hlast n, hone]

end

section RepeatedTasks

attribute [local instance] integerFloats insertionOrderRuntime

local instance noTaskFiles : Readers := parquetDisk fun _ => none

/-- The columns of the example have one cell each. -/
theorem taskColumns_length : ∀ c ∈ [Int32Array [7]], c.cells.length = 1 := by
  decide

/-- A batch with the row `x = 7`. -/
def taskBatch : RecordBatch where
  schema := ⟨[⟨"x", .int32⟩]⟩
  columns := [Int32Array [7]]
  numRows := 1
  types_eq := by decide
  lengths := taskColumns_length

def taskInput : PhysicalPlan := .inMemory taskBatch.schema [taskBatch]

/-- `SELECT x, COUNT(x) … GROUP BY x`. -/
def countPerX : HashAggregate where
  groupExpr := [.column 0]
  aggregateExpr := [CountExpression (.column 0)]
  schema := ⟨[⟨"x", .int32⟩, ⟨"COUNT", .int32⟩]⟩

def onlyExecutor : ExecutorConfig := ⟨"exec", "localhost", 50051⟩

/-- Two partitions: both tasks aggregate the row, and the final stage reads its group twice. -/
theorem countPerX_not_exactlyOnce :
    ∃ locations m', (soleScheduler onlyExecutor 2).executeTasks "job"
        ((soleScheduler onlyExecutor 2).aggregateStage taskInput countPerX "job") [0, 1] .empty =
          .ok (locations, m') ∧
      (PhysicalPlan.shuffleReader countPerX.schema locations).rows (onlyExecutor.context m') =
        .ok [[.int32 7, .int32 1], [.int32 7, .int32 1]] ∧
      ∀ tasks, aggregateTasks onlyExecutor taskInput countPerX
          ((soleScheduler onlyExecutor 2).aggregateWriter countPerX "job") 2 .empty =
            .ok (tasks, m') →
        ¬ ExactlyOnce [[.int32 7]] tasks
          ((PhysicalPlan.shuffleReader countPerX.schema locations).rows
            (onlyExecutor.context m')) := by
  obtain ⟨⟨locations, m'⟩, hrun⟩ : Outcome.Succeeds ((soleScheduler onlyExecutor 2).executeTasks
      "job" ((soleScheduler onlyExecutor 2).aggregateStage taskInput countPerX "job") [0, 1]
        .empty) := by
    decide
  have hread : ((soleScheduler onlyExecutor 2).executeTasks "job"
      ((soleScheduler onlyExecutor 2).aggregateStage taskInput countPerX "job") [0, 1] .empty >>=
        fun r => (PhysicalPlan.shuffleReader countPerX.schema r.1).rows (onlyExecutor.context r.2)) =
      .ok [[.int32 7, .int32 1], [.int32 7, .int32 1]] := by
    decide
  have htasks : (aggregateTasks onlyExecutor taskInput countPerX
      ((soleScheduler onlyExecutor 2).aggregateWriter countPerX "job") 2 .empty >>=
        fun r => .ok (r.1.flatMap AggregateTask.aggregated)) =
      .ok [[.int32 7], [.int32 7]] := by
    decide
  rw [hrun] at hread
  refine ⟨locations, m', hrun, hread, fun tasks hrun h => ?_⟩
  rw [hrun, Outcome.ok_bind, Except.ok.injEq] at htasks
  have hlen := h.aggregated.length_eq
  rw [htasks] at hlen
  cases hlen

/-- The condition for these tasks, in the other sequence. -/
theorem exactlyOnce_iff_countPerX :
    ∃ tasks locations m', aggregateTasks onlyExecutor taskInput countPerX
        ((soleScheduler onlyExecutor 2).aggregateWriter countPerX "job") 2 .empty =
          .ok (tasks, m') ∧
      tasks.flatMap AggregateTask.locations = locations ∧
      (ExactlyOnce [[.int32 7]] tasks
          ((PhysicalPlan.shuffleReader countPerX.schema locations).rows
            (onlyExecutor.context m')) ↔
        DistributedConfig.partitionCount ⟨[onlyExecutor], 2⟩ = 1 ∨
          ([[.int32 7]] : List Row) = []) := by
  obtain ⟨⟨locations, m'⟩, hrun⟩ : Outcome.Succeeds ((soleScheduler onlyExecutor 2).executeTasks
      "job" ((soleScheduler onlyExecutor 2).aggregateStage taskInput countPerX "job") [1, 0]
        .empty) := by
    decide
  have hnew : taskInput.ReadsNothingOf "job" := fun reader hreader =>
    absurd hreader List.not_mem_nil
  have hagg : countPerX.WellFormed := rfl
  have hids : [1, 0].Perm
      (List.range (DistributedConfig.partitionCount ⟨[onlyExecutor], 2⟩).toInt.toNat) := by
    decide
  have hrows : taskInput.rows (onlyExecutor.context .empty) = .ok [[.int32 7]] := by decide
  obtain ⟨tasks, h⟩ := exactlyOnce_iff hagg hnew hids hrows hrun
  exact ⟨tasks, locations, m', h⟩

end RepeatedTasks

end RQuery
