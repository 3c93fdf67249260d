import RQuery.Common.Interleaving
import RQuery.Distributed.SeveralExecutors

/-!
# Jobs that run at the same time

Several schedulers may use the same executors at once. A job takes its steps in turn with the other
jobs: a scheduler starts the next stage or sends the next task, a server computes the partitions of a
task, or writes one of its files. The files of a job are named by its UUID. So a job whose plan reads
no files of the others returns what it would return if it had the executors to itself, however the
steps are interleaved (`concurrentJobs_isolated`).
-/

namespace RQuery

section

variable [FloatModel]

/-! ## Steps of a job -/

/-- One run of `Scheduler::execute`. -/
structure Job where
  config : DistributedConfig
  plan : PhysicalPlan
  jobUuid : String

/-- How far a job has come. -/
inductive JobState
  /-- The stages that are left are to be run. -/
  | ready (stages : List QueryStage) (locationsByStage : List (Int32 × List ShuffleLocation))
  /-- The tasks of these partitions of a stage are to be run; the others reported locations. -/
  | running (stage : QueryStage) (partitionIds : List ℕ) (locations : List ShuffleLocation)
    (stages : List QueryStage) (locationsByStage : List (Int32 × List ShuffleLocation))
  /-- A server is to write these files, then the job goes on. -/
  | writing (endpoint : Endpoint) (files : List (PartitionFile × List RecordBatch))
    (next : JobState)
  | finished (result : Result BatchStream)

/-- A server writes a file. -/
def Network.write (network : Network) (endpoint : Endpoint) (file : PartitionFile)
    (batches : List RecordBatch) : Network :=
  fun e => if e = endpoint then
      (network e).map fun ctx =>
        { ctx with shuffleManager := ctx.shuffleManager.writePartition file batches }
    else network e

/-- The files of the partitions that are not empty. -/
def ShuffleWriter.files (w : ShuffleWriter) (buffers : List (List RecordBatch)) :
    List (PartitionFile × List RecordBatch) :=
  (buffers.zipIdx.filter fun x => !x.1.isEmpty).map fun x => (w.partitionFile x.2, x.1)

variable [Readers] [Runtime]

/-- What a server does for a task before it writes: the files it will write, and their locations. -/
def computeTask (ctx : ExecutorContext) (plan : PhysicalPlan) :
    Result (List (PartitionFile × List RecordBatch) × List ShuffleLocation) :=
  match plan with
  | .shuffleWriter input writer => do
    let schema ← input.schema
    let buffers ← writer.partitionBatches schema (← input.execute ctx)
    return (writer.files buffers, (writer.storePartitions ctx buffers).1)
  | plan => do
    let _ ← collect (← plan.execute ctx)
    return ([], [])

namespace Job

variable (job : Job)

def scheduler : Scheduler Network := clusterScheduler job.config

/-- Send the task of a partition to its executor. -/
def startTask (stage : QueryStage) (partitionId : ℕ) (network : Network) :
    Result (Endpoint × List (PartitionFile × List RecordBatch) × List ShuffleLocation) := do
  let executor ← job.scheduler.executorOf partitionId
  let ctx ← Client.server network executor.endpoint
  return (executor.endpoint, ← computeTask ctx stage.plan)

/-- The stage that is run next, with the locations of the stages it depends on. -/
def nextStage (stage : QueryStage) (locationsByStage : List (Int32 × List ShuffleLocation)) :
    Result QueryStage := do
  if let some dependency := stage.dependencies.find? fun d => (locationsByStage.lookup d).isNone then
    throw (.other s!"Stage {stage.stageId} depends on stage {dependency} which hasn't completed")
  let inputLocations := stage.dependencies.flatMap fun d => (locationsByStage.lookup d).getD []
  if inputLocations.isEmpty then pure stage
  else job.scheduler.planner.updateShuffleLocations stage inputLocations

/-- One step. -/
def step : JobState → Network → JobState × Network
  | .ready [] _, network => (.finished (.error (.other "Distributed plan had no final stage")), network)
  | .ready (stage :: stages) locationsByStage, network =>
    match job.nextStage stage locationsByStage with
    | .error e => (.finished (.error e), network)
    | .ok stage =>
      if stage.isFinalStage then
        (.finished (job.scheduler.executeFinalStage job.jobUuid stage network), network)
      else
        (.running stage (List.range stage.partitionCount.toInt.toNat) [] stages locationsByStage,
          network)
  | .running stage [] locations stages locationsByStage, network =>
    (.ready stages ((stage.stageId, locations) :: locationsByStage), network)
  | .running stage (partitionId :: partitionIds) locations stages locationsByStage, network =>
    match job.startTask stage partitionId network with
    | .error e => (.finished (.error e), network)
    | .ok (endpoint, files, reported) =>
      (.writing endpoint files
        (.running stage partitionIds (locations ++ reported) stages locationsByStage), network)
  | .writing _ [] next, network => (next, network)
  | .writing endpoint ((file, batches) :: files) next, network =>
    (.writing endpoint files next, network.write endpoint file batches)
  | .finished result, network => (.finished result, network)

/-- The job before its first step. -/
def start : JobState :=
  .ready ((job.scheduler.planner.plan job.plan job.jobUuid).mergeSort fun s t =>
    s.stageId ≤ t.stageId) []

/-- What the job returns if it has the executors to itself. -/
def result (network : Network) : Result BatchStream :=
  job.scheduler.execute job.plan job.jobUuid network

end Job

/-! ## A job on its own -/

section

omit [Readers] [Runtime]

/-- Storing partitions is writing their files one by one. -/
theorem ShuffleWriter.storePartitions_files (w : ShuffleWriter) (ctx : ExecutorContext)
    (buffers : List (List RecordBatch)) :
    (w.storePartitions ctx buffers).2 =
      (w.files buffers).foldl (fun m f => m.writePartition f.1 f.2) ctx.shuffleManager := by
  rw [storePartitions_eq, files]
  suffices hacc : ∀ (xs : List (List RecordBatch × ℕ)) (acc : List ShuffleLocation × ShuffleManager),
      (xs.foldl (w.storeOne ctx) acc).2 =
        ((xs.filter fun x => !x.1.isEmpty).map fun x => (w.partitionFile x.2, x.1)).foldl
          (fun m f => m.writePartition f.1 f.2) acc.2 from hacc _ _
  intro xs
  induction xs with
  | nil => exact fun acc => rfl
  | cons x xs ih =>
    intro acc
    rw [List.foldl_cons, ih, List.filter_cons, storeOne]
    by_cases hempty : x.1.isEmpty
    · rw [if_pos hempty, if_neg (by simpa using hempty)]
    · rw [if_neg hempty, if_pos (by simpa using hempty)]
      rfl

/-- Writing files one by one is storing them. -/
theorem Network.foldl_write {endpoint : Endpoint} (files : List (PartitionFile × List RecordBatch))
    {network : Network} {ctx : ExecutorContext} (hctx : network endpoint = some ctx) :
    files.foldl (fun n f => n.write endpoint f.1 f.2) network =
      network.store endpoint
        (files.foldl (fun m f => m.writePartition f.1 f.2) ctx.shuffleManager) := by
  induction files generalizing network ctx with
  | nil =>
    funext e
    by_cases he : e = endpoint
    · rw [List.foldl_nil, List.foldl_nil, store, if_pos he, he, hctx]
      rfl
    · rw [List.foldl_nil, store, if_neg he]
  | cons f files ih =>
    have hwrite : network.write endpoint f.1 f.2 endpoint =
        some { ctx with shuffleManager := ctx.shuffleManager.writePartition f.1 f.2 } := by
      rw [write, if_pos rfl, hctx]
      rfl
    rw [List.foldl_cons, ih hwrite, List.foldl_cons]
    funext e
    by_cases he : e = endpoint
    · rw [store, if_pos he, store, if_pos he, he, hwrite, hctx]
      rfl
    · rw [store, if_neg he, store, if_neg he, write, if_neg he]

end

omit [Readers] [Runtime] in
/-- A task without a writer writes no file. -/
theorem drain_eq (stream : Result BatchStream) (m : ShuffleManager) :
    (do
      let _ ← collect (← stream)
      return (([] : List ShuffleLocation), m)) = (do
      let (files, locations) ← (do
        let _ ← collect (← stream)
        return (([] : List (PartitionFile × List RecordBatch)), ([] : List ShuffleLocation)) :
          Result (List (PartitionFile × List RecordBatch) × List ShuffleLocation))
      return (locations, files.foldl (fun m f => m.writePartition f.1 f.2) m) :
        Result (List ShuffleLocation × ShuffleManager)) := by
  cases stream with
  | error e => rfl
  | ok stream =>
    rw [Outcome.ok_bind, Outcome.ok_bind]
    cases collect stream with
    | error e => rfl
    | ok batches => rfl

/-- A server runs a task in two parts. -/
theorem runTask_eq_computeTask (ctx : ExecutorContext) (task : Task) :
    runTask ctx task = (do
      let (files, locations) ← computeTask ctx task.plan
      return (locations,
        files.foldl (fun m f => m.writePartition f.1 f.2) ctx.shuffleManager)) := by
  obtain ⟨jobUuid, stageId, taskId, partitionId, plan⟩ := task
  cases plan with
  -- A writer stores its files only after all of them are computed.
  | shuffleWriter input writer =>
    show writer.writeShuffle input.schema (input.execute ctx) ctx = (_ >>= _)
    rw [ShuffleWriter.writeShuffle, computeTask]
    cases input.schema with
    | error e => rfl
    | ok schema =>
      cases input.execute ctx with
      | error e => rfl
      | ok stream =>
        rw [Outcome.ok_bind, Outcome.ok_bind, Outcome.ok_bind, Outcome.ok_bind]
        cases writer.partitionBatches schema stream with
        | error e => rfl
        | ok buffers =>
          rw [Outcome.ok_bind, Outcome.ok_bind, Outcome.pure_eq_ok, Outcome.pure_eq_ok,
            Outcome.ok_bind]
          dsimp only
          rw [← ShuffleWriter.storePartitions_files]
          rfl
  | _ => exact drain_eq _ _

namespace Job

variable (job : Job)

open Interleaving

/-- A server that has computed the files writes them all. -/
theorem reaches_written (endpoint : Endpoint) (files : List (PartitionFile × List RecordBatch))
    (next : JobState) (network : Network) :
    Reaches job.step (.writing endpoint files next, network)
      (next, files.foldl (fun n f => n.write endpoint f.1 f.2) network) := by
  induction files generalizing network with
  | nil => exact .one _ _
  | cons f files ih => exact (Reaches.one _ _).trans (ih _)

/-- A task is run by computing its files and writing them. -/
theorem executeTaskOf_eq_startTask (stage : QueryStage) (partitionId : ℕ) (network : Network) :
    job.scheduler.executeTaskOf job.jobUuid stage partitionId network = (do
      let (endpoint, files, reported) ← job.startTask stage partitionId network
      return (reported, files.foldl (fun n f => n.write endpoint f.1 f.2) network)) := by
  rw [Scheduler.executeTaskOf, startTask]
  cases job.scheduler.executorOf partitionId with
  | error e => rfl
  | ok executor =>
    show (Client.server network executor.endpoint >>= _) =
      ((Client.server network executor.endpoint >>= _) >>= _)
    cases hctx : network executor.endpoint with
    | none =>
      have hserver : Client.server network executor.endpoint =
          .error (.inputOutput executor.endpoint.url) := by
        rw [Client.server, hctx]
      rw [hserver]
      rfl
    | some ctx =>
      have hserver : Client.server network executor.endpoint = .ok ctx := by
        rw [Client.server, hctx]
      rw [hserver, Outcome.ok_bind, Outcome.ok_bind, runTask_eq_computeTask]
      show ((computeTask ctx stage.plan >>= _) >>= _) = ((computeTask ctx stage.plan >>= _) >>= _)
      cases computeTask ctx stage.plan with
      | error e => rfl
      | ok computed =>
        obtain ⟨files, reported⟩ := computed
        show Except.ok (reported, network.store executor.endpoint _) =
          Except.ok (reported, files.foldl _ network)
        rw [Network.foldl_write files hctx]

/-- The task of a partition is sent and run. -/
theorem reaches_task (stage : QueryStage) (partitionId : ℕ) (partitionIds : List ℕ)
    (locations : List ShuffleLocation) (stages : List QueryStage)
    (locationsByStage : List (Int32 × List ShuffleLocation)) (network : Network) :
    match job.scheduler.executeTaskOf job.jobUuid stage partitionId network with
    | .ok (reported, network') => Reaches job.step
        (.running stage (partitionId :: partitionIds) locations stages locationsByStage, network)
        (.running stage partitionIds (locations ++ reported) stages locationsByStage, network')
    | .error e => Reaches job.step
        (.running stage (partitionId :: partitionIds) locations stages locationsByStage, network)
        (.finished (.error e), network) := by
  have hone : Reaches job.step
      (.running stage (partitionId :: partitionIds) locations stages locationsByStage, network)
      (job.step (.running stage (partitionId :: partitionIds) locations stages locationsByStage)
        network) := .one _ _
  rw [executeTaskOf_eq_startTask]
  rw [step] at hone
  cases hstart : job.startTask stage partitionId network with
  | error e =>
    rw [hstart] at hone
    exact hone
  | ok started =>
    obtain ⟨endpoint, files, reported⟩ := started
    rw [hstart] at hone
    exact hone.trans (job.reaches_written endpoint files _ network)

/-- All tasks of a stage are run. -/
theorem reaches_tasks (stage : QueryStage) (partitionIds : List ℕ)
    (locations : List ShuffleLocation) (stages : List QueryStage)
    (locationsByStage : List (Int32 × List ShuffleLocation)) (network : Network) :
    match job.scheduler.executeTasks job.jobUuid stage partitionIds network with
    | .ok (reported, network') => Reaches job.step
        (.running stage partitionIds locations stages locationsByStage, network)
        (.running stage [] (locations ++ reported) stages locationsByStage, network')
    | .error e => ∃ network', Reaches job.step
        (.running stage partitionIds locations stages locationsByStage, network)
        (.finished (.error e), network') := by
  -- The tasks run one after another; the first that fails ends the job.
  induction partitionIds generalizing locations network with
  | nil =>
    show Reaches job.step _ (.running stage [] (locations ++ []) stages locationsByStage, network)
    rw [List.append_nil]
    exact .refl _
  | cons partitionId partitionIds ih =>
    have htask := job.reaches_task stage partitionId partitionIds locations stages locationsByStage
      network
    rw [Scheduler.executeTasks_cons]
    cases hone : job.scheduler.executeTaskOf job.jobUuid stage partitionId network with
    | error e =>
      rw [hone] at htask
      exact ⟨network, htask⟩
    | ok first =>
      obtain ⟨reported, network'⟩ := first
      rw [hone] at htask
      have hrest := ih (locations ++ reported) network'
      rw [Outcome.ok_bind]
      dsimp only at htask ⊢
      cases hlater : job.scheduler.executeTasks job.jobUuid stage partitionIds network' with
      | error e =>
        rw [hlater] at hrest
        obtain ⟨network'', hrest⟩ := hrest
        exact ⟨network'', htask.trans hrest⟩
      | ok later =>
        obtain ⟨later, network''⟩ := later
        rw [hlater] at hrest
        dsimp only at hrest
        -- The locations reported so far are followed by those of the later tasks.
        rw [List.append_assoc] at hrest
        exact htask.trans hrest

/-- One round of the scheduler's loop: the locations are injected, and the stage is run. -/
theorem executeStages_eq_nextStage (stage : QueryStage) (stages : List QueryStage)
    (locationsByStage : List (Int32 × List ShuffleLocation)) (network : Network) :
    job.scheduler.executeStages job.jobUuid (stage :: stages) locationsByStage network = (do
      let stage ← job.nextStage stage locationsByStage
      if stage.isFinalStage then job.scheduler.executeFinalStage job.jobUuid stage network
      else
        let (locations, network) ← job.scheduler.executeStage job.jobUuid stage network
        job.scheduler.executeStages job.jobUuid stages
          ((stage.stageId, locations) :: locationsByStage) network) := by
  rw [Scheduler.executeStages, nextStage]
  cases stage.dependencies.find? fun d => (locationsByStage.lookup d).isNone with
  | some dependency => rfl
  | none =>
    dsimp only
    split
    · rfl
    · rfl

/-- The stages that are left are run. -/
theorem reaches_stages (stages : List QueryStage)
    (locationsByStage : List (Int32 × List ShuffleLocation)) (network : Network) :
    ∃ network', Reaches job.step (.ready stages locationsByStage, network)
      (.finished (job.scheduler.executeStages job.jobUuid stages locationsByStage network),
        network') := by
  induction stages generalizing locationsByStage network with
  | nil => exact ⟨network, .one _ _⟩
  | cons stage stages ih =>
    have hone : Reaches job.step (.ready (stage :: stages) locationsByStage, network)
      (job.step (.ready (stage :: stages) locationsByStage) network) := .one _ _
    rw [step] at hone
    rw [executeStages_eq_nextStage]
    cases hnext : job.nextStage stage locationsByStage with
    | error e =>
      rw [hnext] at hone
      exact ⟨network, hone⟩
    | ok next =>
      rw [hnext] at hone
      dsimp only at hone
      rw [Outcome.ok_bind]
      -- The final stage ends the job; any other hands its locations on.
      by_cases hfinal : next.isFinalStage = true
      · rw [if_pos hfinal] at hone ⊢
        exact ⟨network, hone⟩
      · rw [if_neg hfinal] at hone ⊢
        have htasks := job.reaches_tasks next (List.range next.partitionCount.toInt.toNat) []
          stages locationsByStage network
        rw [Scheduler.executeStage]
        cases hstage : job.scheduler.executeTasks job.jobUuid next
            (List.range next.partitionCount.toInt.toNat) network with
        | error e =>
          rw [hstage] at htasks
          obtain ⟨network', htasks⟩ := htasks
          exact ⟨network', hone.trans htasks⟩
        | ok written =>
          obtain ⟨locations, network'⟩ := written
          rw [hstage] at htasks
          have hback : Reaches job.step
              (.running next [] ([] ++ locations) stages locationsByStage, network')
              (.ready stages ((next.stageId, locations) :: locationsByStage), network') :=
            .one _ _
          obtain ⟨network'', hrest⟩ := ih ((next.stageId, locations) :: locationsByStage) network'
          exact ⟨network'', ((hone.trans htasks).trans hback).trans hrest⟩

/-- On its own a job returns what `Scheduler::execute` returns. -/
theorem alone_finishes (network : Network) :
    ∃ n, ∀ k, n ≤ k → (alone job.step k job.start network).1 = .finished (job.result network) := by
  obtain ⟨network', n, hn⟩ := job.reaches_stages
    ((job.scheduler.planner.plan job.plan job.jobUuid).mergeSort fun s t => s.stageId ≤ t.stageId)
    [] network
  refine ⟨n, fun k hk => ?_⟩
  obtain ⟨m, rfl⟩ := Nat.exists_eq_add_of_le hk
  have hn : alone job.step n job.start network = (.finished (job.result network), network') := hn
  have hstopped : ∀ s, job.step (.finished (job.result network)) s =
      (.finished (job.result network), s) := fun _ => rfl
  rw [alone_add, hn, alone_stopped hstopped]

end Job

/-! ## What a job sees -/

section

omit [Readers] [Runtime]

/-- The plan reads no shuffle files of these jobs. -/
def PhysicalPlan.ReadsOutside (jobs : Set String) (plan : PhysicalPlan) : Prop :=
  ∀ reader ∈ plan.shuffleReaders, ∀ loc ∈ reader.2, loc.jobUuid ∉ jobs

/-- The contexts differ in shuffle files of these jobs only. -/
structure ExecutorContext.AgreeOutside (jobs : Set String) (ctx ctx' : ExecutorContext) : Prop where
  executorId : ctx.executorId = ctx'.executorId
  executorHost : ctx.executorHost = ctx'.executorHost
  executorPort : ctx.executorPort = ctx'.executorPort
  files : ∀ file : PartitionFile, file.jobUuid ∉ jobs →
    ctx.shuffleManager.file? file = ctx'.shuffleManager.file? file

/-- The servers differ in shuffle files of these jobs only. -/
def Network.AgreeOutside (jobs : Set String) (network network' : Network) : Prop :=
  ∀ endpoint, Option.Rel (ExecutorContext.AgreeOutside jobs) (network endpoint) (network' endpoint)

variable {jobs : Set String}

/-- A state agrees with itself. -/
theorem ExecutorContext.AgreeOutside.refl (ctx : ExecutorContext) : ctx.AgreeOutside jobs ctx :=
  ⟨rfl, rfl, rfl, fun _ _ => rfl⟩

/-- Agreement of states is transitive. -/
theorem ExecutorContext.AgreeOutside.trans {a b c : ExecutorContext} (h : a.AgreeOutside jobs b)
    (h' : b.AgreeOutside jobs c) : a.AgreeOutside jobs c :=
  ⟨h.executorId.trans h'.executorId, h.executorHost.trans h'.executorHost,
    h.executorPort.trans h'.executorPort,
    fun file hfile => (h.files file hfile).trans (h'.files file hfile)⟩

/-- A network agrees with itself. -/
theorem Network.AgreeOutside.refl (network : Network) : network.AgreeOutside jobs network := by
  intro endpoint
  cases network endpoint with
  | none => exact .none
  | some ctx => exact .some (.refl ctx)

/-- A written file has its batches, unless there are none, and the other files stay. -/
theorem ShuffleManager.file?_writePartition (m : ShuffleManager) (file other : PartitionFile)
    (batches : List RecordBatch) : (m.writePartition file batches).file? other =
      if file = other ∧ batches ≠ [] then some batches else m.file? other := by
  by_cases hempty : batches = []
  · rw [if_neg fun h => h.2 hempty, hempty]
    rfl
  · by_cases hfile : file = other
    · rw [if_pos ⟨hfile, hempty⟩, ← hfile, ShuffleManager.file?_writePartition_self hempty]
    · rw [if_neg fun h => hfile h.1, ShuffleManager.file?_writePartition_ne (Ne.symm hfile)]

/-- Writing the same file on both sides. -/
theorem Network.AgreeOutside.write {network network' : Network}
    (h : network.AgreeOutside jobs network') (endpoint : Endpoint) (file : PartitionFile)
    (batches : List RecordBatch) :
    (network.write endpoint file batches).AgreeOutside jobs
      (network'.write endpoint file batches) := by
  intro e
  unfold Network.write
  by_cases he : e = endpoint
  · rw [if_pos he, if_pos he]
    have hrel := h e
    generalize network e = server at hrel ⊢
    generalize network' e = server' at hrel ⊢
    cases hrel with
    | none => exact .none
    | some hctx =>
      refine .some ⟨hctx.executorId, hctx.executorHost, hctx.executorPort, fun other hother => ?_⟩
      rw [ShuffleManager.file?_writePartition, ShuffleManager.file?_writePartition,
        hctx.files other hother]
  · rw [if_neg he, if_neg he]
    exact h e

/-- Writing a file of one of the jobs. -/
theorem Network.AgreeOutside.write_left {network network' : Network}
    (h : network.AgreeOutside jobs network') (endpoint : Endpoint) {file : PartitionFile}
    (hfile : file.jobUuid ∈ jobs) (batches : List RecordBatch) :
    (network.write endpoint file batches).AgreeOutside jobs network' := by
  intro e
  unfold Network.write
  by_cases he : e = endpoint
  · rw [if_pos he]
    have hrel := h e
    generalize network e = server at hrel ⊢
    generalize network' e = server' at hrel ⊢
    cases hrel with
    | none => exact .none
    | some hctx =>
      refine .some ⟨hctx.executorId, hctx.executorHost, hctx.executorPort, fun other hother => ?_⟩
      have hne : file ≠ other := fun heq => hother (heq ▸ hfile)
      rw [ShuffleManager.file?_writePartition, if_neg fun h => hne h.1, hctx.files other hother]
  · rw [if_neg he]
    exact h e

end

/-- A plan yields the same where the files that it reads are the same. -/
theorem PhysicalPlan.ReadsOutside.execute_eq {jobs : Set String} {ctx ctx' : ExecutorContext}
    (hctx : ctx.AgreeOutside jobs ctx') {plan : PhysicalPlan} (h : plan.ReadsOutside jobs) :
    plan.execute ctx = plan.execute ctx' := by
  induction plan with
  | scan | inMemory => rfl
  | projection _ _ _ ih | selection _ _ ih | limit _ _ ih | hashAggregate _ _ _ ih =>
    simp only [execute, ih h]
  -- A writer is no operator to execute: it answers with an error in any context.
  | shuffleWriter => rfl
  | hashJoin left right join ihl ihr =>
    have hl : left.ReadsOutside jobs := fun reader hreader =>
      h reader (List.mem_append_left _ hreader)
    have hr : right.ReadsOutside jobs := fun reader hreader =>
      h reader (List.mem_append_right _ hreader)
    simp only [execute, ihl hl, ihr hr]
  -- The files read belong to none of the jobs, so both executors have them.
  | shuffleReader schema locations =>
    have hread : ∀ loc ∈ locations,
        ctx.shuffleManager.readPartition loc.file = ctx'.shuffleManager.readPartition loc.file := by
      intro loc hloc
      unfold ShuffleManager.readPartition
      rw [hctx.files loc.file (h _ (List.mem_singleton.mpr rfl) loc hloc)]
    have hflat : locations.flatMap (fun loc => ctx.shuffleManager.readPartition loc.file) =
        locations.flatMap fun loc => ctx'.shuffleManager.readPartition loc.file := by
      rw [List.flatMap_def, List.flatMap_def, List.map_congr_left hread]
    show readShuffle ctx locations = readShuffle ctx' locations
    unfold readShuffle
    rw [hctx.executorId]
    exact congrArg (ite _ _) (congrArg Except.ok hflat)

/-- A server computes the same for a task. -/
theorem computeTask_eq {jobs : Set String} {ctx ctx' : ExecutorContext}
    (hctx : ctx.AgreeOutside jobs ctx') {plan : PhysicalPlan} (h : plan.ReadsOutside jobs) :
    computeTask ctx plan = computeTask ctx' plan := by
  cases plan with
  | shuffleWriter input writer =>
    have hinput : input.execute ctx = input.execute ctx' :=
      PhysicalPlan.ReadsOutside.execute_eq hctx h
    have hlocations : ∀ buffers, (writer.storePartitions ctx buffers).1 =
        (writer.storePartitions ctx' buffers).1 := by
      intro buffers
      have hlocation : writer.location ctx = writer.location ctx' := by
        funext p
        rw [ShuffleWriter.location, ShuffleWriter.location, hctx.executorId, hctx.executorHost,
          hctx.executorPort]
      rw [ShuffleWriter.storePartitions_locations, ShuffleWriter.storePartitions_locations,
        hlocation]
    simp only [computeTask, hinput, hlocations]
  | _ =>
    simp only [computeTask]
    rw [h.execute_eq hctx]

/-! ## What a job owns -/

section

omit [Readers] [Runtime]

/-- The stage reads no files of these jobs, and its tasks write files of the job `jobUuid`. -/
structure QueryStage.Owned (jobs : Set String) (jobUuid : String) (stage : QueryStage) : Prop where
  reads : stage.plan.ReadsOutside jobs
  writes : stage.isFinalStage = false → ∀ input writer, stage.plan = .shuffleWriter input writer →
    writer.jobUuid = jobUuid

/-- All that is left to do for the job reads no files of these jobs, and writes its own. -/
def JobState.Owned (jobs : Set String) (jobUuid : String) : JobState → Prop
  | .ready stages locationsByStage => (∀ stage ∈ stages, stage.Owned jobs jobUuid) ∧
      ∀ entry ∈ locationsByStage, ∀ loc ∈ entry.2, loc.jobUuid = jobUuid
  | .running stage _ locations stages locationsByStage =>
    stage.Owned jobs jobUuid ∧ stage.isFinalStage = false ∧
      (∀ loc ∈ locations, loc.jobUuid = jobUuid) ∧
      (∀ stage ∈ stages, stage.Owned jobs jobUuid) ∧
      ∀ entry ∈ locationsByStage, ∀ loc ∈ entry.2, loc.jobUuid = jobUuid
  | .writing _ files next => (∀ f ∈ files, f.1.jobUuid = jobUuid) ∧ next.Owned jobs jobUuid
  | .finished _ => True

variable {jobs : Set String} {jobUuid : String}

/-- Reading only the job's own locations is reading no files of the other jobs. -/
theorem PhysicalPlan.readsOutside_atLocations {locations : List ShuffleLocation}
    (hlocations : ∀ loc ∈ locations, loc.jobUuid ∉ jobs) (plan : PhysicalPlan) :
    (plan.atLocations locations).ReadsOutside jobs := by
  intro reader hreader
  rw [shuffleReaders_atLocations] at hreader
  obtain ⟨_, -, rfl⟩ := List.mem_map.mp hreader
  exact hlocations

/-- Injecting locations makes no shuffle writer. -/
theorem PhysicalPlan.shuffleWriter_of_atLocations {locations : List ShuffleLocation}
    {plan input : PhysicalPlan} {writer : ShuffleWriter}
    (h : plan.atLocations locations = .shuffleWriter input writer) :
    ∃ input', plan = .shuffleWriter input' writer := by
  cases plan with
  | shuffleWriter input' writer' =>
    rw [atLocations] at h
    cases h
    exact ⟨input', rfl⟩
  | _ => cases h

end

variable {jobs : Set String} {jobUuid : String}

/-- The stage that is run next is owned as well. -/
theorem Job.owned_nextStage {job : Job} (huuid : jobUuid ∉ jobs) {stage next : QueryStage}
    (hstage : stage.Owned jobs jobUuid) {locationsByStage : List (Int32 × List ShuffleLocation)}
    (hlocations : ∀ entry ∈ locationsByStage, ∀ loc ∈ entry.2, loc.jobUuid = jobUuid)
    (h : job.nextStage stage locationsByStage = .ok next) : next.Owned jobs jobUuid := by
  rw [nextStage] at h
  split at h
  · cases h
  · dsimp only at h
    split at h
    · cases h
      exact hstage
    · rw [DistributedPlanner.updateShuffleLocations, substituteShuffleReader_eq] at h
      cases h
      refine ⟨PhysicalPlan.readsOutside_atLocations (fun loc hloc => ?_) _,
        fun hfinal input writer hplan => ?_⟩
      · obtain ⟨d, -, hfound⟩ := List.mem_flatMap.mp hloc
        cases hlookup : locationsByStage.lookup d with
        | none =>
          rw [hlookup] at hfound
          cases hfound
        | some locations =>
          rw [hlookup] at hfound
          obtain ⟨before, after, rfl, -⟩ := List.lookup_eq_some_iff.mp hlookup
          have hmem : (d, locations) ∈ before ++ (d, locations) :: after := by simp
          exact (hlocations _ hmem loc hfound) ▸ huuid
      · obtain ⟨input', hinput'⟩ := PhysicalPlan.shuffleWriter_of_atLocations hplan
        exact hstage.writes hfinal input' writer hinput'

/-- A task writes and reports files of the job. -/
theorem owned_computeTask {ctx : ExecutorContext} {plan : PhysicalPlan}
    (hplan : ∀ input writer, plan = .shuffleWriter input writer → writer.jobUuid = jobUuid)
    {files : List (PartitionFile × List RecordBatch)} {reported : List ShuffleLocation}
    (h : computeTask ctx plan = .ok (files, reported)) :
    (∀ f ∈ files, f.1.jobUuid = jobUuid) ∧ ∀ loc ∈ reported, loc.jobUuid = jobUuid := by
  cases plan with
  | shuffleWriter input writer =>
    have huuid := hplan input writer rfl
    obtain ⟨schema, -, h⟩ := Outcome.bind_eq_ok_iff.mp h
    obtain ⟨stream, -, h⟩ := Outcome.bind_eq_ok_iff.mp h
    obtain ⟨buffers, -, h⟩ := Outcome.bind_pure_eq_ok_iff.mp h
    obtain ⟨rfl, rfl⟩ := Prod.mk.inj h
    refine ⟨fun f hf => ?_, fun loc hloc => ?_⟩
    · obtain ⟨x, -, rfl⟩ := List.mem_map.mp hf
      exact huuid
    · rw [ShuffleWriter.storePartitions_locations] at hloc
      obtain ⟨x, -, rfl⟩ := List.mem_map.mp hloc
      exact huuid
  | _ =>
    obtain ⟨stream, -, h⟩ := Outcome.bind_eq_ok_iff.mp h
    obtain ⟨batches, -, h⟩ := Outcome.bind_pure_eq_ok_iff.mp h
    obtain ⟨rfl, rfl⟩ := Prod.mk.inj h
    exact ⟨fun f hf => absurd hf List.not_mem_nil, fun loc hloc => absurd hloc List.not_mem_nil⟩

namespace Job

variable {job : Job}

/-- A step of a job leaves it to read no files of these jobs and to write its own. -/
theorem owned_step (huuid : job.jobUuid ∉ jobs) {state : JobState}
    (h : state.Owned jobs job.jobUuid) (network : Network) :
    (job.step state network).1.Owned jobs job.jobUuid := by
  -- One case for each state; only a stage made ready and a task started have something to show.
  cases state with
  | finished result => trivial
  | writing endpoint files next =>
    cases files with
    | nil => exact h.2
    | cons f files => exact ⟨fun g hg => h.1 g (List.mem_cons_of_mem _ hg), h.2⟩
  | ready stages locationsByStage =>
    cases stages with
    | nil => trivial
    | cons stage stages =>
      rw [step]
      cases hnext : job.nextStage stage locationsByStage with
      | error e => trivial
      | ok next =>
        dsimp only
        by_cases hfinal : next.isFinalStage = true
        · rw [if_pos hfinal]
          trivial
        · rw [if_neg hfinal]
          exact ⟨owned_nextStage huuid (h.1 stage List.mem_cons_self) h.2 hnext, by simpa using hfinal,
            fun loc hloc => absurd hloc List.not_mem_nil,
            fun stage hstage => h.1 stage (List.mem_cons_of_mem _ hstage), h.2⟩
  | running stage partitionIds locations stages locationsByStage =>
    obtain ⟨hstage, hfinal, hlocations, hstages, hbefore⟩ := h
    cases partitionIds with
    | nil =>
      refine ⟨hstages, fun entry hentry => ?_⟩
      rcases List.mem_cons.mp hentry with rfl | hentry
      · exact hlocations
      · exact hbefore entry hentry
    | cons partitionId partitionIds =>
      rw [step]
      cases hstart : job.startTask stage partitionId network with
      | error e => trivial
      | ok started =>
        obtain ⟨endpoint, files, reported⟩ := started
        obtain ⟨executor, -, hstart⟩ := Outcome.bind_eq_ok_iff.mp hstart
        obtain ⟨ctx, -, hstart⟩ := Outcome.bind_eq_ok_iff.mp hstart
        obtain ⟨computed, hcomputed, hstart⟩ := Outcome.bind_pure_eq_ok_iff.mp hstart
        -- The files computed and the locations reported carry the job's own id.
        obtain ⟨rfl, rfl⟩ := Prod.mk.inj hstart
        obtain ⟨hfiles, hreported⟩ := owned_computeTask (hstage.writes hfinal) hcomputed
        refine ⟨hfiles, hstage, hfinal, fun loc hloc => ?_, hstages, hbefore⟩
        exact (List.mem_append.mp hloc).elim (hlocations loc) (hreported loc)

omit [Readers] [Runtime] in
/-- A server is reached in both networks or in none. -/
theorem server_rel {network network' : Network} (h : network.AgreeOutside jobs network')
    (endpoint : Endpoint) : (∃ e, Client.server network endpoint = .error e ∧
        Client.server network' endpoint = .error e) ∨
      ∃ ctx ctx', Client.server network endpoint = .ok ctx ∧
        Client.server network' endpoint = .ok ctx' ∧ ctx.AgreeOutside jobs ctx' := by
  have hrel := h endpoint
  unfold Client.server
  generalize network endpoint = server at hrel ⊢
  generalize network' endpoint = server' at hrel ⊢
  cases hrel with
  | none => exact .inl ⟨_, rfl, rfl⟩
  | some hctx => exact .inr ⟨_, _, rfl, rfl, hctx⟩

/-- A task starts alike where the files outside agree that its plan reads. -/
theorem startTask_eq {network network' : Network} (h : network.AgreeOutside jobs network')
    {stage : QueryStage} (hstage : stage.plan.ReadsOutside jobs) (partitionId : ℕ) :
    job.startTask stage partitionId network = job.startTask stage partitionId network' := by
  rw [startTask, startTask]
  refine congrArg _ (funext fun executor => ?_)
  obtain ⟨e, hserver, hserver'⟩ | ⟨ctx, ctx', hserver, hserver', hctx⟩ :=
    server_rel h executor.endpoint
  · rw [hserver, hserver']
  · rw [hserver, hserver', Outcome.ok_bind, Outcome.ok_bind, computeTask_eq hctx hstage]

/-- The final stage returns the same where the files outside agree. -/
theorem executeFinalStage_eq {network network' : Network} (h : network.AgreeOutside jobs network')
    {stage : QueryStage} (hstage : stage.plan.ReadsOutside jobs) :
    job.scheduler.executeFinalStage job.jobUuid stage network =
      job.scheduler.executeFinalStage job.jobUuid stage network' := by
  rw [Scheduler.executeFinalStage, Scheduler.executeFinalStage]
  cases job.scheduler.config.executors with
  | nil => rfl
  | cons executor executors =>
    show (Client.server network executor.endpoint >>= _) =
      (Client.server network' executor.endpoint >>= _)
    obtain ⟨e, hserver, hserver'⟩ | ⟨ctx, ctx', hserver, hserver', hctx⟩ :=
      server_rel h executor.endpoint
    · rw [hserver, hserver']
    · rw [hserver, hserver']
      exact hstage.execute_eq hctx

/-- A step of a job does the same in networks that differ in files of other jobs only. -/
theorem step_agree {state : JobState} (hstate : state.Owned jobs job.jobUuid)
    (huuid : job.jobUuid ∉ jobs) {network network' : Network}
    (h : network.AgreeOutside jobs network') :
    (job.step state network).1 = (job.step state network').1 ∧
      (job.step state network).2.AgreeOutside jobs (job.step state network').2 := by
  -- Only a task and the final stage read files, and neither reads one of the other jobs.
  cases state with
  | finished result => exact ⟨rfl, h⟩
  | writing endpoint files next =>
    cases files with
    | nil => exact ⟨rfl, h⟩
    | cons f files => exact ⟨rfl, h.write endpoint f.1 f.2⟩
  | ready stages locationsByStage =>
    cases stages with
    | nil => exact ⟨rfl, h⟩
    | cons stage stages =>
      rw [step, step]
      cases hnext : job.nextStage stage locationsByStage with
      | error e => exact ⟨rfl, h⟩
      | ok next =>
        have howned := owned_nextStage huuid (hstate.1 stage List.mem_cons_self) hstate.2 hnext
        dsimp only
        by_cases hfinal : next.isFinalStage = true
        · rw [if_pos hfinal, if_pos hfinal, executeFinalStage_eq h howned.reads]
          exact ⟨rfl, h⟩
        · rw [if_neg hfinal, if_neg hfinal]
          exact ⟨rfl, h⟩
  | running stage partitionIds locations stages locationsByStage =>
    cases partitionIds with
    | nil => exact ⟨rfl, h⟩
    | cons partitionId partitionIds =>
      -- The task computes the same files over either network.
      rw [step, step, startTask_eq h hstate.1.reads]
      cases job.startTask stage partitionId network' with
      | error e => exact ⟨rfl, h⟩
      | ok started => exact ⟨rfl, h⟩

/-- A step of one of the jobs changes files of that job only. -/
theorem step_agree_left {job : Job} {own : Set String} {state : JobState}
    (hstate : state.Owned own job.jobUuid) (huuid : job.jobUuid ∈ jobs) {network network' : Network}
    (h : network.AgreeOutside jobs network') :
    (job.step state network).2.AgreeOutside jobs network' := by
  cases state with
  | finished result => exact h
  | writing endpoint files next =>
    cases files with
    | nil => exact h
    | cons f files =>
      have hf : f.1.jobUuid = job.jobUuid := hstate.1 f List.mem_cons_self
      exact h.write_left endpoint (hf ▸ huuid) f.2
  | ready stages locationsByStage =>
    cases stages with
    | nil => exact h
    | cons stage stages =>
      rw [step]
      cases job.nextStage stage locationsByStage with
      | error e => exact h
      | ok next =>
        dsimp only
        split
        · exact h
        · exact h
  | running stage partitionIds locations stages locationsByStage =>
    cases partitionIds with
    | nil => exact h
    | cons partitionId partitionIds =>
      rw [step]
      cases job.startTask stage partitionId network with
      | error e => exact h
      | ok started => exact h

/-- The stages of a job read what its plan reads, and write its own files. -/
theorem owned_start (hplan : job.plan.ReadsOutside jobs) :
    job.start.Owned jobs job.jobUuid := by
  refine ⟨fun stage hstage => ?_, fun entry hentry => absurd hentry List.not_mem_nil⟩
  have hstage := List.mem_mergeSort.mp hstage
  generalize hp : job.plan = plan at hplan hstage
  cases plan with
  | hashAggregate input agg mode =>
    rcases List.mem_pair.mp hstage with rfl | rfl
    · refine ⟨hplan, fun _ input' writer hwriter => ?_⟩
      cases hwriter
      rfl
    · refine ⟨fun reader hreader loc hloc => ?_, fun hfinal => by cases hfinal⟩
      obtain rfl := List.mem_singleton.mp hreader
      cases hloc
  | _ =>
    obtain rfl := List.mem_singleton.mp hstage
    exact ⟨hplan, fun hfinal => by cases hfinal⟩

end Job

/-- The UUIDs of the other jobs. -/
def otherUuids {I : Type} (job : I → Job) (i : I) : Set String :=
  {jobUuid | ∃ j, j ≠ i ∧ (job j).jobUuid = jobUuid}

/-- Jobs with UUIDs of their own, which read no files of each other, keep apart. -/
theorem apart_jobs {I : Type} {job : I → Job}
    (huuids : Function.Injective fun i => (job i).jobUuid) :
    Interleaving.Apart (fun i => (job i).step)
      (fun i state => state.Owned (otherUuids job i) (job i).jobUuid)
      (fun i => Network.AgreeOutside (otherUuids job i)) := by
  have hown : ∀ i, (job i).jobUuid ∉ otherUuids job i := by
    rintro i ⟨j, hj, heq⟩
    exact hj (huuids heq)
  refine ⟨fun i state network h => Job.owned_step (hown i) h network,
    fun i state network network' h hsees => Job.step_agree h (hown i) hsees,
    fun i j state network network' hij h hsees => ?_⟩
  have hother : (job j).jobUuid ∈ otherUuids job i := ⟨j, hij.symm, rfl⟩
  exact Job.step_agree_left h hother hsees

/-- Jobs with UUIDs of their own, which read no files of each other, each return what they would
return on their own, whatever turns they take; and they do once they have had enough of them. -/
theorem concurrentJobs_isolated {I : Type} [DecidableEq I] {job : I → Job}
    (huuids : Function.Injective fun i => (job i).jobUuid)
    (hplans : ∀ i j, i ≠ j → (job i).plan.ReadsOutside {(job j).jobUuid}) (network : Network)
    (i : I) :
    (∀ turns result,
      (Interleaving.run (fun i => (job i).step) turns (fun i => (job i).start) network).1 i =
        .finished result → result = (job i).result network) ∧
      ∃ n, ∀ turns : List I, n ≤ turns.count i →
        (Interleaving.run (fun i => (job i).step) turns (fun i => (job i).start) network).1 i =
          .finished ((job i).result network) := by
  have howned : ∀ k, (job k).start.Owned (otherUuids job k) (job k).jobUuid := by
    refine fun k => Job.owned_start fun reader hreader loc hloc => ?_
    rintro ⟨j, hj, heq⟩
    exact hplans k j hj.symm reader hreader loc hloc heq.symm
  have halone : ∀ turns : List I,
      (Interleaving.run (fun i => (job i).step) turns (fun i => (job i).start) network).1 i =
        (Interleaving.alone (job i).step (turns.count i) (job i).start network).1 := fun turns =>
    (apart_jobs huuids).run_eq_alone howned i (.refl network) turns
  obtain ⟨n, hn⟩ := (job i).alone_finishes network
  refine ⟨fun turns result hfinished => ?_, n, fun turns hturns => ?_⟩
  · -- A job that is finished stays finished, and it is finished after `n` more steps.
    rw [halone] at hfinished
    have hlater := hn (turns.count i + n) (Nat.le_add_left _ _)
    have hstopped : ∀ s, (job i).step (.finished result) s = (.finished result, s) := fun _ => rfl
    rw [Interleaving.alone_add, hfinished, Interleaving.alone_stopped hstopped] at hlater
    exact JobState.finished.inj hlater
  · rw [halone, hn _ hturns]

end

section

attribute [local instance] integerFloats insertionOrderRuntime agesDisk

/-- Two jobs that count the ages on one executor. -/
def agesJob (first : Bool) : Job :=
  ⟨⟨[⟨"one", "host", 1⟩], 2⟩, .hashAggregate agesScan agesCount .completeMode,
    if first then "first" else "second"⟩

/-- The two jobs have ids of their own. -/
theorem agesJob_uuids : Function.Injective fun first => (agesJob first).jobUuid := by
  decide

/-- The second of two jobs over the ages returns what it returns alone. -/
theorem concurrentJobs_isolated_ages :
    (∀ turns result,
      (Interleaving.run (fun i => (agesJob i).step) turns (fun i => (agesJob i).start)
        twoServers).1 true = .finished result → result = (agesJob true).result twoServers) ∧
      ∃ n, ∀ turns : List Bool, n ≤ turns.count true →
        (Interleaving.run (fun i => (agesJob i).step) turns (fun i => (agesJob i).start)
          twoServers).1 true = .finished ((agesJob true).result twoServers) := by
  have hplans : ∀ i j, i ≠ j → (agesJob i).plan.ReadsOutside {(agesJob j).jobUuid} :=
    fun i j _ reader hreader => absurd hreader List.not_mem_nil
  exact concurrentJobs_isolated agesJob_uuids hplans twoServers true

end

end RQuery
