import RQuery.Distributed.DistributedPlanner

/-!
# The scheduler

`Scheduler` runs the stages of a job one after the other. A stage that is not the final one is run
as one task for each of its partitions, round-robin on the executors, and all tasks run the plan of
the stage. The locations that the tasks report are injected into the stages that depend on it.
`execute_hashAggregate` is what this comes to for an aggregation: the tasks of the stage that
writes shuffle files, and the final aggregate over the locations that they report.
-/

namespace RQuery

section

variable [FloatModel]

/-- `ExecutorClient`, over the state of the executors. -/
structure ExecutorClient (σ : Type) where
  executeTask : ExecutorConfig → Task → σ → Result (List ShuffleLocation × σ)
  executeFinalTask : ExecutorConfig → Task → σ → Result BatchStream

structure Scheduler (σ : Type) where
  config : DistributedConfig
  planner : DistributedPlanner
  executorClient : ExecutorClient σ

namespace Scheduler

variable {σ : Type} (scheduler : Scheduler σ)

/-- The executor of a partition. -/
def executorOf (partitionId : ℕ) : Result ExecutorConfig :=
  if scheduler.config.executors.length = 0 then .error .divideByZero
  else index scheduler.config.executors (partitionId % scheduler.config.executors.length)

/-- The task of a partition of a stage. -/
def taskOf (jobUuid : String) (stage : QueryStage) (partitionId : ℕ) : Task :=
  ⟨jobUuid, stage.stageId, Int32.ofNat partitionId, Int32.ofNat partitionId, stage.plan⟩

/-- Run the task of a partition on its executor. -/
def executeTaskOf (jobUuid : String) (stage : QueryStage) (partitionId : ℕ) (state : σ) :
    Result (List ShuffleLocation × σ) := do
  let executor ← scheduler.executorOf partitionId
  scheduler.executorClient.executeTask executor (taskOf jobUuid stage partitionId) state

/-- Run the tasks of some partitions of a stage, in this sequence, and collect the locations. -/
def executeTasks (jobUuid : String) (stage : QueryStage) (partitionIds : List ℕ) (state : σ) :
    Result (List ShuffleLocation × σ) :=
  partitionIds.foldlM
    (fun acc partitionId => do
      let (locations, state) ← scheduler.executeTaskOf jobUuid stage partitionId acc.2
      return (acc.1 ++ locations, state))
    ([], state)

/-- `execute_stage`: one task for each partition. -/
def executeStage (jobUuid : String) (stage : QueryStage) (state : σ) :
    Result (List ShuffleLocation × σ) :=
  scheduler.executeTasks jobUuid stage (List.range stage.partitionCount.toInt.toNat) state

/-- `execute_final_stage`: one task on the first executor. -/
def executeFinalStage (jobUuid : String) (stage : QueryStage) (state : σ) : Result BatchStream :=
  match scheduler.config.executors with
  | [] => .error (.other "DistributedConfig has no executors")
  | executor :: _ =>
    scheduler.executorClient.executeFinalTask executor ⟨jobUuid, stage.stageId, 0, 0, stage.plan⟩
      state

/-- Run the stages in order, given the locations that each of the earlier ones has produced. -/
def executeStages (jobUuid : String) : List QueryStage → List (Int32 × List ShuffleLocation) → σ →
    Result BatchStream
  | [], _, _ => .error (.other "Distributed plan had no final stage")
  | stage :: stages, locationsByStage, state => do
    if let some dependency := stage.dependencies.find? fun d => (locationsByStage.lookup d).isNone then
      throw (.other
        s!"Stage {stage.stageId} depends on stage {dependency} which hasn't completed")
    let inputLocations := stage.dependencies.flatMap fun d => (locationsByStage.lookup d).getD []
    let updatedStage ←
      if inputLocations.isEmpty then pure stage
      else scheduler.planner.updateShuffleLocations stage inputLocations
    if updatedStage.isFinalStage then
      scheduler.executeFinalStage jobUuid updatedStage state
    else
      let (locations, state) ← scheduler.executeStage jobUuid updatedStage state
      executeStages jobUuid stages ((updatedStage.stageId, locations) :: locationsByStage) state

/-- `execute`: plan the job and run its stages by their numbers. -/
def execute (plan : PhysicalPlan) (jobUuid : String) (state : σ) : Result BatchStream :=
  scheduler.executeStages jobUuid
    ((scheduler.planner.plan plan jobUuid).mergeSort fun s t => s.stageId ≤ t.stageId) [] state

/-! ## The job of an aggregation -/

variable {scheduler}

/-- The first task, then the others. -/
theorem executeTasks_cons (jobUuid : String) (stage : QueryStage) (partitionId : ℕ)
    (partitionIds : List ℕ) (state : σ) :
    scheduler.executeTasks jobUuid stage (partitionId :: partitionIds) state = (do
      let (locations, state) ← scheduler.executeTaskOf jobUuid stage partitionId state
      let (later, state) ← scheduler.executeTasks jobUuid stage partitionIds state
      return (locations ++ later, state)) := by
  rw [executeTasks, List.foldlM_cons]
  cases scheduler.executeTaskOf jobUuid stage partitionId state with
  | error e => rfl
  | ok written => exact Outcome.foldlM_collect partitionIds written.1 written.2

/-- The writer of an aggregation's groups. -/
def aggregateWriter (scheduler : Scheduler σ) (agg : HashAggregate) (jobUuid : String) :
    ShuffleWriter :=
  ⟨agg.groupExpr, jobUuid, 0, scheduler.planner.config.partitionCount⟩

/-- The stage of an aggregation that writes shuffle files. -/
def aggregateStage (scheduler : Scheduler σ) (input : PhysicalPlan) (agg : HashAggregate)
    (jobUuid : String) : QueryStage where
  stageId := 0
  plan := .shuffleWriter (.hashAggregate input agg .partialMode)
    (scheduler.aggregateWriter agg jobUuid)
  dependencies := []
  partitionCount := scheduler.planner.config.partitionCount
  isFinalStage := false

/-- An aggregation is run as the tasks of its first stage and a final aggregate that reads the
locations that these report. -/
theorem execute_hashAggregate (input : PhysicalPlan) (agg : HashAggregate) (mode : AggregateMode)
    (jobUuid : String) (state : σ) :
    scheduler.execute (.hashAggregate input agg mode) jobUuid state = (do
      let (locations, state) ←
        scheduler.executeStage jobUuid (scheduler.aggregateStage input agg jobUuid) state
      scheduler.executeFinalStage jobUuid
        ⟨1, .hashAggregate (.shuffleReader agg.schema locations) agg .finalMode, [0], 1, true⟩
        state) := by
  have hstages : (scheduler.planner.plan (.hashAggregate input agg mode) jobUuid).mergeSort
      (fun s t => s.stageId ≤ t.stageId) =
        [scheduler.aggregateStage input agg jobUuid,
          ⟨1, .hashAggregate (.shuffleReader agg.schema []) agg .finalMode, [0], 1, true⟩] := by
    refine List.mergeSort_of_pairwise ?_
    simp [DistributedPlanner.plan, DistributedPlanner.planAggregate, QueryStage.new,
      QueryStage.withPartitionCount, QueryStage.withDependencies, QueryStage.asFinalStage]
  have hfinal : ∀ (locations : List ShuffleLocation) (state : σ),
      scheduler.executeStages jobUuid
        [⟨1, .hashAggregate (.shuffleReader agg.schema []) agg .finalMode, [0], 1, true⟩]
        [(0, locations)] state =
      scheduler.executeFinalStage jobUuid
        ⟨1, .hashAggregate (.shuffleReader agg.schema locations) agg .finalMode, [0], 1, true⟩
        state := by
    intro locations state
    have hlocations : ([0] : List Int32).flatMap
        (fun d => ([(0, locations)].lookup d).getD []) = locations := by
      simp
    simp only [executeStages, hlocations]
    by_cases hempty : locations = []
    · subst hempty
      rfl
    · simp only [List.isEmpty_iff, if_neg hempty, DistributedPlanner.updateShuffleLocations,
        substituteShuffleReader_eq]
      rfl
  rw [execute, hstages, executeStages]
  show (scheduler.executeStage jobUuid (scheduler.aggregateStage input agg jobUuid) state >>=
    fun written => scheduler.executeStages jobUuid _ [(0, written.1)] written.2) = _
  simp only [hfinal]

end Scheduler

/-! ## An executor -/

/-- The context of an executor with these shuffle files. -/
def ExecutorConfig.context (executor : ExecutorConfig) (m : ShuffleManager) : ExecutorContext :=
  ⟨executor.id, executor.host, executor.port, m⟩

variable [Readers] [Runtime]

/-- The client of one executor, whose state are its shuffle files. As the Flight server does, it
writes the shuffle of a shuffle writer, drains other plans, and executes the final plan. -/
def executorClient : ExecutorClient ShuffleManager where
  executeTask executor task m :=
    match task.plan with
    | .shuffleWriter input writer =>
      writer.writeShuffle input.schema (input.execute (executor.context m)) (executor.context m)
    | plan => do
      let _ ← collect (← plan.execute (executor.context m))
      return ([], m)
  executeFinalTask executor task m := task.plan.execute (executor.context m)

end

end RQuery
