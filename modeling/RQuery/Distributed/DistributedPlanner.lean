import RQuery.Physical.Plan

/-!
# The distributed planner

`DistributedPlanner` splits an aggregation into a stage that writes shuffle files and a stage that
reads them. Where the files are is known when the first stage is done, and `updateShuffleLocations`
then rebuilds the plan of the second one, operator by operator, through `withNewChildren`. The
rebuilt plan is the old one with its shuffle readers at the new locations
(`updateShuffleLocations_eq`).
-/

namespace RQuery

section

variable [FloatModel]

/-- One executor of the cluster. -/
structure ExecutorConfig where
  id : String
  host : String
  port : Int32
  deriving DecidableEq

/-- The cluster. `defaultPartitions` is positive to override the number of executors. -/
structure DistributedConfig where
  executors : List ExecutorConfig
  defaultPartitions : Int32

def DistributedConfig.partitionCount (config : DistributedConfig) : Int32 :=
  if config.defaultPartitions > 0 then config.defaultPartitions
  else Int32.ofNat config.executors.length

/-- A part of a query that runs without exchanging data. -/
structure QueryStage where
  stageId : Int32
  plan : PhysicalPlan
  dependencies : List Int32
  partitionCount : Int32
  isFinalStage : Bool
  deriving DecidableEq

namespace QueryStage

def new (stageId : Int32) (plan : PhysicalPlan) : QueryStage := ⟨stageId, plan, [], 1, false⟩

def withDependencies (stage : QueryStage) (deps : List Int32) : QueryStage :=
  { stage with dependencies := deps }

def withPartitionCount (stage : QueryStage) (n : Int32) : QueryStage :=
  { stage with partitionCount := n }

def asFinalStage (stage : QueryStage) : QueryStage := { stage with isFinalStage := true }

end QueryStage

/-! ## Children -/

namespace PhysicalPlan

def children : PhysicalPlan → List PhysicalPlan
  | scan _ _ => []
  | projection input _ _ => [input]
  | selection input _ => [input]
  | limit input _ => [input]
  | hashAggregate input _ _ => [input]
  | hashJoin left right _ => [left, right]
  | shuffleReader _ _ => []
  | shuffleWriter input _ => [input]
  | inMemory _ _ => []

/-- The operator on other inputs, of which there must be as many. -/
def withNewChildren (plan : PhysicalPlan) (children : List PhysicalPlan) : Result PhysicalPlan :=
  match plan, children with
  | scan ds columns, [] => .ok (scan ds columns)
  | scan _ _, _ => .error (.other "ScanExec is a leaf and expects no children")
  | projection _ schema expr, [input] => .ok (projection input schema expr)
  | projection _ _ _, _ => .error (.other "ProjectionExec expects exactly 1 child")
  | selection _ expr, [input] => .ok (selection input expr)
  | selection _ _, _ => .error (.other "SelectionExec expects exactly 1 child")
  | limit _ n, [input] => .ok (limit input n)
  | limit _ _, _ => .error (.other "LimitExec expects exactly 1 child")
  | hashAggregate _ agg mode, [input] => .ok (hashAggregate input agg mode)
  | hashAggregate _ _ _, _ => .error (.other "HashAggregateExec expects exactly 1 child")
  | hashJoin _ _ join, [left, right] => .ok (hashJoin left right join)
  | hashJoin _ _ _, _ =>
    .error (.other "HashJoinExec expects exactly 2 children (left, right)")
  | shuffleReader schema locations, [] => .ok (shuffleReader schema locations)
  | shuffleReader _ _, _ => .error (.other "ShuffleReaderExec is a leaf and expects no children")
  | shuffleWriter _ writer, [input] => .ok (shuffleWriter input writer)
  | shuffleWriter _ _, _ => .error (.other "ShuffleWriterExec expects exactly 1 child")
  | inMemory schema batches, [] => .ok (inMemory schema batches)
  | inMemory _ _, _ => .error (.other "InMemoryPlan is a leaf and expects no children")

/-- The children of a plan are smaller. -/
theorem sizeOf_lt_of_mem_children {c plan : PhysicalPlan} (h : c ∈ plan.children) :
    sizeOf c < sizeOf plan := by
  cases plan with
  | scan | shuffleReader | inMemory => exact absurd h List.not_mem_nil
  | projection | selection | limit | hashAggregate | shuffleWriter =>
    obtain rfl := List.mem_singleton.mp h
    simp +arith
  | hashJoin left right join =>
    rcases List.mem_pair.mp h with rfl | rfl
    · simp +arith
    · simp +arith

end PhysicalPlan

/-- `substitute_shuffle_reader`. -/
def substituteShuffleReader (plan : PhysicalPlan) (locations : List ShuffleLocation) :
    Result PhysicalPlan :=
  match plan with
  | .shuffleReader schema _ => .ok (.shuffleReader schema locations)
  | plan => do
    let newChildren ← plan.children.attach.mapM fun c => substituteShuffleReader c.1 locations
    plan.withNewChildren newChildren
termination_by sizeOf plan
decreasing_by exact PhysicalPlan.sizeOf_lt_of_mem_children c.2

/-- The planner. -/
structure DistributedPlanner where
  config : DistributedConfig

namespace DistributedPlanner

/-- `plan_aggregate`: partition by the group keys of partial aggregates, then aggregate these. -/
def planAggregate (planner : DistributedPlanner) (input : PhysicalPlan) (aggregate : HashAggregate)
    (jobUuid : String) : List QueryStage :=
  let partitionCount := planner.config.partitionCount
  let partialAggregate := PhysicalPlan.hashAggregate input aggregate .partialMode
  let shuffleWriter := PhysicalPlan.shuffleWriter partialAggregate
    ⟨aggregate.groupExpr, jobUuid, 0, partitionCount⟩
  let stage0 := (QueryStage.new 0 shuffleWriter).withPartitionCount partitionCount
  let shuffleReader := PhysicalPlan.shuffleReader aggregate.schema []
  let finalAggregate := PhysicalPlan.hashAggregate shuffleReader aggregate .finalMode
  let stage1 := ((QueryStage.new 1 finalAggregate).withDependencies [0]).asFinalStage
  [stage0, stage1]

/-- `DistributedPlanner::plan`: only an aggregation at the root is split. -/
def plan (planner : DistributedPlanner) (plan : PhysicalPlan) (jobUuid : String) :
    List QueryStage :=
  match plan with
  | .hashAggregate input aggregate _ => planner.planAggregate input aggregate jobUuid
  | plan => [(QueryStage.new 0 plan).asFinalStage]

/-- `update_shuffle_locations`. -/
def updateShuffleLocations (_planner : DistributedPlanner) (stage : QueryStage)
    (locations : List ShuffleLocation) : Result QueryStage := do
  return { stage with plan := ← substituteShuffleReader stage.plan locations }

end DistributedPlanner

/-! ## Injected locations -/

namespace PhysicalPlan

/-- The plan with all its shuffle readers at these locations. -/
def atLocations (locations : List ShuffleLocation) : PhysicalPlan → PhysicalPlan
  | scan ds columns => scan ds columns
  | projection input schema expr => projection (input.atLocations locations) schema expr
  | selection input expr => selection (input.atLocations locations) expr
  | limit input n => limit (input.atLocations locations) n
  | hashAggregate input agg mode => hashAggregate (input.atLocations locations) agg mode
  | hashJoin left right join =>
    hashJoin (left.atLocations locations) (right.atLocations locations) join
  | shuffleReader schema _ => shuffleReader schema locations
  | shuffleWriter input writer => shuffleWriter (input.atLocations locations) writer
  | inMemory schema batches => inMemory schema batches

/-- The shuffle readers of the plan, from left to right. -/
def shuffleReaders : PhysicalPlan → List (Schema × List ShuffleLocation)
  | scan _ _ | inMemory _ _ => []
  | projection input _ _ | selection input _ | limit input _ | hashAggregate input _ _
  | shuffleWriter input _ => input.shuffleReaders
  | hashJoin left right _ => left.shuffleReaders ++ right.shuffleReaders
  | shuffleReader schema locations => [(schema, locations)]

variable {plan : PhysicalPlan} {locations : List ShuffleLocation}

/-- The substituted plan has the same readers, at the new locations. -/
theorem shuffleReaders_atLocations :
    (plan.atLocations locations).shuffleReaders =
      plan.shuffleReaders.map fun reader => (reader.1, locations) := by
  induction plan with
  | scan | inMemory | shuffleReader => rfl
  | projection _ _ _ ih | selection _ _ ih | limit _ _ ih | hashAggregate _ _ _ ih
  | shuffleWriter _ _ ih => exact ih
  | hashJoin left right join ihl ihr =>
    rw [atLocations, shuffleReaders, shuffleReaders, List.map_append, ihl, ihr]

/-- A plan that reads no shuffle files stays as it is. -/
theorem atLocations_eq_self (h : plan.shuffleReaders = []) : plan.atLocations locations = plan := by
  induction plan with
  | scan | inMemory => rfl
  | projection _ _ _ ih | selection _ _ ih | limit _ _ ih | hashAggregate _ _ _ ih
  | shuffleWriter _ _ ih => rw [atLocations, ih h]
  | hashJoin left right join ihl ihr =>
    obtain ⟨hl, hr⟩ := List.append_eq_nil_iff.mp h
    rw [atLocations, ihl hl, ihr hr]
  | shuffleReader => cases h

/-- The last locations count. -/
theorem atLocations_atLocations (later : List ShuffleLocation) :
    (plan.atLocations locations).atLocations later = plan.atLocations later := by
  induction plan with
  | scan | inMemory | shuffleReader => rfl
  | projection _ _ _ ih | selection _ _ ih | limit _ _ ih | hashAggregate _ _ _ ih
  | shuffleWriter _ _ ih => rw [atLocations, atLocations, ih, atLocations]
  | hashJoin left right join ihl ihr =>
    rw [atLocations, atLocations, ihl, ihr, atLocations]

end PhysicalPlan

/-- Every node but a reader is rebuilt over its substituted children. -/
theorem substituteShuffleReader_node {plan : PhysicalPlan} {locations : List ShuffleLocation}
    (h : ∀ schema old, plan ≠ .shuffleReader schema old) :
    substituteShuffleReader plan locations =
      plan.children.mapM (fun c => substituteShuffleReader c locations) >>=
        plan.withNewChildren := by
  rw [substituteShuffleReader]
  · simp
  · exact h

/-- Substituting the readers goes through every operator and returns the plan at the locations. -/
theorem substituteShuffleReader_eq (plan : PhysicalPlan) (locations : List ShuffleLocation) :
    substituteShuffleReader plan locations = .ok (plan.atLocations locations) := by
  induction plan with
  | shuffleReader schema old => rw [substituteShuffleReader]; rfl
  | scan ds columns | inMemory schema batches =>
    rw [substituteShuffleReader_node (by simp)]
    rfl
  | projection _ _ _ ih | selection _ _ ih | limit _ _ ih | hashAggregate _ _ _ ih
  | shuffleWriter _ _ ih =>
    rw [substituteShuffleReader_node (by simp)]
    simp only [PhysicalPlan.children, List.mapM_cons, List.mapM_nil, ih, Outcome.ok_bind]
    rfl
  | hashJoin left right join ihl ihr =>
    rw [substituteShuffleReader_node (by simp)]
    simp only [PhysicalPlan.children, List.mapM_cons, List.mapM_nil, ihl, ihr, Outcome.ok_bind]
    rfl

/-- Injecting locations into a stage moves its shuffle readers there and changes nothing else. So
it changes nothing in a plan without readers, and of two injections the last one counts. -/
theorem updateShuffleLocations_eq (planner : DistributedPlanner) (stage : QueryStage)
    (locations : List ShuffleLocation) :
    ∃ updated, planner.updateShuffleLocations stage locations = .ok updated ∧
      updated = { stage with plan := stage.plan.atLocations locations } ∧
      updated.plan.shuffleReaders =
        stage.plan.shuffleReaders.map (fun reader => (reader.1, locations)) ∧
      (stage.plan.shuffleReaders = [] → updated = stage) ∧
      ∀ later, planner.updateShuffleLocations updated later =
        planner.updateShuffleLocations stage later := by
  have hupdate : ∀ (stage : QueryStage) locations, planner.updateShuffleLocations stage locations =
      .ok { stage with plan := stage.plan.atLocations locations } := by
    intro stage locations
    rw [DistributedPlanner.updateShuffleLocations, substituteShuffleReader_eq]
    rfl
  refine ⟨_, hupdate stage locations, rfl, PhysicalPlan.shuffleReaders_atLocations, ?_, ?_⟩
  · intro hnone
    rw [PhysicalPlan.atLocations_eq_self hnone]
  · intro later
    rw [hupdate, hupdate]
    dsimp only
    rw [PhysicalPlan.atLocations_atLocations]

end

end RQuery
