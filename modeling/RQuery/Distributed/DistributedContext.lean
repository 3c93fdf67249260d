import RQuery.Distributed.Flight

/-!
# The distributed context

`DistributedContext` has the interface of `ExecutionContext`, and runs plans through a scheduler. The
planner of the statements puts a projection on top of every aggregation, and the distributed planner
splits aggregations at the root only. So every statement is run as one task on the first executor,
whatever the cluster is (`DistributedContext.sql_eq`), and its rows are those of the single-node
context, also when the cluster is reached through Flight (`DistributedContext.sql_flight`).
-/

namespace RQuery

section

variable [FloatModel] [Readers]

/-! ## Roots of plans -/

def LogicalPlan.isAggregate : LogicalPlan → Bool
  | aggregate _ _ _ => true
  | _ => false

def PhysicalPlan.isAggregate : PhysicalPlan → Bool
  | hashAggregate _ _ _ => true
  | _ => false

/-- The optimizer keeps the operator at the root. -/
theorem pushDown_isAggregate {P P' : LogicalPlan} {names names' : Finset String}
    (h : pushDown P names = .ok (P', names')) : P'.isAggregate = P.isAggregate := by
  cases P <;> (simp only [pushDown] at h; repeat obtain ⟨_, _, h⟩ := Outcome.bind_eq_ok_iff.mp h)
  all_goals cases h; rfl

/-- So does the query planner. -/
theorem createPhysicalPlan_isAggregate {P : LogicalPlan} {plan : PhysicalPlan}
    (h : createPhysicalPlan P = .ok plan) : plan.isAggregate = P.isAggregate := by
  cases P <;> (simp only [createPhysicalPlan] at h
               repeat obtain ⟨_, _, h⟩ := Outcome.bind_eq_ok_iff.mp h)
  all_goals cases h; rfl

/-- A lowered plan reads no shuffle files. -/
theorem createPhysicalPlan_shuffleReaders {P : LogicalPlan} {plan : PhysicalPlan}
    (h : createPhysicalPlan P = .ok plan) : plan.shuffleReaders = [] := by
  -- The planner builds no shuffle reader; every operator passes its input's readers on.
  induction P generalizing plan with
  | scan s =>
    cases h
    rfl
  | selection input expr ih | projection input expr ih | aggregate input group aggregates ih
  | limit input n ih =>
    simp only [createPhysicalPlan] at h
    obtain ⟨input', hinput, h⟩ := Outcome.bind_eq_ok_iff.mp h
    repeat obtain ⟨_, _, h⟩ := Outcome.bind_eq_ok_iff.mp h
    cases h
    show input'.shuffleReaders = []
    exact ih hinput
  | join left right joinType on ihl ihr =>
    simp only [createPhysicalPlan] at h
    obtain ⟨left', hleft, h⟩ := Outcome.bind_eq_ok_iff.mp h
    obtain ⟨right', hright, h⟩ := Outcome.bind_eq_ok_iff.mp h
    repeat obtain ⟨_, _, h⟩ := Outcome.bind_eq_ok_iff.mp h
    cases h
    rw [PhysicalPlan.shuffleReaders, ihl hleft, ihr hright]
    rfl

/-- A plan that reads no shuffle files does not depend on its executor. -/
theorem PhysicalPlan.execute_anywhere [Runtime] {plan : PhysicalPlan}
    (h : plan.shuffleReaders = []) (ctx ctx' : ExecutorContext) :
    plan.execute ctx = plan.execute ctx' := by
  induction plan with
  | scan | shuffleWriter | inMemory => rfl
  | projection _ _ _ ih | selection _ _ ih | limit _ _ ih | hashAggregate _ _ _ ih =>
    rw [execute, execute, ih h]
  | hashJoin left right join ihl ihr =>
    obtain ⟨hl, hr⟩ := List.append_eq_nil_iff.mp h
    rw [execute, execute, ihl hl, ihr hr]
  | shuffleReader => cases h

end

section

variable [FloatModel] [Readers] [UnicodeTables] [DateParser]

open SqlPlanner

omit [UnicodeTables] [DateParser] in
/-- A limit puts no aggregation at the root. -/
theorem limited_isAggregate {df : DataFrame} (h : df.logicalPlan.isAggregate = false) (n : Option Int32) :
    (limited df n).logicalPlan.isAggregate = false := by
  cases n with
  | none => exact h
  | some n => rfl

/-- The aggregation of a statement is below a projection. -/
theorem createDataFrame_isAggregate {select : SqlSelect} {tables : Tables} {df : DataFrame}
    (h : createDataFrame select tables = .ok df) : df.logicalPlan.isAggregate = false := by
  -- Both kinds of SELECT end in a projection, under a selection or a limit at most.
  obtain ⟨table, projectionExpr, inSelection, -, -, -, ⟨-, -, h⟩ | ⟨-, h⟩⟩ :=
    createDataFrame_eq_ok_iff.mp h
  · unfold planNonAggregateQuery at h
    split at h
    · cases h
      exact limited_isAggregate rfl _
    · dsimp only at h
      split at h
      all_goals
        repeat obtain ⟨_, _, h⟩ := Outcome.bind_eq_ok_iff.mp h
        cases h
        exact limited_isAggregate rfl _
  · obtain ⟨projection, aggregates, plan, filtered, -, -, hfiltered, rfl⟩ :=
      planAggregateSelect_eq_ok_iff.mp h
    refine limited_isAggregate ?_ _
    unfold havingFilter at hfiltered
    split at hfiltered
    · obtain ⟨having, -, rfl⟩ := Outcome.bind_pure_eq_ok_iff.mp hfiltered
      rfl
    · obtain rfl := Except.ok.inj hfiltered
      rfl

/-! ## The context -/

variable [Runtime] {σ : Type}

/-- A context for distributed queries. -/
structure DistributedContext (σ : Type) where
  tables : Tables
  scheduler : Scheduler σ

namespace DistributedContext

omit [Readers] [UnicodeTables] [DateParser] [Runtime] in
def new (config : DistributedConfig) (executorClient : ExecutorClient σ) : DistributedContext σ :=
  ⟨fun _ => none, ⟨config, ⟨config⟩, executorClient⟩⟩

omit [Readers] [UnicodeTables] [DateParser] [Runtime] in
def register (ctx : DistributedContext σ) (tableName : String) (df : DataFrame) :
    DistributedContext σ :=
  { ctx with tables := fun name => if name = tableName then some df else ctx.tables name }

omit [UnicodeTables] [DateParser] [Runtime] in
/-- Register a CSV file. -/
def registerCsv (ctx : DistributedContext σ) (tableName path : String) (hasHeader : Bool) :
    Result (DistributedContext σ) := do
  let source := CsvDataSource.new path none hasHeader 1024
  return ctx.register tableName ⟨.scan (← Scan.new path (.csv source) [])⟩

omit [UnicodeTables] [DateParser] [Runtime] in
/-- Optimize a plan, lower it and run it as a job. -/
def execute (ctx : DistributedContext σ) (plan : LogicalPlan) (jobUuid : String) (state : σ) :
    Result BatchStream := do
  let physical ← createPhysicalPlan (← optimize plan)
  ctx.scheduler.execute physical jobUuid state

omit [Runtime] in
/-- Plan a `SELECT` and run it as a job. -/
def sql (ctx : DistributedContext σ) (text jobUuid : String) (state : σ) : Result BatchStream := do
  let (select, _) ← parseStatement (← tokenize text)
  let df ← createDataFrame select ctx.tables
  ctx.execute df.logicalPlan jobUuid state

omit [UnicodeTables] [DateParser] [Runtime] [Readers] in
/-- A plan without an aggregation at its root is one task on the first executor. -/
theorem scheduler_execute_one {scheduler : Scheduler σ} {executor : ExecutorConfig}
    (hexecutor : scheduler.config.executors.head? = some executor) {plan : PhysicalPlan}
    (h : plan.isAggregate = false) (jobUuid : String) (state : σ) :
    scheduler.execute plan jobUuid state =
      scheduler.executorClient.executeFinalTask executor ⟨jobUuid, 0, 0, 0, plan⟩ state := by
  have hplan : scheduler.planner.plan plan jobUuid = [(QueryStage.new 0 plan).asFinalStage] := by
    cases plan with
    | hashAggregate => cases h
    | scan | projection | selection | limit | hashJoin | shuffleReader | shuffleWriter
    | inMemory => rfl
  obtain ⟨executors, hexecutors⟩ : ∃ executors, scheduler.config.executors = executor :: executors := by
    obtain ⟨executors, h⟩ := List.head?_eq_some_iff.mp hexecutor
    exact ⟨executors, h⟩
  rw [Scheduler.execute, hplan, List.mergeSort_singleton]
  show scheduler.executeFinalStage jobUuid (QueryStage.new 0 plan).asFinalStage state = _
  rw [Scheduler.executeFinalStage, hexecutors]
  rfl

omit [UnicodeTables] [DateParser] [Runtime] in
/-- A plan without an aggregation at its root is sent as one task. -/
theorem execute_eq {ctx : DistributedContext σ} {executor : ExecutorConfig}
    (hexecutor : ctx.scheduler.config.executors.head? = some executor) {plan : LogicalPlan}
    (h : plan.isAggregate = false) (jobUuid : String) (state : σ) :
    ctx.execute plan jobUuid state = (do
      let physical ← createPhysicalPlan (← optimize plan)
      ctx.scheduler.executorClient.executeFinalTask executor ⟨jobUuid, 0, 0, 0, physical⟩ state) := by
  rw [execute]
  cases hoptimized : optimize plan with
  | error e => rfl
  | ok optimized =>
    rw [Outcome.ok_bind, Outcome.ok_bind]
    cases hphysical : createPhysicalPlan optimized with
    | error e => rfl
    | ok physical =>
      obtain ⟨⟨_, names⟩, hpushed, rfl⟩ := Outcome.bind_pure_eq_ok_iff.mp hoptimized
      exact scheduler_execute_one hexecutor
        ((createPhysicalPlan_isAggregate hphysical).trans ((pushDown_isAggregate hpushed).trans h))
        jobUuid state

omit [Runtime] in
/-- A statement is planned as the single-node context plans it, and is one task on the first
executor: no shuffle files are written. -/
theorem sql_eq {ctx : DistributedContext σ} {executor : ExecutorConfig}
    (hexecutor : ctx.scheduler.config.executors.head? = some executor) (batchSize : ℕ)
    (text jobUuid : String) (state : σ) :
    ctx.sql text jobUuid state = (do
      let df ← (ExecutionContext.mk batchSize ctx.tables).sql text
      let physical ← createPhysicalPlan (← optimize df.logicalPlan)
      ctx.scheduler.executorClient.executeFinalTask executor ⟨jobUuid, 0, 0, 0, physical⟩ state) := by
  rw [sql, ExecutionContext.sql]
  cases tokenize text with
  | error e => rfl
  | ok tokens =>
    rw [Outcome.ok_bind, Outcome.ok_bind]
    cases parseStatement tokens with
    | error e => rfl
    | ok parsed =>
      obtain ⟨select, rest⟩ := parsed
      rw [Outcome.ok_bind, Outcome.ok_bind]
      dsimp only
      cases hdf : createDataFrame select ctx.tables with
      | error e => rfl
      | ok df => exact execute_eq hexecutor (createDataFrame_isAggregate hdf) jobUuid state

variable (ctx : DistributedContext Network) {executor : ExecutorConfig} {network : Network}

/-- With executors that are called directly, a statement yields what it yields on one node. -/
theorem sql_direct (hdirect : ctx.scheduler.executorClient = directClient)
    (hexecutor : ctx.scheduler.config.executors.head? = some executor)
    (hreachable : (network executor.endpoint).isSome) (batchSize : ℕ) (node : ExecutorContext)
    (text jobUuid : String) :
    ctx.sql text jobUuid network = (do
      let df ← (ExecutionContext.mk batchSize ctx.tables).sql text
      executePlan node df.logicalPlan) := by
  obtain ⟨server, hserver⟩ := Option.isSome_iff_exists.mp hreachable
  rw [sql_eq hexecutor batchSize, hdirect]
  refine bind_congr fun df => ?_
  rw [executePlan]
  refine bind_congr fun optimized => ?_
  cases hphysical : createPhysicalPlan optimized with
  | error e => rfl
  | ok physical =>
    show (do (physical.execute (← Client.server network executor.endpoint))) = _
    rw [Client.server, hserver]
    exact PhysicalPlan.execute_anywhere (createPhysicalPlan_shuffleReaders hphysical) _ _

variable [Prost pb.TaskInfo] [Prost pb.TaskResult] [Prost pb.Action] [FlightStream]
  {clients : Connections}

/-- Over Flight, a statement yields what it yields on one node, if its plan arrives intact and the
stream does not fail; but a panic on the way is not seen, and only the rows in front of it come. -/
theorem sql_flight (hflight : ctx.scheduler.executorClient = flightClient clients)
    (hclients : FlightExecutorClient.new ctx.scheduler.config.executors network = .ok clients)
    (hids : (ctx.scheduler.config.executors.map ExecutorConfig.id).Nodup)
    (hexecutors : ctx.scheduler.config.executors ≠ []) {batchSize : ℕ} {text : String}
    (hplans : ∀ df optimized physical,
      (ExecutionContext.mk batchSize ctx.tables).sql text = .ok df →
      optimize df.logicalPlan = .ok optimized → createPhysicalPlan optimized = .ok physical →
      physical.ArrivesIntact ∧ physical.Carried)
    (node : ExecutorContext) (jobUuid : String) :
    OverFlight
        (do
          let df ← (ExecutionContext.mk batchSize ctx.tables).sql text
          executePlan node df.logicalPlan)
        (ctx.sql text jobUuid network) ∧
      ∀ rows, (do
          let df ← (ExecutionContext.mk batchSize ctx.tables).sql text
          queryRows node df.logicalPlan) = .ok rows →
        ∀ stream, ctx.sql text jobUuid network = .ok stream → streamRows stream = .ok rows := by
  obtain ⟨executor, executors, hcons⟩ := List.exists_cons_of_ne_nil hexecutors
  have hmem : executor ∈ ctx.scheduler.config.executors := hcons ▸ List.mem_cons_self
  -- The first executor runs the one task, over the client made for its address.
  have hexecutor : ctx.scheduler.config.executors.head? = some executor := by rw [hcons]; rfl
  obtain ⟨server, hserver⟩ := FlightExecutorClient.server_new hclients hmem
  have hover : OverFlight
      (do
        let df ← (ExecutionContext.mk batchSize ctx.tables).sql text
        executePlan node df.logicalPlan)
      (ctx.sql text jobUuid network) := by
    rw [sql_eq hexecutor batchSize, hflight]
    cases hdf : (ExecutionContext.mk batchSize ctx.tables).sql text with
    | error e => exact .error e e
    | ok df =>
      rw [Outcome.ok_bind, Outcome.ok_bind, executePlan]
      cases hoptimized : optimize df.logicalPlan with
      | error e => exact .error e e
      | ok optimized =>
        rw [Outcome.ok_bind, Outcome.ok_bind]
        cases hphysical : createPhysicalPlan optimized with
        | error e => exact .error e e
        | ok physical =>
          obtain ⟨harrives, hcarried⟩ := hplans df optimized physical hdf hoptimized hphysical
          have hfinal := FlightExecutorClient.executeFinalTask_overFlight
            (FlightExecutorClient.clientFor_new hclients hids hmem) (t := ⟨jobUuid, 0, 0, 0, physical⟩)
            harrives (fun info hinfo => (hcarried _ rfl info hinfo).2) network
          have hdirect : directClient.executeFinalTask executor ⟨jobUuid, 0, 0, 0, physical⟩ network =
              physical.execute node := by
            simp only [directClient, hserver, Outcome.ok_bind]
            exact PhysicalPlan.execute_anywhere (createPhysicalPlan_shuffleReaders hphysical) _ _
          rw [hdirect] at hfinal
          exact hfinal
  refine ⟨hover, fun rows hrows stream hstream => hover.complete ?_ hstream⟩
  rw [← hrows, bind_assoc]
  rfl

end DistributedContext

end

section

open SqlPlanner

/-! The ages in `people.csv`, counted by one task of the cluster. -/

attribute [local instance] integerFloats insertionOrderRuntime asciiTables resultBytes wholeBatches
  agesDisk

local instance noDistributedDates : DateParser := ⟨fun _ => none, DateParser.none_range⟩

/-- The scan of `people.csv` as it is registered. -/
def peopleTable : DataFrame :=
  ⟨.scan ⟨"people.csv", .csv (.new "people.csv" none true 1024), [], ⟨[⟨"age", .int32⟩]⟩, rfl⟩⟩

def peopleTables : Tables := fun name => if name = "people" then some peopleTable else none

def peopleStatement : String := "SELECT age, COUNT(age) FROM people GROUP BY age"

/-- The statement, lowered. -/
def peoplePlan : PhysicalPlan :=
  .projection (.hashAggregate (.scan (.csv (.new "people.csv" none true 1024)) ["age"]) agesCount
    .completeMode) agesCount.schema [.column 0, .column 1]

def peopleNode (_ : Option (List ShuffleLocation)) : Option pb.PhysicalPlanNode :=
  (serializePhysicalPlan peoplePlan).toOption

local instance peopleTasks : Prost pb.TaskInfo := taskBytes peopleNode

local instance peopleActions : Prost pb.Action := actionBytes peopleNode

/-- The statement is lowered to the plan. -/
theorem peoplePlan_planned {df : DataFrame} {optimized : LogicalPlan} {physical : PhysicalPlan}
    (hdf : (ExecutionContext.mk 1024 peopleTables).sql peopleStatement = .ok df)
    (hoptimized : optimize df.logicalPlan = .ok optimized)
    (hphysical : createPhysicalPlan optimized = .ok physical) : physical = peoplePlan := by
  have hplanned : (do
      let df ← (ExecutionContext.mk 1024 peopleTables).sql peopleStatement
      createPhysicalPlan (← optimize df.logicalPlan)) = .ok peoplePlan := by decide +kernel
  rw [hdf, Outcome.ok_bind, hoptimized, Outcome.ok_bind, hphysical] at hplanned
  exact Except.ok.inj hplanned

/-- The statement on a single node. -/
def peopleCounted : Result BatchStream := do
  let df ← (ExecutionContext.mk 1024 peopleTables).sql peopleStatement
  executePlan RQueryFlightProducer.singleNode df.logicalPlan

/-- On a single node there is one row for each age. -/
theorem peopleCounted_rows : (do streamRows (← peopleCounted)) =
    .ok [[.int32 30, .int32 1], [.int32 40, .int32 1]] := by
  decide +kernel

def peopleContext (executorClient : ExecutorClient Network) : DistributedContext Network :=
  ⟨peopleTables, ⟨agesCluster, ⟨agesCluster⟩, executorClient⟩⟩

/-- Called directly, the cluster counts the ages as a single node does. -/
theorem sql_direct_people :
    (peopleContext directClient).sql peopleStatement "job" agesNetwork = peopleCounted ∧
      (do streamRows (← peopleCounted)) = .ok [[.int32 30, .int32 1], [.int32 40, .int32 1]] :=
  ⟨DistributedContext.sql_direct (peopleContext directClient) rfl rfl rfl 1024 _ _ _,
    peopleCounted_rows⟩

def peopleFlight : DistributedContext Network :=
  peopleContext (flightClient [("two", ⟨"host", 2⟩), ("one", ⟨"host", 1⟩)])

/-- Over Flight, the counts arrive. -/
theorem sql_flight_people :
    OverFlight peopleCounted (peopleFlight.sql peopleStatement "job" agesNetwork) ∧
      (do streamRows (← peopleFlight.sql peopleStatement "job" agesNetwork)) =
        .ok [[.int32 30, .int32 1], [.int32 40, .int32 1]] := by
  have hconnected : FlightExecutorClient.new agesCluster.executors agesNetwork =
      .ok [("two", ⟨"host", 2⟩), ("one", ⟨"host", 1⟩)] := rfl
  have hcarried : peoplePlan.Carried := carried_of_plans none rfl rfl fun _ _ _ _ => rfl
  have harrives : peoplePlan.ArrivesIntact := by
    refine ⟨⟨⟨⟨by simp, _, rfl, by decide⟩, ?_, ?_, by decide⟩, by decide, ?_⟩,
      ⟨⟨rfl, rfl, rfl⟩, ?_, ?_⟩, ?_⟩
    all_goals simp [agesCount, Expression.Serializable, Expression.WireSafe]
  have hover : OverFlight peopleCounted (peopleFlight.sql peopleStatement "job" agesNetwork) :=
    (DistributedContext.sql_flight peopleFlight rfl hconnected (by decide) (by decide)
      (fun df optimized physical hdf hoptimized hphysical =>
        peoplePlan_planned hdf hoptimized hphysical ▸ ⟨harrives, hcarried⟩)
      RQueryFlightProducer.singleNode "job").1
  exact ⟨hover, hover.arrives (fun batches => ⟨batches, rfl⟩) peopleCounted_rows⟩

end

end RQuery
