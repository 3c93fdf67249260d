import RQuery.Distributed.ClientSimulation
import RQuery.Protobuf.TaskRoundTrip
import RQuery.Protobuf.LogicalPlan
import RQuery.Execution.ExecutionContext
import Mathlib.Logic.Equiv.List

/-!
# The Flight protocol

`RQueryFlightProducer` runs on every executor: `do_action` runs an intermediate task and answers
with its shuffle locations, `do_get` streams the batches of a final task or of a logical plan.
`FlightExecutorClient` is the other side, which the scheduler uses as its `ExecutorClient`.

A panic of `do_action` reaches the client. `do_get` runs the plan on a thread of its own, whose panic
drops the sender of the channel: the stream ends there, and the client takes what it received for the
result (`throughFlight`). `flight_execute` says that apart from this a job that is run through Flight
is the job run by calling the executors directly, when its plans arrive as they were sent.
-/

namespace RQuery

/-! ## Messages -/

/-- `prost::Message::encode_to_vec` and `decode`. -/
class Prost (M : Type) where
  encode : M → List UInt8
  decode : List UInt8 → Option M

/-- The message is decoded as it was encoded. `decode` gives up on messages that are nested too
deep. -/
def Prost.Carries {M : Type} [Prost M] (m : M) : Prop := Prost.decode (Prost.encode m) = some m

namespace pb

structure TaskResult where
  jobUuid : String
  stageId : Int32
  taskId : Int32
  partitionId : Int32
  shuffleLocations : List ShuffleLocation
  deriving DecidableEq

/-- What `do_get` is asked for. -/
structure Action [FloatModel] where
  query : Option LogicalPlanNode
  task : Option TaskInfo
  settings : List (String × String)

end pb

/-- The errors of gRPC that the server answers with. -/
inductive Status
  | invalidArgument (message : String)
  deriving DecidableEq, Repr

/-- `Endpoint`. -/
structure Endpoint where
  host : String
  port : Int32
  deriving DecidableEq

def Endpoint.url (endpoint : Endpoint) : String :=
  s!"http://{endpoint.host}:{endpoint.port}"

/-- `impl From<&ExecutorConfig> for Endpoint`. -/
def ExecutorConfig.endpoint (config : ExecutorConfig) : Endpoint := ⟨config.host, config.port⟩

section

variable [FloatModel]

/-- `FlightDataEncoder` on the one side and `FlightRecordBatchStream` on the other: the rows arrive,
perhaps in smaller batches, or the stream fails. -/
class FlightStream where
  deliver : List RecordBatch → Result (List RecordBatch)
  deliver_rows : ∀ batches out, deliver batches = .ok out → rowsOf out = rowsOf batches

/-- The batches of a stream in front of its first panic. -/
def beforePanic (stream : BatchStream) : List RecordBatch :=
  (stream.takeWhile fun item => item.toOption.isSome).filterMap Except.toOption

/-- Without a panic all batches are in front of it. -/
theorem beforePanic_map_ok (batches : List RecordBatch) :
    beforePanic (batches.map .ok) = batches := by
  induction batches with
  | nil => rfl
  | cons b batches ih => exact congrArg (b :: ·) ih

/-- What the thread that runs a plan sends, until it panics. -/
def sentBatches : Result BatchStream → List RecordBatch
  | .ok stream => beforePanic stream
  | .error _ => []

variable [Readers] [Runtime]

/-! ## The server -/

/-- Run an intermediate task: write the shuffle of a shuffle writer, drain any other plan. -/
def runTask (ctx : ExecutorContext) (task : Task) :
    Result (List ShuffleLocation × ShuffleManager) :=
  match task.plan with
  | .shuffleWriter input writer => writer.writeShuffle input.schema (input.execute ctx) ctx
  | plan => do
    let _ ← collect (← plan.execute ctx)
    return ([], ctx.shuffleManager)

namespace RQueryFlightProducer

/-- `do_action`: the body of the one response. -/
def doAction [Prost pb.TaskInfo] [Prost pb.TaskResult] (ctx : ExecutorContext) (type : String)
    (body : List UInt8) : Result (Except Status (List (List UInt8) × ShuffleManager)) :=
  match type with
  | "execute_task" =>
    match (Prost.decode body : Option pb.TaskInfo) with
    | none => .ok (.error (.invalidArgument "failed to decode TaskInfo"))
    | some taskInfo => do
      let task ← deserializeTask taskInfo
      let (locations, m) ← runTask ctx task
      let taskResult : pb.TaskResult := ⟨task.jobUuid, task.stageId, task.taskId,
        task.partitionId, locations.map ShuffleLocation.toProto⟩
      return .ok ([Prost.encode taskResult], m)
  | other => .ok (.error (.invalidArgument ("Unknown action type: " ++ other)))

/-- The context that `ExecutionContext::execute` makes up for a plan of its own. -/
def singleNode : ExecutorContext := ⟨"single-node", "localhost", 0, .empty⟩

/-- `do_get`: the batches of a final task, or else of a logical plan. -/
def doGet [Prost pb.Action] (ctx : ExecutorContext) (ticket : List UInt8) :
    Result (Except Status (List RecordBatch)) :=
  match (Prost.decode ticket : Option pb.Action) with
  | none => .ok (.error (.invalidArgument "failed to decode Action"))
  | some action =>
    match action.task, action.query with
    | some taskInfo, _ => do
      let task ← deserializeTask taskInfo
      return .ok (sentBatches (task.plan.execute ctx))
    | none, some planNode => do
      let logicalPlan ← deserializeLogicalPlan planNode
      return .ok (sentBatches (executePlan singleNode logicalPlan))
    | none, none => .ok (.error
        (.invalidArgument "Action must have either \x60query\x60 (logical plan) or \x60task\x60 (final task)"))

end RQueryFlightProducer

/-! ## The client -/

/-- The servers that can be reached, with their executor contexts. -/
abbrev Network := Endpoint → Option ExecutorContext

/-- The shuffle files of a server have changed. -/
def Network.store (network : Network) (endpoint : Endpoint) (m : ShuffleManager) : Network :=
  fun e => if e = endpoint then (network e).map fun ctx => { ctx with shuffleManager := m }
    else network e

namespace Client

omit [Readers] [Runtime] in
/-- The server behind an endpoint. -/
def server (network : Network) (endpoint : Endpoint) : Result ExecutorContext :=
  match network endpoint with
  | some ctx => .ok ctx
  | none => .error (.inputOutput endpoint.url)

omit [Readers] [Runtime] in
/-- `Client::new`: connect to an endpoint. -/
def new (endpoint : Endpoint) (network : Network) : Result Endpoint := do
  let _ ← server network endpoint
  return endpoint

/-- `do_action`: the body of the first response. -/
def doAction [Prost pb.TaskInfo] [Prost pb.TaskResult] (endpoint : Endpoint) (type : String)
    (body : List UInt8) (network : Network) : Result (List UInt8 × Network) := do
  let ctx ← server network endpoint
  match ← RQueryFlightProducer.doAction ctx type body with
  | .error _ => throw (.other "do_action failed")
  | .ok (responses, m) =>
    return (← expect responses.head? "do_action response stream was empty",
      network.store endpoint m)

/-- `do_get`: the batches that arrive. -/
def doGet [Prost pb.Action] [FlightStream] (endpoint : Endpoint) (ticket : List UInt8)
    (network : Network) : Result (List RecordBatch) := do
  let ctx ← server network endpoint
  match ← RQueryFlightProducer.doGet ctx ticket with
  | .error _ => throw (.other "do_get failed")
  | .ok batches => FlightStream.deliver batches

end Client

/-- The endpoints that the client is connected to, by the ids of their executors. -/
abbrev Connections := List (String × Endpoint)

namespace FlightExecutorClient

omit [Readers] [Runtime] in
/-- `FlightExecutorClient::new`: connect to all executors. The last one of an id is kept. -/
def new (executors : List ExecutorConfig) (network : Network) : Result Connections :=
  executors.foldlM
    (fun clients executor => do
      return (executor.id, ← Client.new executor.endpoint network) :: clients)
    []

omit [FloatModel] [Readers] [Runtime] in
def clientFor (clients : Connections) (executorId : String) : Result Endpoint :=
  expect (clients.lookup executorId) "FlightExecutorClient: no connection to executor"

/-- `execute_task`: send the task with `do_action`. -/
def executeTask [Prost pb.TaskInfo] [Prost pb.TaskResult] (clients : Connections)
    (executor : ExecutorConfig) (task : Task) (network : Network) :
    Result (List ShuffleLocation × Network) := do
  let taskInfo ← serializeTask task
  let client ← clientFor clients executor.id
  let (response, network) ←
    Client.doAction client "execute_task" (Prost.encode taskInfo) network
  let taskResult : pb.TaskResult ← expect (Prost.decode response) "failed to decode TaskResult"
  return (taskResult.shuffleLocations.map deserializeShuffleLocation, network)

/-- `execute_final_task`: ask for the task with `do_get`, and take what arrives. -/
def executeFinalTask [Prost pb.Action] [FlightStream] (clients : Connections)
    (executor : ExecutorConfig) (task : Task) (network : Network) : Result BatchStream := do
  let taskInfo ← serializeTask task
  let action : pb.Action := ⟨none, some taskInfo, []⟩
  let client ← clientFor clients executor.id
  return (← Client.doGet client (Prost.encode action) network).map .ok

end FlightExecutorClient

variable [Prost pb.TaskInfo] [Prost pb.TaskResult] [Prost pb.Action] [FlightStream]

/-- The client of the scheduler that goes through Flight. -/
def flightClient (clients : Connections) : ExecutorClient Network where
  executeTask := FlightExecutorClient.executeTask clients
  executeFinalTask := FlightExecutorClient.executeFinalTask clients

omit [Prost pb.TaskInfo] [Prost pb.TaskResult] [Prost pb.Action] [FlightStream] in
/-- The client that calls the executors in this process. -/
def directClient : ExecutorClient Network where
  executeTask executor task network := do
    let ctx ← Client.server network executor.endpoint
    let (locations, m) ← runTask ctx task
    return (locations, network.store executor.endpoint m)
  executeFinalTask executor task network := do
    let ctx ← Client.server network executor.endpoint
    task.plan.execute ctx

/-! ## Plans that arrive -/

section

omit [FlightStream] [Prost pb.TaskInfo] [Prost pb.TaskResult] [Prost pb.Action]

omit [Readers] [Runtime] in
/-- The receiver builds the same source: a CSV source has the settings that it assumes. -/
def DataSource.ArrivesIntact : DataSource → Prop
  | csv s => s.hasHeaders = true ∧ s.delimiter = 44 ∧ s.batchSize = 1024
  | _ => True

omit [Runtime] in
/-- The plan can be sent, and is the same plan where it arrives. -/
structure PhysicalPlan.ArrivesIntact (plan : PhysicalPlan) : Prop where
  serializable : plan.Serializable
  everywhere : plan.Everywhere DataSource.ArrivesIntact Expression.WireSafe

omit [Runtime] in
/-- A source that arrives intact has the same schema and the same scans. -/
theorem DataSource.Shipped.same {ds ds' : DataSource} (h : Shipped ds ds') (hds : ds.ArrivesIntact) :
    ds'.schema = ds.schema ∧ ∀ columns, ds'.scan columns = ds.scan columns := by
  cases h with
  | @csv source schema hschema =>
    obtain ⟨filename, schema?, hasHeaders, batchSize, delimiter⟩ := source
    obtain ⟨rfl, rfl, rfl⟩ := hds
    refine ⟨hschema.symm, fun columns => ?_⟩
    show CsvDataSource.scan _ columns = CsvDataSource.scan _ columns
    unfold CsvDataSource.scan
    rw [hschema]
    rfl
  | parquet source => exact ⟨rfl, fun _ => rfl⟩

omit [Readers] [Runtime] in
/-- Expressions that are safe on the wire arrive as they are. -/
theorem eq_of_shipped {es es' : List Expression} (h : List.Forall₂ (fun e e' => e' = e.shipped) es es')
    (hes : ∀ e ∈ es, e.WireSafe) : es' = es := by
  induction h with
  | nil => rfl
  | @cons e e' es es' he _ ih =>
    rw [he, ← Expression.eq_shipped_iff.mpr (hes e List.mem_cons_self),
      ih fun e he => hes e (List.mem_cons_of_mem _ he)]

omit [Readers] [Runtime] in
/-- So do aggregates of such expressions. -/
theorem eq_of_shippedAggregates {as as' : List AggregateExpression}
    (h : List.Forall₂ (fun a a' : AggregateExpression => a.function = a'.function ∧
      a'.inputExpression = a.inputExpression.shipped) as as')
    (has : ∀ a ∈ as, a.inputExpression.WireSafe) : as' = as := by
  induction h with
  | nil => rfl
  | @cons a a' as as' ha _ ih =>
    obtain ⟨function, e⟩ := a
    obtain ⟨function', e'⟩ := a'
    obtain ⟨rfl, rfl⟩ := ha
    have he : e = e.shipped := Expression.eq_shipped_iff.mpr (has _ List.mem_cons_self)
    rw [ih fun a ha => has a (List.mem_cons_of_mem _ ha), ← he]

/-- The plan that arrives declares the same schema, yields the same batches and writes the same
shuffle. -/
theorem PhysicalPlan.Alike.same {plan plan' : PhysicalPlan}
    (h : plan.Alike DataSource.Shipped (fun e e' => e' = e.shipped) plan')
    (hplan : plan.Everywhere DataSource.ArrivesIntact Expression.WireSafe) :
    plan'.schema = plan.schema ∧ ∀ ctx, plan'.execute ctx = plan.execute ctx := by
  -- On the two plans; expressions that are safe on the wire arrive unchanged.
  induction h with
  | @scan ds ds' columns hsource =>
    obtain ⟨hschema, hscan⟩ := hsource.same hplan
    refine ⟨?_, fun ctx => hscan columns⟩
    show (do (← ds'.schema).select columns) = do (← ds.schema).select columns
    rw [hschema]
  | projection schema hinput hexpr ih =>
    obtain ⟨-, hexecute⟩ := ih hplan.1
    obtain rfl := eq_of_shipped hexpr hplan.2
    exact ⟨rfl, fun ctx => by simp only [execute, hexecute]⟩
  | selection hinput hexpr ih =>
    obtain ⟨hschema, hexecute⟩ := ih hplan.1
    obtain rfl := hexpr.trans (Expression.eq_shipped_iff.mpr hplan.2).symm
    exact ⟨hschema, fun ctx => by simp only [execute, hschema, hexecute]⟩
  | hashAggregate schema mode hinput hgroup haggr ih =>
    obtain ⟨-, hexecute⟩ := ih hplan.1
    obtain rfl := eq_of_shipped hgroup hplan.2.1
    obtain rfl := eq_of_shippedAggregates haggr hplan.2.2
    exact ⟨rfl, fun ctx => by simp only [execute, hexecute]⟩
  | shuffleWriter jobUuid stageId partitionCount hinput hexpr ih =>
    exact ⟨(ih hplan.1).1, fun ctx => rfl⟩
  | shuffleReader schema locations => exact ⟨rfl, fun ctx => rfl⟩

omit [FloatModel] [Readers] [Runtime] in
/-- Locations arrive as they are. -/
theorem map_deserializeShuffleLocation (locations : List ShuffleLocation) :
    (locations.map ShuffleLocation.toProto).map deserializeShuffleLocation = locations := by
  rw [List.map_map]
  exact List.map_id'' (fun l => deserializeShuffleLocation_toProto l) locations

omit [Runtime] in
/-- A task whose plan can be sent can be sent. -/
theorem serializeTask_succeeds {t : Task} (h : t.plan.Serializable) :
    Outcome.Succeeds (serializeTask t) := by
  obtain ⟨node, hnode⟩ := serializePhysicalPlan_succeeds_iff.mpr h
  exact ⟨_, by rw [serializeTask, hnode]; rfl⟩

/-- A task whose plan arrives intact does the same where it arrives. -/
theorem deserialize_serializeTask {t : Task} (h : t.plan.ArrivesIntact) {info : pb.TaskInfo}
    (hinfo : serializeTask t = .ok info) :
    ∃ t', deserializeTask info = .ok t' ∧ (∀ ctx, runTask ctx t' = runTask ctx t) ∧
      ∀ ctx, t'.plan.execute ctx = t.plan.execute ctx := by
  obtain ⟨node, hnode, rfl⟩ := Outcome.bind_pure_eq_ok_iff.mp hinfo
  obtain ⟨plan', hplan', halike⟩ := deserialize_serializePhysicalPlan hnode
  obtain ⟨jobUuid, stageId, taskId, partitionId, plan⟩ := t
  have hsame := halike.same h.everywhere
  refine ⟨⟨jobUuid, stageId, taskId, partitionId, plan'⟩, ?_, fun ctx => ?_, hsame.2⟩
  · rw [deserializeTask, expect, Outcome.ok_bind, hplan']
    rfl
  · cases halike with
    | shuffleWriter jobUuid stageId partitionCount hinput hexpr =>
      obtain ⟨hschema, hexecute⟩ := hinput.same h.everywhere.1
      obtain rfl := eq_of_shipped hexpr h.everywhere.2
      simp only [runTask, hschema, hexecute]
    | scan | projection | selection | hashAggregate | shuffleReader =>
      show (do let _ ← collect (← PhysicalPlan.execute ctx _); return ([], ctx.shuffleManager)) = _
      rw [hsame.2]
      rfl

end

/-! ## Jobs over Flight -/

omit [Readers] [Runtime] [Prost pb.TaskInfo] [Prost pb.TaskResult] [Prost pb.Action] in
/-- What the client gets when the server runs a plan with this result. -/
def throughFlight (x : Result BatchStream) : Result BatchStream := do
  return (← FlightStream.deliver (sentBatches x)).map .ok

omit [Readers] [Runtime] [Prost pb.TaskInfo] [Prost pb.TaskResult] [Prost pb.Action] in
/-- The job ends before its last plan is run, or the result of that plan goes through Flight. -/
inductive OverFlight : Result BatchStream → Result BatchStream → Prop
  | final (x : Result BatchStream) : OverFlight x (throughFlight x)
  | error (e e' : Panic) : OverFlight (.error e) (.error e')

omit [Readers] [Runtime] [Prost pb.TaskInfo] [Prost pb.TaskResult] [Prost pb.Action] in
/-- What is received has the rows that were yielded in front of the first panic. -/
theorem OverFlight.rows {x y : Result BatchStream} (h : OverFlight x y) {stream : BatchStream}
    (hy : y = .ok stream) :
    ∃ received, stream = received.map .ok ∧ rowsOf received = rowsOf (sentBatches x) := by
  cases h with
  | final x =>
    obtain ⟨received, hreceived, rfl⟩ := Outcome.bind_pure_eq_ok_iff.mp hy
    exact ⟨received, rfl, FlightStream.deliver_rows _ _ hreceived⟩
  | error e e' => cases hy

omit [Readers] [Runtime] [Prost pb.TaskInfo] [Prost pb.TaskResult] [Prost pb.Action] in
/-- A result without a panic arrives with its rows, if the stream does not fail. -/
theorem OverFlight.complete {x y : Result BatchStream} (h : OverFlight x y) {rows : List Row}
    (hx : (do streamRows (← x)) = .ok rows) {stream : BatchStream} (hy : y = .ok stream) :
    streamRows stream = .ok rows := by
  obtain ⟨batches, rfl, hrows⟩ := h.rows hy
  obtain ⟨items, rfl, hcollect⟩ := Outcome.bind_eq_ok_iff.mp hx
  obtain ⟨all, hall, rfl⟩ := Outcome.bind_pure_eq_ok_iff.mp hcollect
  obtain rfl := Outcome.mapM_id_eq_ok_iff.mp hall
  rw [streamRows, collect, Outcome.mapM_id_map_ok, Outcome.ok_bind, hrows]
  exact congrArg (fun sent => Except.ok (rowsOf sent)) (beforePanic_map_ok all)

omit [Readers] [Runtime] [Prost pb.TaskInfo] [Prost pb.TaskResult] [Prost pb.Action] in
/-- Over a stream that never fails, a result without a panic does arrive. -/
theorem OverFlight.arrives {x y : Result BatchStream} (h : OverFlight x y)
    (hdeliver : ∀ batches, Outcome.Succeeds (FlightStream.deliver batches)) {rows : List Row}
    (hx : (do streamRows (← x)) = .ok rows) : (do streamRows (← y)) = .ok rows := by
  cases h with
  | final x =>
    obtain ⟨received, hreceived⟩ := hdeliver (sentBatches x)
    have hy : throughFlight x = .ok (received.map .ok) :=
      Outcome.bind_pure_eq_ok_iff.mpr ⟨received, hreceived, rfl⟩
    rw [hy, Outcome.ok_bind]
    exact (OverFlight.final x).complete hx hy
  | error e e' => cases hx

/-- Every task with this plan is decoded as it was encoded. -/
def PhysicalPlan.Carried (plan : PhysicalPlan) : Prop :=
  ∀ t : Task, t.plan = plan → ∀ info, serializeTask t = .ok info →
    Prost.Carries info ∧ Prost.Carries (⟨none, some info, []⟩ : pb.Action)

namespace FlightExecutorClient

omit [Readers] [Runtime] [Prost pb.TaskInfo] [Prost pb.TaskResult] [Prost pb.Action]
  [FlightStream] in
/-- Connecting to executors puts their endpoints in front. -/
theorem foldlM_connect {network : Network} {executors : List ExecutorConfig}
    {connected clients : Connections}
    (h : executors.foldlM
      (fun (clients : Connections) executor => do
        return (executor.id, ← Client.new executor.endpoint network) :: clients) connected =
          .ok clients) :
    clients = (executors.map fun e => (e.id, e.endpoint)).reverse ++ connected ∧
      ∀ e ∈ executors, Outcome.Succeeds (Client.server network e.endpoint) := by
  induction executors generalizing connected with
  | nil =>
    cases h
    exact ⟨rfl, by simp⟩
  | cons executor executors ih =>
    rw [List.foldlM_cons] at h
    obtain ⟨next, hnext, h⟩ := Outcome.bind_eq_ok_iff.mp h
    obtain ⟨endpoint, hclient, rfl⟩ := Outcome.bind_pure_eq_ok_iff.mp hnext
    obtain ⟨ctx, hserver, rfl⟩ := Outcome.bind_pure_eq_ok_iff.mp hclient
    obtain ⟨rfl, hall⟩ := ih h
    refine ⟨?_, List.forall_mem_cons.mpr ⟨⟨ctx, hserver⟩, hall⟩⟩
    rw [List.map_cons, List.reverse_cons, List.append_assoc, List.singleton_append]

omit [Readers] [Runtime] [Prost pb.TaskInfo] [Prost pb.TaskResult] [Prost pb.Action]
  [FlightStream] in
/-- Executors with distinct ids are reached at their own endpoints. -/
theorem clientFor_new {executors : List ExecutorConfig} {network : Network} {clients : Connections}
    (h : new executors network = .ok clients) (hids : (executors.map ExecutorConfig.id).Nodup)
    {executor : ExecutorConfig} (hmem : executor ∈ executors) :
    clientFor clients executor.id = .ok executor.endpoint := by
  obtain ⟨rfl, -⟩ := foldlM_connect h
  suffices hlookup : List.lookup executor.id
      ((executors.map fun e => (e.id, e.endpoint)).reverse ++ []) = some executor.endpoint by
    rw [clientFor, hlookup]
    rfl
  obtain ⟨before, after, rfl⟩ := List.append_of_mem hmem
  rw [List.lookup_eq_some_iff]
  refine ⟨(after.map fun e => (e.id, e.endpoint)).reverse,
    (before.map fun e => (e.id, e.endpoint)).reverse, by simp, ?_⟩
  intro p hp
  obtain ⟨e, he, rfl⟩ := List.mem_map.mp (List.mem_reverse.mp hp)
  rw [List.map_append, List.map_cons] at hids
  have hne : executor.id ≠ e.id := fun heq =>
    (List.nodup_cons.mp (List.nodup_append.mp hids).2.1).1 (heq ▸ List.mem_map_of_mem he)
  exact bne_iff_ne.mpr hne

omit [Readers] [Runtime] [Prost pb.TaskInfo] [Prost pb.TaskResult] [Prost pb.Action]
  [FlightStream] in
/-- The client is connected only to executors that can be reached. -/
theorem server_new {executors : List ExecutorConfig} {network : Network} {clients : Connections}
    (h : new executors network = .ok clients) {executor : ExecutorConfig}
    (hmem : executor ∈ executors) : Outcome.Succeeds (Client.server network executor.endpoint) :=
  (foldlM_connect h).2 executor hmem

variable {clients : Connections} {executor : ExecutorConfig}

omit [Prost pb.Action] [FlightStream] in
/-- An intermediate task over Flight does what it does by a direct call. -/
theorem executeTask_matched (hclient : clientFor clients executor.id = .ok executor.endpoint)
    (hresults : ∀ r : pb.TaskResult, Prost.Carries r) {t : Task} (hplan : t.plan.ArrivesIntact)
    (hcarried : ∀ info, serializeTask t = .ok info → Prost.Carries info) (network : Network) :
    Outcome.Matched (fun x y => x.1 = y.1 ∧ x.2 = y.2)
      (directClient.executeTask executor t network)
      (executeTask clients executor t network) := by
  obtain ⟨info, hinfo⟩ := serializeTask_succeeds hplan.serializable
  obtain ⟨t', ht', hrun, -⟩ := deserialize_serializeTask hplan hinfo
  have hdecoded : Prost.decode (Prost.encode info) = some info := hcarried info hinfo
  simp only [directClient, executeTask, hinfo, hclient, Client.doAction, Outcome.ok_bind]
  cases Client.server network executor.endpoint with
  | error e => exact .error e e
  | ok ctx =>
    simp only [Outcome.ok_bind, RQueryFlightProducer.doAction, hdecoded, ht', hrun]
    cases runTask ctx t with
    | error e => exact .error e e
    | ok written =>
      obtain ⟨locations, m⟩ := written
      have hresult := hresults ⟨t'.jobUuid, t'.stageId, t'.taskId, t'.partitionId,
        locations.map ShuffleLocation.toProto⟩
      rw [Prost.Carries] at hresult
      simp only [Outcome.ok_bind, pure_bind, List.head?_cons, expect, hresult]
      exact .ok ⟨(map_deserializeShuffleLocation locations).symm, rfl⟩

omit [Prost pb.TaskInfo] [Prost pb.TaskResult] in
/-- The result of a final task comes through a stream. -/
theorem executeFinalTask_overFlight
    (hclient : clientFor clients executor.id = .ok executor.endpoint) {t : Task}
    (hplan : t.plan.ArrivesIntact)
    (hcarried : ∀ info, serializeTask t = .ok info →
      Prost.Carries (⟨none, some info, []⟩ : pb.Action)) (network : Network) :
    OverFlight (directClient.executeFinalTask executor t network)
      (executeFinalTask clients executor t network) := by
  obtain ⟨info, hinfo⟩ := serializeTask_succeeds hplan.serializable
  obtain ⟨t', ht', -, hexecute⟩ := deserialize_serializeTask hplan hinfo
  have hdecoded : Prost.decode (Prost.encode (⟨none, some info, []⟩ : pb.Action)) =
      some (⟨none, some info, []⟩ : pb.Action) := hcarried info hinfo
  simp only [directClient, executeFinalTask, hinfo, hclient, Client.doGet, Outcome.ok_bind]
  cases Client.server network executor.endpoint with
  | error e => exact .error e e
  | ok ctx =>
    simp only [Outcome.ok_bind, RQueryFlightProducer.doGet, hdecoded, ht', hexecute]
    exact .final (t.plan.execute ctx)

end FlightExecutorClient

/-- Plans that arrive intact are run over Flight as they are run by a direct call. -/
theorem directClient_simulated {executors : List ExecutorConfig} {network : Network}
    {clients : Connections} (hclients : FlightExecutorClient.new executors network = .ok clients)
    (hids : (executors.map ExecutorConfig.id).Nodup)
    (hresults : ∀ r : pb.TaskResult, Prost.Carries r) :
    directClient.Simulated (flightClient clients) executors
      (fun plan => plan.ArrivesIntact ∧ plan.Carried) Eq OverFlight where
  task executor hexecutor t ht network network' hnetwork := by
    obtain rfl := hnetwork
    have hclient := FlightExecutorClient.clientFor_new hclients hids hexecutor
    exact FlightExecutorClient.executeTask_matched hclient hresults ht.1
      (fun info hinfo => (ht.2 t rfl info hinfo).1) network
  final executor hexecutor t ht network network' hnetwork := by
    obtain rfl := hnetwork
    have hclient := FlightExecutorClient.clientFor_new hclients hids hexecutor
    exact FlightExecutorClient.executeFinalTask_overFlight hclient ht.1
      (fun info hinfo => (ht.2 t rfl info hinfo).2) network
  fails := .error

section

omit [Runtime] [Prost pb.TaskInfo] [Prost pb.TaskResult] [Prost pb.Action] [FlightStream]

omit [Readers] in
/-- Injected locations change no source and no expression. -/
theorem PhysicalPlan.everywhere_atLocations {source : DataSource → Prop} {expr : Expression → Prop}
    {locations : List ShuffleLocation} {plan : PhysicalPlan} :
    (plan.atLocations locations).Everywhere source expr ↔ plan.Everywhere source expr := by
  induction plan with
  | scan | shuffleReader | limit | hashJoin | inMemory => exact Iff.rfl
  | projection _ _ _ ih | selection _ _ ih | hashAggregate _ _ _ ih | shuffleWriter _ _ ih =>
    rw [atLocations, Everywhere, Everywhere, ih]

/-- A plan can be sent with locations exactly if it can without. -/
theorem PhysicalPlan.serializable_atLocations {locations : List ShuffleLocation}
    {plan : PhysicalPlan} : (plan.atLocations locations).Serializable ↔ plan.Serializable := by
  induction plan with
  | scan | shuffleReader | limit | hashJoin | inMemory => exact Iff.rfl
  | projection _ _ _ ih | selection _ _ ih | hashAggregate _ _ _ ih | shuffleWriter _ _ ih =>
    rw [atLocations, Serializable, Serializable, ih]

/-- A plan that arrives intact does so with locations. -/
theorem PhysicalPlan.ArrivesIntact.atLocations {plan : PhysicalPlan} (h : plan.ArrivesIntact)
    (locations : List ShuffleLocation) : (plan.atLocations locations).ArrivesIntact :=
  ⟨serializable_atLocations.mpr h.serializable, everywhere_atLocations.mpr h.everywhere⟩

/-- The stages of a plan that arrives intact do so too. -/
theorem DistributedPlanner.plan_arrivesIntact {planner : DistributedPlanner} {plan : PhysicalPlan}
    (h : plan.ArrivesIntact) {jobUuid : String} {stage : QueryStage}
    (hstage : stage ∈ planner.plan plan jobUuid) : stage.plan.ArrivesIntact := by
  cases plan with
  | hashAggregate input agg mode =>
    obtain ⟨⟨hinput, hgroup, haggregates, hschema⟩, heverywhere⟩ := h
    rcases List.mem_pair.mp hstage with rfl | rfl
    · exact ⟨⟨⟨hinput, hgroup, haggregates, hschema⟩, hgroup⟩, heverywhere, heverywhere.2.1⟩
    · exact ⟨⟨hschema, hgroup, haggregates, hschema⟩, trivial, heverywhere.2⟩
  | scan | projection | selection | limit | hashJoin | shuffleReader | shuffleWriter | inMemory =>
    obtain rfl := List.mem_singleton.mp hstage
    exact h

end

/-- The result of a job over Flight is the result of the job over direct calls, through a stream. -/
theorem execute_overFlight {config : DistributedConfig} {planner : DistributedPlanner}
    {network : Network} {clients : Connections}
    (hclients : FlightExecutorClient.new config.executors network = .ok clients)
    (hids : (config.executors.map ExecutorConfig.id).Nodup)
    (hresults : ∀ r : pb.TaskResult, Prost.Carries r) {plan : PhysicalPlan}
    (hplan : plan.ArrivesIntact) {jobUuid : String}
    (hcarried : ∀ stage ∈ planner.plan plan jobUuid,
      stage.plan.Carried ∧ ∀ locations, (stage.plan.atLocations locations).Carried) :
    OverFlight (Scheduler.execute ⟨config, planner, directClient⟩ plan jobUuid network)
      (Scheduler.execute ⟨config, planner, flightClient clients⟩ plan jobUuid network) := by
  have hsent : ∀ stage ∈ planner.plan plan jobUuid,
      (stage.plan.ArrivesIntact ∧ stage.plan.Carried) ∧ ∀ locations,
        (stage.plan.atLocations locations).ArrivesIntact ∧
          (stage.plan.atLocations locations).Carried := by
    intro stage hstage
    have harrives := DistributedPlanner.plan_arrivesIntact hplan hstage
    obtain ⟨hstageCarried, hinjected⟩ := hcarried stage hstage
    exact ⟨⟨harrives, hstageCarried⟩,
      fun locations => ⟨harrives.atLocations locations, hinjected locations⟩⟩
  exact (⟨config, planner, directClient⟩ : Scheduler Network).execute_simulated
    (directClient_simulated hclients hids hresults) hsent rfl

/-- A job over Flight is the job over direct calls, whose result comes through a stream. So whenever
it returns batches, these have the rows that the job over direct calls yields in front of its first
panic. -/
theorem flight_execute {config : DistributedConfig} {planner : DistributedPlanner}
    {network : Network} {clients : Connections}
    (hclients : FlightExecutorClient.new config.executors network = .ok clients)
    (hids : (config.executors.map ExecutorConfig.id).Nodup)
    (hresults : ∀ r : pb.TaskResult, Prost.Carries r) {plan : PhysicalPlan}
    (hplan : plan.ArrivesIntact) {jobUuid : String}
    (hcarried : ∀ stage ∈ planner.plan plan jobUuid,
      stage.plan.Carried ∧ ∀ locations, (stage.plan.atLocations locations).Carried) :
    OverFlight (Scheduler.execute ⟨config, planner, directClient⟩ plan jobUuid network)
        (Scheduler.execute ⟨config, planner, flightClient clients⟩ plan jobUuid network) ∧
      ∀ stream,
        Scheduler.execute ⟨config, planner, flightClient clients⟩ plan jobUuid network = .ok stream →
        ∃ received, stream = received.map .ok ∧
          rowsOf received =
            rowsOf (sentBatches
              (Scheduler.execute ⟨config, planner, directClient⟩ plan jobUuid network)) := by
  have hover := execute_overFlight hclients hids hresults hplan hcarried
  exact ⟨hover, fun stream hstream => hover.rows hstream⟩

end

section

/-! Bytes for the messages of a job. -/

attribute [local instance] integerFloats

local instance charNumbers : Encodable Char :=
  .ofLeftInjection Char.toNat (fun n => some (Char.ofNat n)) fun c => congrArg some (c.ofNat_toNat)

local instance stringNumbers : Encodable String :=
  .ofLeftInjection String.toList (fun cs => some (String.ofList cs))
    fun _ => congrArg some String.ofList_toList

local instance int32Numbers : Encodable Int32 :=
  .ofLeftInjection Int32.toInt (fun n => some (Int32.ofInt n)) fun n => congrArg some n.ofInt_toInt

local instance locationNumbers : Encodable pb.ShuffleLocation :=
  .ofLeftInjection
    (fun l => (l.jobUuid, l.stageId, l.partitionId, l.executorId, l.executorHost, l.executorPort))
    (fun t => some ⟨t.1, t.2.1, t.2.2.1, t.2.2.2.1, t.2.2.2.2.1, t.2.2.2.2.2⟩) fun _ => rfl

/-- As many bytes as the number of a value. -/
def numberedBytes {α : Type} [Encodable α] (a : α) : List UInt8 :=
  List.replicate (Encodable.encode a) 0

def ofNumberedBytes {α : Type} [Encodable α] (bytes : List UInt8) : Option α :=
  Encodable.decode bytes.length

/-- A value is read back from its number of bytes. -/
theorem ofNumberedBytes_numberedBytes {α : Type} [Encodable α] (a : α) :
    ofNumberedBytes (numberedBytes a) = some a := by
  rw [ofNumberedBytes, numberedBytes, List.length_replicate, Encodable.encodek]

/-- The header of a task, and the locations that a final aggregation reads. -/
abbrev TaskHeader := (String × Int32 × Int32 × Int32) × Option (List pb.ShuffleLocation)

def taskHeader (info : pb.TaskInfo) : TaskHeader :=
  ((info.jobUuid, info.stageId, info.taskId, info.partitionId),
    match info.plan with
    | some (.hashAggregate (some (.shuffleReader _ locations)) _ _ _ _) => some locations
    | _ => none)

/-- The message of a job for a receiver that knows its plans. -/
def taskOfHeader (plans : Option (List ShuffleLocation) → Option pb.PhysicalPlanNode)
    (header : TaskHeader) : Option pb.TaskInfo :=
  (plans (header.2.map (List.map deserializeShuffleLocation))).map fun node =>
    ⟨header.1.1, header.1.2.1, header.1.2.2.1, header.1.2.2.2, some node⟩

@[reducible] def taskBytes
    (plans : Option (List ShuffleLocation) → Option pb.PhysicalPlanNode) : Prost pb.TaskInfo where
  encode info := numberedBytes (taskHeader info)
  decode bytes := (ofNumberedBytes bytes).bind (taskOfHeader plans)

@[reducible] def actionBytes
    (plans : Option (List ShuffleLocation) → Option pb.PhysicalPlanNode) : Prost pb.Action where
  encode action := numberedBytes (action.task.map taskHeader)
  decode bytes := (ofNumberedBytes bytes).bind fun header : Option TaskHeader =>
    (header.bind (taskOfHeader plans)).map fun info => ⟨none, some info, []⟩

local instance resultBytes : Prost pb.TaskResult where
  encode r := numberedBytes (r.jobUuid, r.stageId, r.taskId, r.partitionId, r.shuffleLocations)
  decode bytes := (ofNumberedBytes bytes).map
    fun t : String × Int32 × Int32 × Int32 × List pb.ShuffleLocation =>
      ⟨t.1, t.2.1, t.2.2.1, t.2.2.2.1, t.2.2.2.2⟩

/-- Results of tasks are carried. -/
theorem carries_taskResult (r : pb.TaskResult) : Prost.Carries r := by
  show (ofNumberedBytes (numberedBytes _)).map _ = some r
  rw [ofNumberedBytes_numberedBytes]
  rfl

local instance wholeBatches : FlightStream := ⟨.ok, fun _ _ h => by cases h; rfl⟩

/-- The receiver knows the plan. -/
theorem carried_of_plans [Readers] {plans : Option (List ShuffleLocation) → Option pb.PhysicalPlanNode}
    {plan : PhysicalPlan} {node : pb.PhysicalPlanNode}
    (locations : Option (List ShuffleLocation)) (hnode : serializePhysicalPlan plan = .ok node)
    (hplans : plans locations = some node)
    (hlocations : ∀ id stageId taskId partitionId,
      (taskHeader ⟨id, stageId, taskId, partitionId, some node⟩).2 =
        locations.map (List.map ShuffleLocation.toProto)) :
    @PhysicalPlan.Carried _ _ (taskBytes plans) (actionBytes plans) plan := by
  intro t ht info hinfo
  rw [serializeTask, ht, hnode] at hinfo
  obtain rfl := Except.ok.inj hinfo
  have hheader : taskOfHeader plans
      (taskHeader ⟨t.jobUuid, t.stageId, t.taskId, t.partitionId, some node⟩) =
        some ⟨t.jobUuid, t.stageId, t.taskId, t.partitionId, some node⟩ := by
    rw [taskOfHeader, hlocations, Option.map_map]
    have hsame : List.map deserializeShuffleLocation ∘ List.map ShuffleLocation.toProto = id :=
      funext map_deserializeShuffleLocation
    rw [hsame, Option.map_id, id, hplans]
    rfl
  constructor
  · show (ofNumberedBytes (numberedBytes (taskHeader _))).bind (taskOfHeader plans) = _
    rw [ofNumberedBytes_numberedBytes, Option.bind_some, hheader]
  · show (ofNumberedBytes (numberedBytes (some (taskHeader _)))).bind _ = _
    rw [ofNumberedBytes_numberedBytes, Option.bind_some, Option.bind_some, hheader]
    rfl

end

section

/-! A job that counts the people of each age. -/

attribute [local instance] integerFloats insertionOrderRuntime resultBytes wholeBatches

theorem agesColumns_length : ∀ c ∈ [Int32Array [30, 40]], c.cells.length = 2 := by
  decide

def agesBatch : RecordBatch where
  schema := ⟨[⟨"age", .int32⟩]⟩
  columns := [Int32Array [30, 40]]
  numRows := 2
  types_eq := by decide
  lengths := agesColumns_length

/-- Every CSV file has the ages 30 and 40. -/
local instance agesDisk : Readers where
  csvInfer _ _ _ := .ok ⟨[⟨"age", .int32⟩]⟩
  csvRead _ _ := .ok [.ok agesBatch]
  csvContent format _ := .empty format.schema
  csvContent_schema := emptyCsv_schema
  parquetSchema filename := .error (.inputOutput filename)
  parquetRead filename _ := .error (.inputOutput filename)
  parquetContent _ _ := .empty ⟨[]⟩
  parquetContent_schema := noParquet_schema

def agesScan : PhysicalPlan :=
  .scan (.csv (.new "people.csv" (some ⟨[⟨"age", .int32⟩]⟩) true 1024)) []

def agesCount : HashAggregate :=
  ⟨[.column 0], [CountExpression (.column 0)], ⟨[⟨"age", .int32⟩, ⟨"COUNT", .int32⟩]⟩⟩

def agesCluster : DistributedConfig := ⟨[⟨"one", "host", 1⟩, ⟨"two", "host", 2⟩], 0⟩

def agesNetwork : Network := fun endpoint =>
  if endpoint.host = "host" then some ⟨"executor", endpoint.host, endpoint.port, .empty⟩ else none

/-- The plan of the final task, or the plan of the others. -/
def agesPlan : Option (List ShuffleLocation) → PhysicalPlan
  | some locations =>
    .hashAggregate (.shuffleReader agesCount.schema locations) agesCount .finalMode
  | none => .shuffleWriter (.hashAggregate agesScan agesCount .partialMode)
    ⟨agesCount.groupExpr, "job", 0, 2⟩

def agesNode (locations : Option (List ShuffleLocation)) : Option pb.PhysicalPlanNode :=
  (serializePhysicalPlan (agesPlan locations)).toOption

local instance agesTasks : Prost pb.TaskInfo := taskBytes agesNode

local instance agesActions : Prost pb.Action := actionBytes agesNode

/-- The plans of both stages are carried. -/
theorem agesStages_carried [Readers] :
    ∀ stage ∈ (DistributedPlanner.mk agesCluster).plan
        (.hashAggregate agesScan agesCount .completeMode) "job",
      stage.plan.Carried ∧ ∀ locations, (stage.plan.atLocations locations).Carried := by
  intro stage hstage
  rcases List.mem_pair.mp hstage with rfl | rfl
  · have hwriter : (agesPlan none).Carried := carried_of_plans none rfl rfl fun _ _ _ _ => rfl
    exact ⟨hwriter, fun _ => hwriter⟩
  · have hfinal : ∀ locations, (agesPlan (some locations)).Carried := fun locations =>
      carried_of_plans (some locations) rfl rfl fun _ _ _ _ => rfl
    exact ⟨hfinal [], hfinal⟩

/-- The aggregation arrives intact. -/
theorem agesCount_arrivesIntact [Readers] :
    (PhysicalPlan.hashAggregate agesScan agesCount .completeMode).ArrivesIntact :=
  ⟨⟨⟨by simp, _, rfl, by decide⟩, by simp [agesCount, Expression.Serializable],
    by simp [agesCount, Expression.Serializable], by decide⟩, ⟨rfl, rfl, rfl⟩,
    by simp [agesCount, Expression.WireSafe], by simp [agesCount, Expression.WireSafe]⟩

/-- One executor, which writes two partitions, and the server that it names. -/
def oneExecutor : DistributedConfig := ⟨[⟨"one", "host", 1⟩], 2⟩

def oneServer : Network := fun endpoint =>
  if endpoint = ⟨"host", 1⟩ then some ⟨"one", "host", 1, .empty⟩ else none

/-- The job with a client for the executor. -/
def agesJobBy (executorClient : ExecutorClient Network) : Result BatchStream :=
  Scheduler.execute ⟨oneExecutor, ⟨oneExecutor⟩, executorClient⟩
    (.hashAggregate agesScan agesCount .completeMode) "job" oneServer

def agesClients : Connections := [("one", ⟨"host", 1⟩)]

/-- The job over Flight returns the rows of the job over direct calls. -/
theorem flight_execute_ages :
    (do streamRows (← agesJobBy directClient)) =
        .ok [[.int32 30, .int32 60], [.int32 40, .int32 80]] ∧
      OverFlight (agesJobBy directClient) (agesJobBy (flightClient agesClients)) ∧
      (do streamRows (← agesJobBy (flightClient agesClients))) =
        .ok [[.int32 30, .int32 60], [.int32 40, .int32 80]] := by
  have hdirect : (do streamRows (← agesJobBy directClient)) =
      .ok [[.int32 30, .int32 60], [.int32 40, .int32 80]] := by
    rw [agesJobBy, Scheduler.execute_hashAggregate]
    decide +kernel
  have hconnected : FlightExecutorClient.new oneExecutor.executors oneServer = .ok agesClients := rfl
  have hstages : ∀ stage ∈ (DistributedPlanner.mk oneExecutor).plan
      (.hashAggregate agesScan agesCount .completeMode) "job",
      stage.plan.Carried ∧ ∀ locations, (stage.plan.atLocations locations).Carried :=
    agesStages_carried
  have hover : OverFlight (agesJobBy directClient) (agesJobBy (flightClient agesClients)) :=
    (flight_execute hconnected (by decide) carries_taskResult agesCount_arrivesIntact hstages).1
  exact ⟨hdirect, hover, hover.arrives (fun batches => ⟨batches, rfl⟩) hdirect⟩

end

end RQuery
