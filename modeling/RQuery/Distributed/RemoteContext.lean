import RQuery.Distributed.Flight
import RQuery.Protobuf.SqlPlans

/-!
# The remote context

`client::Context` plans a statement over its CSV tables, and a Flight server runs the plan. What the
message of a plan does not carry decides which statements can be run so: `Context.sql_iff` says that
these are the statements of `SqlSelect.Ships`, and that their result is the one of a single node,
through the stream.
-/

namespace RQuery

open SqlPlanner

section

variable [FloatModel]

/-! ## Plans that can be written -/

/-- An operation that can be sent has an operator with a message, and operands that can be sent. -/
theorem createBinaryExpr_serializes {op : String} {l r e : LogicalExpr}
    (h : createBinaryExpr op l r = .ok e) (hs : Outcome.Succeeds (serializeLogicalExpr e)) :
    op ∈ shippedOperators ∧ Outcome.Succeeds (serializeLogicalExpr l) ∧
      Outcome.Succeeds (serializeLogicalExpr r) := by
  have hbinary : ∀ op, Outcome.Succeeds (serializeLogicalExpr (.binary op l r)) →
      op.wireName.isSome ∧ Outcome.Succeeds (serializeLogicalExpr l) ∧
        Outcome.Succeeds (serializeLogicalExpr r) := by
    rintro op ⟨m, hm⟩
    rw [serializeLogicalExpr] at hm
    split at hm
    case h_1 name hname =>
      obtain ⟨ml, hml, hm⟩ := Outcome.bind_eq_ok_iff.mp hm
      obtain ⟨mr, hmr, -⟩ := Outcome.bind_eq_ok_iff.mp hm
      exact ⟨by rw [hname]; rfl, ⟨ml, hml⟩, mr, hmr⟩
    case h_2 => cases hm
  -- Sums and differences have no name on the wire, nor has date arithmetic.
  have hadditive : ∀ op dateOp, op.wireName = none →
      (∀ l r, ¬ Outcome.Succeeds (serializeLogicalExpr (dateOp l r))) →
      ¬ Outcome.Succeeds (serializeLogicalExpr (additive op dateOp l r)) := by
    intro op dateOp hop hdate hs
    unfold additive at hs
    split at hs
    · exact hdate _ _ hs
    · have hname := (hbinary op hs).1
      rw [hop] at hname
      cases hname
  unfold createBinaryExpr at h
  split at h <;> cases h
  case h_10 => exact absurd hs (hadditive _ _ rfl fun _ _ => Outcome.not_succeeds_error _)
  case h_11 => exact absurd hs (hadditive _ _ rfl fun _ _ => Outcome.not_succeeds_error _)
  all_goals
    obtain ⟨hname, hl, hr⟩ := hbinary _ hs
    first
      | exact ⟨by decide, hl, hr⟩
      | cases hname

variable [UnicodeTables] [DateParser]

/-- Only the expressions that come back can be written. -/
theorem createLogicalExpr_serializes : ∀ {e : SqlExpr} {logical : LogicalExpr},
    createLogicalExpr e = .ok logical → Outcome.Succeeds (serializeLogicalExpr logical) → e.ships
  | .identifier _, _, _, _ | .string _, _, _, _ | .long _, _, _, _ | .double _, _, _, _
  | .date _, _, _, _ => rfl
  | .interval v, logical, h, hs => by
    rw [createLogicalExpr_interval, parseInterval] at h
    split at h <;> cases h
    cases hs.choose_spec
  | .binaryExpr l op r, logical, h, hs => by
    rw [createLogicalExpr_binaryExpr] at h
    obtain ⟨l', hl, h⟩ := Outcome.bind_eq_ok_iff.mp h
    obtain ⟨r', hr, h⟩ := Outcome.bind_eq_ok_iff.mp h
    obtain ⟨hop, hl', hr'⟩ := createBinaryExpr_serializes h hs
    rw [SqlExpr.ships, createLogicalExpr_serializes hl hl', createLogicalExpr_serializes hr hr']
    simpa using hop
  | .aliased e name, logical, h, hs => by
    rw [createLogicalExpr_aliased] at h
    obtain ⟨e', -, rfl⟩ := Outcome.bind_pure_eq_ok_iff.mp h
    cases hs.choose_spec
  | .cast e dataType, logical, h, hs => by
    rw [createLogicalExpr_cast] at h
    obtain ⟨e', -, h⟩ := Outcome.bind_eq_ok_iff.mp h
    obtain ⟨t, -, rfl⟩ := Outcome.bind_pure_eq_ok_iff.mp h
    cases hs.choose_spec
  | .function id [], logical, h, _ => by cases h
  | .function id (arg :: args), logical, h, hs => by
    rw [createLogicalExpr_function] at h
    split at h
    · obtain ⟨e, -, rfl⟩ := Outcome.bind_pure_eq_ok_iff.mp h
      cases hs.choose_spec
    · cases h
  | .sort _ _, _, h, _ | .select _, _, h, _ => by cases h

/-- Expressions whose plans can be sent ship. -/
theorem exprs_serialize {es : List SqlExpr} {logical : List LogicalExpr}
    (h : es.mapM createLogicalExpr = .ok logical)
    (hs : ∀ e ∈ logical, Outcome.Succeeds (serializeLogicalExpr e)) : ∀ e ∈ es, e.ships := by
  intro e he
  obtain ⟨e', he', hplanned⟩ := Outcome.mapM_mem_left h he
  exact createLogicalExpr_serializes hplanned (hs e' he')

variable [Readers]

omit [UnicodeTables] [DateParser] in
/-- A projection that can be sent has an input and expressions that can be sent. -/
theorem serializeLogicalPlan_projection {input : LogicalPlan} {es : List LogicalExpr}
    (h : Outcome.Succeeds (serializeLogicalPlan (.projection input es))) :
    Outcome.Succeeds (serializeLogicalPlan input) ∧
      ∀ e ∈ es, Outcome.Succeeds (serializeLogicalExpr e) := by
  obtain ⟨node, hnode⟩ := h
  obtain ⟨inputNode, hinput, hnode⟩ := Outcome.bind_eq_ok_iff.mp hnode
  obtain ⟨nodes, hnodes, -⟩ := Outcome.bind_eq_ok_iff.mp hnode
  exact ⟨⟨inputNode, hinput⟩, Outcome.mapM_succeeds_iff.mp ⟨nodes, hnodes⟩⟩

omit [UnicodeTables] [DateParser] in
/-- A selection that can be sent has an input and a condition that can be sent. -/
theorem serializeLogicalPlan_selection {input : LogicalPlan} {e : LogicalExpr}
    (h : Outcome.Succeeds (serializeLogicalPlan (.selection input e))) :
    Outcome.Succeeds (serializeLogicalPlan input) ∧ Outcome.Succeeds (serializeLogicalExpr e) := by
  obtain ⟨node, hnode⟩ := h
  obtain ⟨inputNode, hinput, hnode⟩ := Outcome.bind_eq_ok_iff.mp hnode
  obtain ⟨exprNode, hexpr, -⟩ := Outcome.bind_eq_ok_iff.mp hnode
  exact ⟨⟨inputNode, hinput⟩, exprNode, hexpr⟩

omit [UnicodeTables] [DateParser] in
/-- Below a limit that can be sent is a plan that can be sent. -/
theorem serializeLogicalPlan_limited {df : DataFrame} {n : Option Int32}
    (h : Outcome.Succeeds (serializeLogicalPlan (limited df n).logicalPlan)) :
    Outcome.Succeeds (serializeLogicalPlan df.logicalPlan) := by
  cases n with
  | none => exact h
  | some n =>
    obtain ⟨node, hnode⟩ := h
    obtain ⟨inputNode, hinput, -⟩ := Outcome.bind_eq_ok_iff.mp hnode
    exact ⟨inputNode, hinput⟩

/-- A query without aggregates whose plan can be sent ships. -/
theorem planNonAggregateQuery_serializes {select : SqlSelect} {table df : DataFrame}
    {projectionExpr : List LogicalExpr} {inSelection inProjection : List String}
    (hprojection : select.projection.mapM createLogicalExpr = .ok projectionExpr)
    (h : planNonAggregateQuery select table projectionExpr inSelection inProjection = .ok df)
    (hs : Outcome.Succeeds (serializeLogicalPlan df.logicalPlan)) : select.Ships := by
  unfold planNonAggregateQuery at h
  -- In each shape of the plan the SELECT list and WHERE are sent with it.
  split at h
  case h_1 hnone =>
    cases h
    have hproject := serializeLogicalPlan_projection (serializeLogicalPlan_limited hs)
    refine ⟨exprs_serialize hprojection hproject.2, fun e he => ?_⟩
    rw [hnone] at he
    cases he
  case h_2 selection hsome =>
    dsimp only at h
    have hselection : ∀ {filter}, createLogicalExpr selection = .ok filter →
        Outcome.Succeeds (serializeLogicalExpr filter) → ∀ e ∈ select.selection, e.ships := by
      intro filter hfilter hs e he
      rw [hsome] at he
      obtain rfl := Option.mem_some_iff.mp he
      exact createLogicalExpr_serializes hfilter hs
    split at h
    · obtain ⟨filter, hfilter, rfl⟩ := Outcome.bind_pure_eq_ok_iff.mp h
      have hfiltered := serializeLogicalPlan_selection (serializeLogicalPlan_limited hs)
      have hproject := serializeLogicalPlan_projection hfiltered.1
      exact ⟨exprs_serialize hprojection hproject.2, hselection hfilter hfiltered.2⟩
    · obtain ⟨filter, hfilter, h⟩ := Outcome.bind_eq_ok_iff.mp h
      obtain ⟨schema, -, h⟩ := Outcome.bind_eq_ok_iff.mp h
      obtain ⟨expr, -, rfl⟩ := Outcome.bind_pure_eq_ok_iff.mp h
      -- The last projection only takes columns away again.
      have houter := serializeLogicalPlan_projection (serializeLogicalPlan_limited hs)
      have hfiltered := serializeLogicalPlan_selection houter.1
      have hproject := serializeLogicalPlan_projection hfiltered.1
      exact ⟨exprs_serialize hprojection fun e he =>
        hproject.2 e (List.mem_append_left _ he), hselection hfilter hfiltered.2⟩

/-- A plan whose positions are its select items cannot be written. -/
theorem planAggregateSelect_not_serialized {select : SqlSelect} {table df : DataFrame}
    {e : LogicalExpr} {es : List LogicalExpr} {inSelection : List String}
    (h : planAggregateSelect select table (e :: es) inSelection = .ok df) :
    ¬ Outcome.Succeeds (serializeLogicalPlan df.logicalPlan) := by
  intro hs
  obtain ⟨projection, aggr, plan, filtered, hsplit, -, hhaving, rfl⟩ :=
    planAggregateSelect_eq_ok_iff.mp h
  have hfiltered := serializeLogicalPlan_limited hs
  have hproject : Outcome.Succeeds
      (serializeLogicalPlan (plan.project projection).logicalPlan) := by
    unfold havingFilter at hhaving
    split at hhaving
    · obtain ⟨having, -, rfl⟩ := Outcome.bind_pure_eq_ok_iff.mp hhaving
      exact (serializeLogicalPlan_selection hfiltered).1
    · cases hhaving
      exact hfiltered
  have hall := (serializeLogicalPlan_projection hproject).2
  unfold splitProjection at hsplit
  split at hsplit
  case h_1 heq => cases heq
  case h_4 => cases hsplit
  all_goals
    obtain ⟨rest, -, hsplit⟩ := Outcome.bind_eq_ok_iff.mp hsplit
    cases hsplit
    cases (hall _ List.mem_cons_self).choose_spec

/-- Exactly the plans that come back as they were can be written. -/
theorem createDataFrame_serializes_iff {select : SqlSelect} {tables : Tables} {df : DataFrame}
    (htables : CsvTables tables) (h : createDataFrame select tables = .ok df) :
    Outcome.Succeeds (serializeLogicalPlan df.logicalPlan) ↔ select.Ships := by
  constructor
  · intro hs
    obtain ⟨table, projectionExpr, inSelection, -, hprojection, -, hplan⟩ :=
      createDataFrame_eq_ok_iff.mp h
    rcases hplan with ⟨-, -, hplan⟩ | ⟨hany, hplan⟩
    · exact planNonAggregateQuery_serializes hprojection hplan hs
    · obtain _ | ⟨e, es⟩ := projectionExpr
      · cases hany
      · exact absurd hs (planAggregateSelect_not_serialized hplan)
  · intro hships
    obtain ⟨node, hnode, -⟩ :=
      LogicalPlan.roundTrips_iff.mpr ((createDataFrame_ships_iff htables h).mpr hships)
    exact ⟨node, hnode⟩

/-! ## Plans that come back -/

omit [UnicodeTables] [DateParser] in
/-- The CSV files are read in batches of this size. -/
def LogicalPlan.ReadsBatchesOf (batchSize : ℕ) : LogicalPlan → Prop
  | scan s => ∀ csv, s.dataSource = .csv csv → csv.batchSize = batchSize
  | projection input _ | selection input _ | aggregate input _ _ | limit input _ =>
    input.ReadsBatchesOf batchSize
  | join left right _ _ => left.ReadsBatchesOf batchSize ∧ right.ReadsBatchesOf batchSize

omit [UnicodeTables] [DateParser] in
/-- A scan that ships is read back as it is, if its batch size is the receiver's. -/
theorem Scan.comesBack {s : Scan} (hships : s.Ships)
    (hbatches : (LogicalPlan.scan s).ReadsBatchesOf 1024) :
    ∃ node, serializeLogicalPlan (.scan s) = .ok node ∧
      deserializeLogicalPlan node = .ok (.scan s) := by
  obtain ⟨path, dataSource, projection, schema, hderived⟩ := s
  cases dataSource with
  | csv csv =>
    have hbatchSize : csv.batchSize = 1024 := hbatches csv rfl
    have hcsv : CsvDataSource.new path none csv.hasHeaders 1024 = csv := hbatchSize ▸ hships
    have hnew : Scan.new path (.csv (.new path none csv.hasHeaders 1024)) projection =
        .ok ⟨path, .csv csv, projection, schema, hderived⟩ :=
      Scan.new_eq_ok_iff.mpr ⟨rfl, congrArg DataSource.csv hcsv.symm, rfl⟩
    exact ⟨_, rfl, Outcome.bind_pure_eq_ok_iff.mpr ⟨_, hnew, rfl⟩⟩
  | parquet parquet =>
    obtain rfl : parquet.filename = path := hships
    have hnew : Scan.new parquet.filename (.parquet parquet) projection =
        .ok ⟨parquet.filename, _, projection, schema, hderived⟩ :=
      Scan.new_eq_ok_iff.mpr ⟨rfl, rfl, rfl⟩
    exact ⟨_, rfl, Outcome.bind_pure_eq_ok_iff.mpr ⟨_, hnew, rfl⟩⟩
  | inMemory source => exact hships.elim

omit [UnicodeTables] [DateParser] in
/-- A plan that can be sent is the same plan where it arrives, if its files are read in batches of
the receiver's size. -/
theorem LogicalPlan.comesBack {plan : LogicalPlan} (hships : plan.Ships)
    (hbatches : plan.ReadsBatchesOf 1024) :
    ∃ node, serializeLogicalPlan plan = .ok node ∧ deserializeLogicalPlan node = .ok plan := by
  -- The wire format loses nothing of a plan that ships but the batch sizes of its scans.
  induction plan with
  | scan s => exact Scan.comesBack hships hbatches
  | projection input expr ih =>
    obtain ⟨inputNode, hinput, hinput'⟩ := ih hships.1 hbatches
    obtain ⟨nodes, hnodes, hnodes'⟩ := LogicalExpr.list_roundTrip_iff.mpr hships.2
    refine ⟨.mk (some inputNode) none none none (some nodes) none none none, ?_, ?_⟩
    · simp [serializeLogicalPlan, hinput, hnodes]
    · simp [deserializeLogicalPlan, hinput', hnodes']
  | selection input expr ih =>
    obtain ⟨inputNode, hinput, hinput'⟩ := ih hships.1 hbatches
    obtain ⟨exprNode, hexpr, hexpr'⟩ := LogicalExpr.roundTrip_iff.mpr hships.2
    refine ⟨.mk (some inputNode) none none (some (some exprNode)) none none none none, ?_, ?_⟩
    · simp [serializeLogicalPlan, hinput, hexpr]
    · simp [deserializeLogicalPlan, hinput', hexpr', expect]
  | aggregate input groupExpr aggregateExpr ih =>
    obtain ⟨inputNode, hinput, hinput'⟩ := ih hships.1 hbatches
    obtain ⟨groups, hgroups, hgroups'⟩ := LogicalExpr.list_roundTrip_iff.mpr hships.2.1
    obtain ⟨aggrs, haggrs, haggrs'⟩ := AggregateExpr.list_roundTrip_iff.mpr hships.2.2
    refine ⟨.mk (some inputNode) none none none none none (some ⟨groups, aggrs⟩) none, ?_, ?_⟩
    · simp [serializeLogicalPlan, hinput, hgroups, haggrs]
    · simp [deserializeLogicalPlan, hinput', hgroups', haggrs']
  | join => exact hships.elim
  | limit input n ih =>
    obtain ⟨inputNode, hinput, hinput'⟩ := ih hships hbatches
    refine ⟨.mk (some inputNode) none none none none (some n.toUInt32) none none, ?_, ?_⟩
    · simp [serializeLogicalPlan, hinput]
    · simp [deserializeLogicalPlan, hinput']

/-- Unary operators on top of a plan. -/
inductive LogicalPlan.Over (base : LogicalPlan) : LogicalPlan → Prop
  | base : Over base base
  | projection {input : LogicalPlan} (expr : List LogicalExpr) (h : Over base input) :
    Over base (.projection input expr)
  | selection {input : LogicalPlan} (expr : LogicalExpr) (h : Over base input) :
    Over base (.selection input expr)
  | aggregate {input : LogicalPlan} (groupExpr : List LogicalExpr)
      (aggregateExpr : List AggregateExpr) (h : Over base input) :
    Over base (.aggregate input groupExpr aggregateExpr)
  | limit {input : LogicalPlan} (n : Int32) (h : Over base input) : Over base (.limit input n)

omit [UnicodeTables] [DateParser] in
/-- A plan over a table reads batches of the table's size. -/
theorem LogicalPlan.Over.readsBatchesOf {base plan : LogicalPlan} (h : base.Over plan) {n : ℕ}
    (hbase : base.ReadsBatchesOf n) : plan.ReadsBatchesOf n := by
  induction h with
  | base => exact hbase
  | projection _ _ ih | selection _ _ ih | aggregate _ _ _ ih | limit _ _ ih => exact ih

omit [UnicodeTables] [DateParser] in
/-- A limit stays over the table. -/
theorem limited_over {base : LogicalPlan} {df : DataFrame} (h : base.Over df.logicalPlan)
    (n : Option Int32) : base.Over (limited df n).logicalPlan := by
  cases n with
  | none => exact h
  | some n => exact h.limit n

/-- A statement is planned on top of its table. -/
theorem createDataFrame_over {select : SqlSelect} {tables : Tables} {df : DataFrame}
    (h : createDataFrame select tables = .ok df) :
    ∃ table, tables select.tableName = some table ∧
      table.logicalPlan.Over df.logicalPlan := by
  obtain ⟨table, projectionExpr, inSelection, htable, -, -, hplan⟩ := createDataFrame_eq_ok_iff.mp h
  refine ⟨table, htable, ?_⟩
  rcases hplan with ⟨-, -, hplan⟩ | ⟨-, hplan⟩
  · unfold planNonAggregateQuery at hplan
    split at hplan
    · cases hplan
      exact limited_over (.projection _ .base) _
    · dsimp only at hplan
      split at hplan
      · obtain ⟨filter, -, rfl⟩ := Outcome.bind_pure_eq_ok_iff.mp hplan
        exact limited_over (.selection _ (.projection _ .base)) _
      · obtain ⟨filter, -, hplan⟩ := Outcome.bind_eq_ok_iff.mp hplan
        obtain ⟨schema, -, hplan⟩ := Outcome.bind_eq_ok_iff.mp hplan
        obtain ⟨expr, -, rfl⟩ := Outcome.bind_pure_eq_ok_iff.mp hplan
        exact limited_over (.projection _ (.selection _ (.projection _ .base))) _
  · obtain ⟨projection, aggr, plan, filtered, -, hquery, hhaving, rfl⟩ :=
      planAggregateSelect_eq_ok_iff.mp hplan
    have hplanned : table.logicalPlan.Over plan.logicalPlan := by
      obtain ⟨input, groups, -, rfl, hinput⟩ := planAggregateQuery_ok hquery
      refine .aggregate _ _ ?_
      split at hinput
      · obtain rfl := hinput
        exact .base
      · obtain ⟨filter, names, -, rfl⟩ := hinput
        exact .selection _ (.projection _ .base)
    refine limited_over ?_ _
    unfold havingFilter at hhaving
    split at hhaving
    · obtain ⟨having, -, rfl⟩ := Outcome.bind_pure_eq_ok_iff.mp hhaving
      exact .selection _ (.projection _ hplanned)
    · cases hhaving
      exact .projection _ hplanned

/-! ## The context -/

variable [Runtime] [Prost pb.Action] [FlightStream]

/-- A context for queries that one server runs. -/
structure Client.Context where
  tables : Tables
  client : Endpoint

namespace Client.Context

omit [UnicodeTables] [DateParser] [Runtime] [Prost pb.Action] [FlightStream] in
def new (endpoint : Endpoint) (network : Network) : Result Context := do
  return ⟨fun _ => none, ← Client.new endpoint network⟩

omit [UnicodeTables] [DateParser] [Runtime] [Prost pb.Action] [FlightStream] in
def register (ctx : Context) (tableName : String) (df : DataFrame) : Context :=
  { ctx with tables := fun name => if name = tableName then some df else ctx.tables name }

omit [UnicodeTables] [DateParser] [Runtime] [Prost pb.Action] [FlightStream] in
/-- Register a CSV file. -/
def registerCsv (ctx : Context) (tableName path : String) (hasHeader : Bool) : Result Context := do
  let source := CsvDataSource.new path none hasHeader 1024
  return ctx.register tableName ⟨.scan (← Scan.new path (.csv source) [])⟩

omit [UnicodeTables] [DateParser] in
/-- Send a plan to the server, and take the batches that arrive. -/
def execute (ctx : Context) (plan : LogicalPlan) (network : Network) :
    Result (List RecordBatch) := do
  let planNode ← serializeLogicalPlan plan
  let action : pb.Action := ⟨some planNode, none, []⟩
  Client.doGet ctx.client (Prost.encode action) network

/-- Plan a `SELECT` and let the server run it. -/
def sql (ctx : Context) (text : String) (network : Network) : Result (List RecordBatch) := do
  let (select, _) ← parseStatement (← tokenize text)
  let df ← createDataFrame select ctx.tables
  ctx.execute df.logicalPlan network

omit [UnicodeTables] [DateParser] [Runtime] [Prost pb.Action] [FlightStream] in
/-- The contexts that are built up from CSV files. -/
inductive OfFiles : Context → Prop
  | new {endpoint : Endpoint} {network : Network} {ctx : Context}
      (hctx : Context.new endpoint network = .ok ctx) : OfFiles ctx
  | registerCsv {ctx ctx' : Context} {tableName path : String} {hasHeader : Bool} (h : OfFiles ctx)
      (hctx : ctx.registerCsv tableName path hasHeader = .ok ctx') : OfFiles ctx'

omit [UnicodeTables] [DateParser] [Runtime] [Prost pb.Action] [FlightStream] in
/-- A context of files has CSV tables. -/
theorem OfFiles.csvTables {ctx : Context} (h : ctx.OfFiles) : CsvTables ctx.tables := by
  induction h with
  | new hctx =>
    obtain ⟨endpoint, -, rfl⟩ := Outcome.bind_pure_eq_ok_iff.mp hctx
    exact .empty
  | registerCsv _ hctx ih =>
    obtain ⟨scan, hscan, rfl⟩ := Outcome.bind_pure_eq_ok_iff.mp hctx
    exact ih.registerCsv hscan

omit [UnicodeTables] [DateParser] [Runtime] [Prost pb.Action] [FlightStream] in
/-- The tables of a context of files have the batch size that a receiver assumes. -/
theorem OfFiles.readsBatchesOf {ctx : Context} (h : ctx.OfFiles) {name : String} {table : DataFrame}
    (htable : ctx.tables name = some table) : table.logicalPlan.ReadsBatchesOf 1024 := by
  induction h with
  | new hctx =>
    obtain ⟨endpoint, -, rfl⟩ := Outcome.bind_pure_eq_ok_iff.mp hctx
    cases htable
  | registerCsv _ hctx ih =>
    obtain ⟨scan, hscan, rfl⟩ := Outcome.bind_pure_eq_ok_iff.mp hctx
    simp only [register] at htable
    split at htable
    · cases htable
      intro csv hcsv
      obtain ⟨-, hsource, -⟩ := Scan.new_eq_ok_iff.mp hscan
      cases hsource.symm.trans hcsv
      rfl
    · exact ih htable

variable {ctx : Context} {network : Network}

omit [UnicodeTables] [DateParser] in
/-- A plan that comes back is run as a single node runs it. -/
theorem execute_eq (hreachable : (network ctx.client).isSome) {plan : LogicalPlan}
    {node : pb.LogicalPlanNode} (hnode : serializeLogicalPlan plan = .ok node)
    (hplan : deserializeLogicalPlan node = .ok plan)
    (hcarried : Prost.Carries (⟨some node, none, []⟩ : pb.Action)) :
    ctx.execute plan network =
      FlightStream.deliver (sentBatches (executePlan RQueryFlightProducer.singleNode plan)) := by
  obtain ⟨server, hserver⟩ := Option.isSome_iff_exists.mp hreachable
  rw [Prost.Carries] at hcarried
  simp only [execute, hnode, Outcome.ok_bind, Client.doGet, Client.server, hserver,
    RQueryFlightProducer.doGet, hcarried, hplan]
  rfl

/-- A server runs exactly the statements whose plans can be sent, as a single node does. -/
theorem sql_iff (hctx : ctx.OfFiles) (hreachable : (network ctx.client).isSome) {text : String}
    (hcarried : ∀ df node, (ExecutionContext.mk 1024 ctx.tables).sql text = .ok df →
      serializeLogicalPlan df.logicalPlan = .ok node →
      Prost.Carries (⟨some node, none, []⟩ : pb.Action))
    (batches : List RecordBatch) :
    ctx.sql text network = .ok batches ↔
      ∃ tokens select rest df, tokenize text = .ok tokens ∧
        parseStatement tokens = .ok (select, rest) ∧
        createDataFrame select ctx.tables = .ok df ∧ select.Ships ∧
        FlightStream.deliver (sentBatches
          (executePlan RQueryFlightProducer.singleNode df.logicalPlan)) = .ok batches := by
  have hrun : ∀ {tokens select rest df}, tokenize text = .ok tokens →
      parseStatement tokens = .ok (select, rest) → createDataFrame select ctx.tables = .ok df →
      select.Ships → ctx.execute df.logicalPlan network = FlightStream.deliver (sentBatches
        (executePlan RQueryFlightProducer.singleNode df.logicalPlan)) := by
    intro tokens select rest df htokens hparse hdf hships
    obtain ⟨table, htable, hover⟩ := createDataFrame_over hdf
    obtain ⟨node, hnode, hplan⟩ := LogicalPlan.comesBack
      ((createDataFrame_ships_iff hctx.csvTables hdf).mpr hships)
      (hover.readsBatchesOf (hctx.readsBatchesOf htable))
    have hsql : (ExecutionContext.mk 1024 ctx.tables).sql text = .ok df := by
      rw [ExecutionContext.sql, htokens, Outcome.ok_bind, hparse, Outcome.ok_bind]
      exact hdf
    exact execute_eq hreachable hnode hplan (hcarried df node hsql hnode)
  constructor
  · intro h
    obtain ⟨tokens, htokens, h⟩ := Outcome.bind_eq_ok_iff.mp h
    obtain ⟨⟨select, rest⟩, hparse, h⟩ := Outcome.bind_eq_ok_iff.mp h
    obtain ⟨df, hdf, h⟩ := Outcome.bind_eq_ok_iff.mp h
    obtain ⟨node, hnode, -⟩ := Outcome.bind_eq_ok_iff.mp h
    have hships := (createDataFrame_serializes_iff hctx.csvTables hdf).mp ⟨node, hnode⟩
    exact ⟨tokens, select, rest, df, htokens, hparse, hdf, hships,
      (hrun htokens hparse hdf hships).symm.trans h⟩
  · rintro ⟨tokens, select, rest, df, htokens, hparse, hdf, hships, h⟩
    rw [sql, htokens, Outcome.ok_bind, hparse, Outcome.ok_bind]
    dsimp only
    rw [hdf, Outcome.ok_bind, hrun htokens hparse hdf hships]
    exact h

end Client.Context

end

section

attribute [local instance] integerFloats insertionOrderRuntime asciiTables oneCsvFile noCsvDates
  wholeBatches

def remoteContext : Client.Context := ⟨csvTables, ⟨"host", 1⟩⟩

/-- The context is one of files. -/
theorem remoteContext_ofFiles : remoteContext.OfFiles := by
  have hnew : Client.Context.new ⟨"host", 1⟩ agesNetwork =
      .ok ⟨fun _ => none, ⟨"host", 1⟩⟩ := rfl
  have hcsv : Client.Context.registerCsv ⟨fun _ => none, ⟨"host", 1⟩⟩ "t" "t.csv" true =
      .ok remoteContext := rfl
  exact (Client.Context.OfFiles.new hnew).registerCsv hcsv

/-- The message of `SELECT a FROM t`. -/
def remoteMessage : Option pb.Action :=
  (do
    let df ← (ExecutionContext.mk 1024 csvTables).sql "SELECT a FROM t"
    serializeLogicalPlan df.logicalPlan).toOption.map fun node => ⟨some node, none, []⟩

local instance remoteActions : Prost pb.Action := ⟨fun _ => [], fun _ => remoteMessage⟩

/-- The condition for a column of a table. -/
theorem sql_iff_column :
    remoteContext.sql "SELECT a FROM t" agesNetwork = .ok [] ↔
      ∃ tokens select rest df, tokenize "SELECT a FROM t" = .ok tokens ∧
        parseStatement tokens = .ok (select, rest) ∧
        createDataFrame select remoteContext.tables = .ok df ∧ select.Ships ∧
        FlightStream.deliver (sentBatches
          (executePlan RQueryFlightProducer.singleNode df.logicalPlan)) = .ok [] := by
  refine Client.Context.sql_iff remoteContext_ofFiles rfl ?_ []
  intro df node hdf hnode
  show remoteMessage = _
  rw [remoteMessage, show (ExecutionContext.mk 1024 csvTables).sql "SELECT a FROM t" = .ok df from hdf,
    Outcome.ok_bind, hnode]
  rfl

end

end RQuery
