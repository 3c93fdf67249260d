import RQuery.Protobuf.Messages
import RQuery.LogicalPlan.Plan

/-!
# Logical plans on the wire

`serialize_logical_plan` and `deserialize_logical_plan`. A plan comes back as it was exactly when
it has no join, its files are read with a comma and a schema of their own, and its expressions are
columns, literals, comparisons and boolean connectives (`LogicalPlan.roundTrips_iff`). The
batch size of a CSV file is not part of the message.
-/

namespace RQuery

namespace pb

inductive JoinType
  | inner
  | left
  | right
  deriving DecidableEq, Repr

namespace JoinType

def all : List JoinType := [inner, left, right]

/-- `as i32`. -/
def number (t : JoinType) : Int32 := Int32.ofNat (all.idxOf t)

end JoinType

end pb

section

variable [FloatModel]

/-! ## Expressions -/

/-- The comparisons and connectives that have a name on the wire. -/
def BinaryOp.wireName : BinaryOp → Option String
  | .eq => some "eq"
  | .neq => some "neq"
  | .lt => some "lt"
  | .ltEq => some "lteq"
  | .gt => some "gt"
  | .gtEq => some "gteq"
  | .and => some "and"
  | .or => some "or"
  | .add | .subtract | .multiply | .divide | .modulus => none

/-- `serialize_logical_expr`. -/
def serializeLogicalExpr : LogicalExpr → Result pb.LogicalExprNode
  | .column name => .ok (.columnName name)
  | .literalString s => .ok (.literalString s)
  | .literalFloat n => .ok (.literalF32 n)
  | .literalDouble n => .ok (.literalF64 n)
  | .literalLong n => .ok (.literalInt64 n)
  | .literalDate d => .ok (.literalDate d.daysSinceUnixEpoch)
  | .binary op l r =>
    match op.wireName with
    | some name => do
      let l ← serializeLogicalExpr l
      return .binaryExpr (some l) (some (← serializeLogicalExpr r)) name
    | none => .error (.unsupported "Cannot serialize logical expression to protobuf")
  | _ => .error (.unsupported "Cannot serialize logical expression to protobuf")

/-- `serialize_logical_aggregate_expr`. -/
def serializeLogicalAggregateExpr (a : AggregateExpr) : Result pb.LogicalExprNode := do
  let fnProto : pb.AggregateFunction :=
    match a.fn with
    | .sum => .sum
    | .min => .min
    | .max => .max
    | .avg => .avg
    | .count => .count
    | .countDistinct => .countDistinct
  return .aggregateExpr fnProto.number (some (← serializeLogicalExpr a.expr))

/-- The operators that a binary node can name. -/
def binaryLogicalExpr (op : String) (l r : LogicalExpr) : Result LogicalExpr :=
  match op with
  | "eq" => .ok (.binary .eq l r)
  | "neq" => .ok (.binary .neq l r)
  | "lt" => .ok (.binary .lt l r)
  | "lteq" => .ok (.binary .ltEq l r)
  | "gt" => .ok (.binary .gt l r)
  | "gteq" => .ok (.binary .gtEq l r)
  | "and" => .ok (.binary .and l r)
  | "or" => .ok (.binary .or l r)
  | "add" => .ok (.binary .add l r)
  | "subtract" => .ok (.binary .subtract l r)
  | "multiply" => .ok (.binary .multiply l r)
  | "divide" => .ok (.binary .divide l r)
  | _ => .error (.unsupported ("Unsupported binary operator: '" ++ op ++ "'"))

/-- `naive_date_from_days`. -/
def naiveDateFromDays (days : Int32) : Result NaiveDate :=
  match NaiveDate.ofDaysSinceUnixEpoch days with
  | some date => .ok date
  | none => .error (.other "`NaiveDate + TimeDelta` overflowed")

/-- `deserialize_logical_expr`. Every integer literal becomes a long. -/
def deserializeLogicalExpr : pb.LogicalExprNode → Result LogicalExpr
  | .columnName name => .ok (.column name)
  | .literalString s => .ok (.literalString s)
  | .literalInt8 n | .literalInt16 n | .literalInt32 n => .ok (.literalLong n.toInt64)
  | .literalInt64 n => .ok (.literalLong n)
  | .literalUint8 n | .literalUint16 n | .literalUint32 n => .ok (.literalLong n.toUInt64.toInt64)
  | .literalUint64 n => .ok (.literalLong n.toInt64)
  | .literalF32 n => .ok (.literalFloat n)
  | .literalF64 n => .ok (.literalDouble n)
  | .literalDate days => do return .literalDate (← naiveDateFromDays days)
  | .aliasNode (some e) name => do return .aliased (← deserializeLogicalExpr e) name
  | .aliasNode none _ => .error (.other "AliasNode.expr unset")
  | .binaryExpr (some l) (some r) op => do
    let l ← deserializeLogicalExpr l
    binaryLogicalExpr op l (← deserializeLogicalExpr r)
  | .binaryExpr (some l) none _ => do
    let _ ← deserializeLogicalExpr l
    throw (.other "BinaryExprNode.r unset")
  | .binaryExpr none _ _ => .error (.other "BinaryExprNode.l unset")
  | .aggregateExpr aggrFunction (some e) => do
    let inner ← deserializeLogicalExpr e
    match pb.AggregateFunction.tryFrom aggrFunction with
    | none => throw (.unsupported "Unknown AggregateFunction enum value")
    | some .min => return .aggregateExpr .min inner
    | some .max => return .aggregateExpr .max inner
    | some .sum => return .aggregateExpr .sum inner
    | some .avg => return .aggregateExpr .avg inner
    | some .count => return .aggregateExpr .count inner
    | some .countDistinct => return .aggregateExpr .countDistinct inner
  | .aggregateExpr _ none => .error (.other "AggregateExprNode.expr unset")
  | .isNullExpr _ => .error (.unsupported "IsNull is not yet implemented in logical-plan")
  | .isNotNullExpr _ => .error (.unsupported "IsNotNull is not yet implemented in logical-plan")
  | .notExpr _ => .error (.unsupported "Not is not yet implemented as a logical expression")
  | .unset =>
    .error (.other "Found null expr enum when deserialising protobuf logical expression")

/-- The expressions that can be written and read back. -/
def LogicalExpr.ships : LogicalExpr → Bool
  | column _ | literalString _ | literalLong _ | literalFloat _ | literalDouble _ => true
  | literalDate d => d.Representable
  | binary op l r => op.wireName.isSome && l.ships && r.ships
  | _ => false

/-! ## Plans -/

omit [FloatModel] in
/-- `join_type_to_proto`. -/
def joinTypeToProto : JoinType → pb.JoinType
  | .inner => .inner
  | .left => .left
  | .right => .right

variable [Readers]

/-- `serialize_logical_plan`. A CSV source sends its header flag, and the path of the scan. -/
def serializeLogicalPlan : LogicalPlan → Result pb.LogicalPlanNode
  | .scan s =>
    match s.dataSource with
    | .csv csv =>
      .ok (.mk none (some ⟨s.path, csv.hasHeaders, some s.projection⟩) none none none none none none)
    | .parquet _ => .ok (.mk none none (some ⟨s.path, some s.projection⟩) none none none none none)
    | .inMemory _ => .error (.unsupported "Unsupported datasource used in scan")
  | .projection input expr => do
    let input ← serializeLogicalPlan input
    let expr ← expr.mapM serializeLogicalExpr
    return .mk (some input) none none none (some expr) none none none
  | .selection input expr => do
    let input ← serializeLogicalPlan input
    let expr ← serializeLogicalExpr expr
    return .mk (some input) none none (some (some expr)) none none none none
  | .limit input n => do
    return .mk (some (← serializeLogicalPlan input)) none none none none (some n.toUInt32) none none
  | .aggregate input groupExpr aggregateExpr => do
    let input ← serializeLogicalPlan input
    let groupExpr ← groupExpr.mapM serializeLogicalExpr
    let aggrExpr ← aggregateExpr.mapM serializeLogicalAggregateExpr
    return .mk (some input) none none none none none (some ⟨groupExpr, aggrExpr⟩) none
  | .join left right joinType on => do
    let left ← serializeLogicalPlan left
    let right ← serializeLogicalPlan right
    return .mk none none none none none none none (some (.mk (some left) (some right)
      (joinTypeToProto joinType).number (on.map Prod.fst) (on.map Prod.snd)))

/-- The aggregate in a node of an `Aggregate`. -/
def deserializeAggregateExpr (node : pb.LogicalExprNode) : Result AggregateExpr := do
  match ← deserializeLogicalExpr node with
  | .aggregateExpr fn e => return ⟨fn, e⟩
  | _ => throw (.other "AggregateNode.aggr_expr did not deserialise to an AggregateExpr")

/-- `deserialize_logical_plan`. A CSV source infers its schema, and joins are not read. -/
def deserializeLogicalPlan : pb.LogicalPlanNode → Result LogicalPlan
  | .mk input csvScan parquetScan selection projection limit aggregate _ =>
    -- `deserialize_plan_input`, which only the branches with an input run
    let planInput : Result LogicalPlan :=
      match input with
      | some inner => deserializeLogicalPlan inner
      | none => .error (.other "LogicalPlanNode.input unset on a non-leaf plan")
    match csvScan, parquetScan, selection, projection, limit, aggregate with
    | some csv, _, _, _, _, _ => do
      let ds := CsvDataSource.new csv.path none csv.hasHeader 1024
      return .scan (← Scan.new csv.path (.csv ds) (csv.projection.getD []))
    | none, some parquet, _, _, _, _ => do
      let ds : ParquetDataSource := ⟨parquet.path⟩
      return .scan (← Scan.new parquet.path (.parquet ds) (parquet.projection.getD []))
    | none, none, some expr, _, _, _ => do
      let input ← planInput
      return .selection input (← deserializeLogicalExpr (← expect expr "SelectionNode.expr unset"))
    | none, none, none, some expr, _, _ => do
      let input ← planInput
      return .projection input (← expr.mapM deserializeLogicalExpr)
    | none, none, none, none, some n, _ => do return .limit (← planInput) n.toInt32
    | none, none, none, none, none, some agg => do
      let input ← planInput
      let groupExpr ← agg.groupExpr.mapM deserializeLogicalExpr
      return .aggregate input groupExpr (← agg.aggrExpr.mapM deserializeAggregateExpr)
    | none, none, none, none, none, none =>
      .error (.other "Failed to parse logical operator: no recognised plan field set")

/-! ## Round trips -/

omit [Readers] in
/-- An expression that ships is read back as it was sent. -/
theorem LogicalExpr.ships_roundTrip {e : LogicalExpr} (h : e.ships) :
    ∃ m, serializeLogicalExpr e = .ok m ∧ deserializeLogicalExpr m = .ok e := by
  induction e with
  | column | literalString | literalLong | literalFloat | literalDouble => exact ⟨_, rfl, rfl⟩
  -- A date is sent as its number of days.
  | literalDate d =>
    refine ⟨_, rfl, ?_⟩
    rw [deserializeLogicalExpr, naiveDateFromDays,
      NaiveDate.ofDays_daysSinceUnixEpoch (of_decide_eq_true h)]
    rfl
  | binary op l r ihl ihr =>
    simp only [ships, Bool.and_eq_true] at h
    obtain ⟨name, hname⟩ := Option.isSome_iff_exists.mp h.1.1
    obtain ⟨ml, hl, hl'⟩ := ihl h.1.2
    obtain ⟨mr, hr, hr'⟩ := ihr h.2
    refine ⟨.binaryExpr (some ml) (some mr) name, ?_, ?_⟩
    · simp [serializeLogicalExpr, hname, hl, hr]
    · rw [deserializeLogicalExpr, hl', Outcome.ok_bind, hr', Outcome.ok_bind]
      cases op <;> cases hname <;> rfl
  | _ => cases h

omit [Readers] in
/-- Only expressions that ship are. -/
theorem LogicalExpr.ships_of_roundTrip {e : LogicalExpr} {m : pb.LogicalExprNode}
    (hm : serializeLogicalExpr e = .ok m) (he : deserializeLogicalExpr m = .ok e) : e.ships := by
  induction e generalizing m with
  | column | literalString | literalLong | literalFloat | literalDouble => rfl
  | literalDate d =>
    -- A date that came back was made from a day number, so it is representable.
    cases hm
    obtain ⟨d', hd', heq⟩ := Outcome.bind_pure_eq_ok_iff.mp he
    cases heq
    unfold naiveDateFromDays at hd'
    split at hd'
    · rename_i hdays
      cases hd'
      exact decide_eq_true (NaiveDate.representable_of_ofDays hdays)
    · cases hd'
  | binary op l r ihl ihr =>
    rw [serializeLogicalExpr] at hm
    split at hm
    · rename_i name hname
      obtain ⟨ml, hml, hm⟩ := Outcome.bind_eq_ok_iff.mp hm
      obtain ⟨mr, hmr, rfl⟩ := Outcome.bind_pure_eq_ok_iff.mp hm
      obtain ⟨l', hl', he⟩ := Outcome.bind_eq_ok_iff.mp he
      obtain ⟨r', hr', he⟩ := Outcome.bind_eq_ok_iff.mp he
      have heq : binaryLogicalExpr name l' r' = .ok (.binary op l' r') := by
        cases op <;> cases hname <;> rfl
      cases heq.symm.trans he
      rw [ships, hname, ihl hml hl', ihr hmr hr']
      rfl
    · cases hm
  | _ => cases hm

omit [Readers] in
/-- An aggregate whose argument ships is read back as it was sent. -/
theorem AggregateExpr.ships_roundTrip {a : AggregateExpr} (h : a.expr.ships) :
    ∃ m, serializeLogicalAggregateExpr a = .ok m ∧ deserializeAggregateExpr m = .ok a := by
  obtain ⟨fn, e⟩ := a
  obtain ⟨m, hm, he⟩ := LogicalExpr.ships_roundTrip h
  refine ⟨_, Outcome.bind_pure_eq_ok_iff.mpr ⟨m, hm, rfl⟩, ?_⟩
  rw [deserializeAggregateExpr, deserializeLogicalExpr, he]
  cases fn <;> rfl

omit [Readers] in
/-- Only aggregates whose arguments ship are. -/
theorem AggregateExpr.ships_of_roundTrip {a : AggregateExpr} {m : pb.LogicalExprNode}
    (hm : serializeLogicalAggregateExpr a = .ok m) (ha : deserializeAggregateExpr m = .ok a) :
    a.expr.ships := by
  obtain ⟨fn, e⟩ := a
  obtain ⟨me, hme, rfl⟩ := Outcome.bind_pure_eq_ok_iff.mp hm
  obtain ⟨e', he', ha⟩ := Outcome.bind_eq_ok_iff.mp ha
  obtain ⟨inner, hinner, he'⟩ := Outcome.bind_eq_ok_iff.mp he'
  have heq : e' = .aggregateExpr fn inner := by
    cases fn <;> simpa [pb.AggregateFunction.tryFrom_number] using he'.symm
  rw [heq] at ha
  cases ha
  exact LogicalExpr.ships_of_roundTrip hme hinner

omit [Readers] in
/-- The same file, read in the same way; the batch size of a CSV file does not matter. -/
def DataSource.SameFile : DataSource → DataSource → Prop
  | csv s, csv s' => { s' with batchSize := s.batchSize } = s
  | parquet s, parquet s' => s = s'
  | inMemory s, inMemory s' => s = s'
  | _, _ => False

namespace LogicalPlan

/-- The same operators, expressions, limits and scans. -/
inductive SameQuery : LogicalPlan → LogicalPlan → Prop
  | scan {s s' : Scan} (hpath : s.path = s'.path) (hsource : s.dataSource.SameFile s'.dataSource)
      (hprojection : s.projection = s'.projection) : SameQuery (.scan s) (.scan s')
  | projection {input input' : LogicalPlan} {expr : List LogicalExpr} (h : SameQuery input input') :
    SameQuery (.projection input expr) (.projection input' expr)
  | selection {input input' : LogicalPlan} {expr : LogicalExpr} (h : SameQuery input input') :
    SameQuery (.selection input expr) (.selection input' expr)
  | aggregate {input input' : LogicalPlan} {groupExpr : List LogicalExpr}
      {aggregateExpr : List AggregateExpr} (h : SameQuery input input') :
    SameQuery (.aggregate input groupExpr aggregateExpr) (.aggregate input' groupExpr aggregateExpr)
  | join {left left' right right' : LogicalPlan} {joinType : JoinType} {on : List (String × String)}
      (hleft : SameQuery left left') (hright : SameQuery right right') :
    SameQuery (.join left right joinType on) (.join left' right' joinType on)
  | limit {input input' : LogicalPlan} {n : Int32} (h : SameQuery input input') :
    SameQuery (.limit input n) (.limit input' n)

/-- The plan is written, and read back as the same query. -/
def RoundTrips (plan : LogicalPlan) : Prop :=
  ∃ node, serializeLogicalPlan plan = .ok node ∧
    ∃ plan', deserializeLogicalPlan node = .ok plan' ∧ plan.SameQuery plan'

end LogicalPlan

/-- The scans of the files that the receiver opens. -/
def Scan.Ships (s : Scan) : Prop :=
  match s.dataSource with
  | .csv csv => CsvDataSource.new s.path none csv.hasHeaders csv.batchSize = csv
  | .parquet parquet => parquet.filename = s.path
  | .inMemory _ => False

/-- The plans that can be written and read back. -/
def LogicalPlan.Ships : LogicalPlan → Prop
  | scan s => s.Ships
  | projection input expr => input.Ships ∧ ∀ e ∈ expr, e.ships
  | selection input expr => input.Ships ∧ expr.ships
  | aggregate input groupExpr aggregateExpr =>
    input.Ships ∧ (∀ e ∈ groupExpr, e.ships) ∧ ∀ a ∈ aggregateExpr, a.expr.ships
  | join _ _ _ _ => False
  | limit input _ => input.Ships

/-- A scan is read back as it was sent exactly if it ships. -/
theorem Scan.roundTrips_iff {s : Scan} : (LogicalPlan.scan s).RoundTrips ↔ s.Ships := by
  obtain ⟨path, dataSource, projection, schema, hderived⟩ := s
  cases dataSource with
  | csv csv =>
    have hsame : (DataSource.csv csv).SameFile (.csv (.new path none csv.hasHeaders 1024)) ↔
        CsvDataSource.new path none csv.hasHeaders csv.batchSize = csv := Iff.rfl
    constructor
    -- The reader has the batch size of the server, not the one of the sender.
    · rintro ⟨node, hnode, plan', hplan', hquery⟩
      cases hnode
      obtain ⟨s', hs', rfl⟩ := Outcome.bind_pure_eq_ok_iff.mp hplan'
      obtain ⟨-, hsource, -⟩ := Scan.new_eq_ok_iff.mp hs'
      cases hquery with
      | scan hpath hfile hprojection => exact hsame.mp (hsource ▸ hfile)
    · intro h
      have hderived' : Scan.deriveSchema (.csv (.new path none csv.hasHeaders 1024)) projection =
          .ok schema := by
        rw [← hderived, ← show CsvDataSource.new path none csv.hasHeaders csv.batchSize = csv from h]
        rfl
      have hnew : Scan.new path (.csv (.new path none csv.hasHeaders 1024)) projection =
          .ok ⟨path, _, projection, schema, hderived'⟩ := Scan.new_eq_ok_iff.mpr ⟨rfl, rfl, rfl⟩
      refine ⟨_, rfl, _, Outcome.bind_pure_eq_ok_iff.mpr ⟨_, hnew, rfl⟩, ?_⟩
      exact .scan rfl (hsame.mpr h) rfl
  | parquet parquet =>
    constructor
    -- A Parquet file is read under its own name, which must be the path of the scan.
    · rintro ⟨node, hnode, plan', hplan', hquery⟩
      cases hnode
      obtain ⟨s', hs', rfl⟩ := Outcome.bind_pure_eq_ok_iff.mp hplan'
      obtain ⟨-, hsource, -⟩ := Scan.new_eq_ok_iff.mp hs'
      cases hquery with
      | scan hpath hfile hprojection =>
        rw [hsource] at hfile
        exact congrArg ParquetDataSource.filename hfile
    · intro h
      obtain rfl : parquet.filename = path := h
      have hnew : Scan.new parquet.filename (.parquet parquet) projection =
          .ok ⟨parquet.filename, _, projection, schema, hderived⟩ :=
        Scan.new_eq_ok_iff.mpr ⟨rfl, rfl, rfl⟩
      exact ⟨_, rfl, _, Outcome.bind_pure_eq_ok_iff.mpr ⟨_, hnew, rfl⟩, .scan rfl rfl rfl⟩
  | inMemory source =>
    constructor
    · rintro ⟨node, hnode, -⟩
      cases hnode
    · exact False.elim

omit [FloatModel] [Readers] in
/-- A list is written and read back item by item. -/
theorem exists_roundTrip_mapM_iff {α β : Type} {f : α → Result β} {g : β → Result α} {xs : List α} :
    (∃ ys, xs.mapM f = .ok ys ∧ ys.mapM g = .ok xs) ↔
      ∀ x ∈ xs, ∃ y, f x = .ok y ∧ g y = .ok x := by
  induction xs with
  | nil => simp
  | cons x xs ih =>
    rw [List.forall_mem_cons, ← ih]
    constructor
    · rintro ⟨zs, hf, hg⟩
      obtain ⟨y, ys, hy, hys, rfl⟩ := Outcome.mapM_cons_eq_ok_iff.mp hf
      obtain ⟨x', xs', hx', hxs', heq⟩ := Outcome.mapM_cons_eq_ok_iff.mp hg
      -- The head that comes back is the one that was sent, and so is the tail.
      obtain ⟨rfl, rfl⟩ := List.cons.inj heq
      exact ⟨⟨y, hy, hx'⟩, ys, hys, hxs'⟩
    · rintro ⟨⟨y, hy, hx⟩, ys, hys, hxs⟩
      exact ⟨y :: ys, Outcome.mapM_cons_eq_ok_iff.mpr ⟨y, ys, hy, hys, rfl⟩,
        Outcome.mapM_cons_eq_ok_iff.mpr ⟨x, xs, hx, hxs, rfl⟩⟩

omit [Readers] in
/-- The expressions that are read back as they were sent. -/
theorem LogicalExpr.roundTrip_iff {e : LogicalExpr} :
    (∃ m, serializeLogicalExpr e = .ok m ∧ deserializeLogicalExpr m = .ok e) ↔ e.ships :=
  ⟨fun ⟨_, hm, he⟩ => ships_of_roundTrip hm he, ships_roundTrip⟩

omit [Readers] in
/-- The aggregates that are read back as they were sent. -/
theorem AggregateExpr.roundTrip_iff {a : AggregateExpr} :
    (∃ m, serializeLogicalAggregateExpr a = .ok m ∧ deserializeAggregateExpr m = .ok a) ↔
      a.expr.ships :=
  ⟨fun ⟨_, hm, ha⟩ => ships_of_roundTrip hm ha, ships_roundTrip⟩

omit [Readers] in
/-- A list of expressions is read back if each of them is. -/
theorem LogicalExpr.list_roundTrip_iff {es : List LogicalExpr} :
    (∃ ms, es.mapM serializeLogicalExpr = .ok ms ∧ ms.mapM deserializeLogicalExpr = .ok es) ↔
      ∀ e ∈ es, e.ships :=
  exists_roundTrip_mapM_iff.trans (forall₂_congr fun _ _ => roundTrip_iff)

omit [Readers] in
/-- So is a list of aggregates. -/
theorem AggregateExpr.list_roundTrip_iff {as : List AggregateExpr} :
    (∃ ms, as.mapM serializeLogicalAggregateExpr = .ok ms ∧
      ms.mapM deserializeAggregateExpr = .ok as) ↔ ∀ a ∈ as, a.expr.ships :=
  exists_roundTrip_mapM_iff.trans (forall₂_congr fun _ _ => roundTrip_iff)

/-- Which plans come back as they were. -/
theorem LogicalPlan.roundTrips_iff {plan : LogicalPlan} : plan.RoundTrips ↔ plan.Ships := by
  induction plan with
  | scan s => exact Scan.roundTrips_iff
  | projection input expr ih =>
    rw [Ships, ← ih, ← LogicalExpr.list_roundTrip_iff]
    constructor
    · rintro ⟨node, hnode, plan', hplan', hquery⟩
      obtain ⟨inputNode, hinput, hnode⟩ := Outcome.bind_eq_ok_iff.mp hnode
      obtain ⟨nodes, hnodes, rfl⟩ := Outcome.bind_pure_eq_ok_iff.mp hnode
      obtain ⟨input', hinput', hplan'⟩ := Outcome.bind_eq_ok_iff.mp hplan'
      obtain ⟨expr', hexpr', rfl⟩ := Outcome.bind_pure_eq_ok_iff.mp hplan'
      cases hquery with
      | projection hsame => exact ⟨⟨_, hinput, _, hinput', hsame⟩, nodes, hnodes, hexpr'⟩
    · rintro ⟨⟨inputNode, hinput, input', hinput', hsame⟩, nodes, hnodes, hexpr⟩
      refine ⟨.mk (some inputNode) none none none (some nodes) none none none, ?_,
        .projection input' expr, ?_, .projection hsame⟩
      · simp [serializeLogicalPlan, hinput, hnodes]
      · simp [deserializeLogicalPlan, hinput', hexpr]
  | selection input expr ih =>
    rw [Ships, ← ih, ← LogicalExpr.roundTrip_iff]
    constructor
    · rintro ⟨node, hnode, plan', hplan', hquery⟩
      obtain ⟨inputNode, hinput, hnode⟩ := Outcome.bind_eq_ok_iff.mp hnode
      obtain ⟨exprNode, hexpr, rfl⟩ := Outcome.bind_pure_eq_ok_iff.mp hnode
      obtain ⟨input', hinput', hplan'⟩ := Outcome.bind_eq_ok_iff.mp hplan'
      obtain ⟨expr', hexpr', rfl⟩ := Outcome.bind_pure_eq_ok_iff.mp hplan'
      cases hquery with
      | selection hsame => exact ⟨⟨_, hinput, _, hinput', hsame⟩, exprNode, hexpr, hexpr'⟩
    · rintro ⟨⟨inputNode, hinput, input', hinput', hsame⟩, exprNode, hexpr, hexpr'⟩
      refine ⟨.mk (some inputNode) none none (some (some exprNode)) none none none none, ?_,
        .selection input' expr, ?_, .selection hsame⟩
      · simp [serializeLogicalPlan, hinput, hexpr]
      · simp [deserializeLogicalPlan, hinput', hexpr', expect]
  | aggregate input groupExpr aggregateExpr ih =>
    rw [Ships, ← ih, ← LogicalExpr.list_roundTrip_iff, ← AggregateExpr.list_roundTrip_iff]
    constructor
    · rintro ⟨node, hnode, plan', hplan', hquery⟩
      obtain ⟨inputNode, hinput, hnode⟩ := Outcome.bind_eq_ok_iff.mp hnode
      obtain ⟨groups, hgroups, hnode⟩ := Outcome.bind_eq_ok_iff.mp hnode
      obtain ⟨aggrs, haggrs, rfl⟩ := Outcome.bind_pure_eq_ok_iff.mp hnode
      obtain ⟨input', hinput', hplan'⟩ := Outcome.bind_eq_ok_iff.mp hplan'
      obtain ⟨groups', hgroups', hplan'⟩ := Outcome.bind_eq_ok_iff.mp hplan'
      obtain ⟨aggrs', haggrs', rfl⟩ := Outcome.bind_pure_eq_ok_iff.mp hplan'
      cases hquery with
      | aggregate hsame =>
        exact ⟨⟨_, hinput, _, hinput', hsame⟩, ⟨groups, hgroups, hgroups'⟩, aggrs, haggrs, haggrs'⟩
    · rintro ⟨⟨inputNode, hinput, input', hinput', hsame⟩, ⟨groups, hgroups, hgroups'⟩,
        aggrs, haggrs, haggrs'⟩
      refine ⟨.mk (some inputNode) none none none none none (some ⟨groups, aggrs⟩) none, ?_,
        .aggregate input' groupExpr aggregateExpr, ?_, .aggregate hsame⟩
      · simp [serializeLogicalPlan, hinput, hgroups, haggrs]
      · simp [deserializeLogicalPlan, hinput', hgroups', haggrs']
  | join left right joinType on ihl ihr =>
    refine ⟨?_, False.elim⟩
    rintro ⟨node, hnode, plan', hplan', -⟩
    obtain ⟨leftNode, -, hnode⟩ := Outcome.bind_eq_ok_iff.mp hnode
    obtain ⟨rightNode, -, rfl⟩ := Outcome.bind_pure_eq_ok_iff.mp hnode
    cases hplan'
  | limit input n ih =>
    rw [Ships, ← ih]
    have hn : n.toUInt32.toInt32 = n := by simp
    constructor
    · rintro ⟨node, hnode, plan', hplan', hquery⟩
      obtain ⟨inputNode, hinput, rfl⟩ := Outcome.bind_pure_eq_ok_iff.mp hnode
      obtain ⟨input', hinput', rfl⟩ := Outcome.bind_pure_eq_ok_iff.mp hplan'
      rw [hn] at hquery
      cases hquery with
      | limit hsame => exact ⟨_, hinput, _, hinput', hsame⟩
    · rintro ⟨inputNode, hinput, input', hinput', hsame⟩
      refine ⟨.mk (some inputNode) none none none none (some n.toUInt32) none none, ?_,
        .limit input' n, ?_, .limit hsame⟩
      · simp [serializeLogicalPlan, hinput]
      · simp [deserializeLogicalPlan, hinput', hn]

end

end RQuery
