import RQuery.Protobuf.LogicalPlan
import RQuery.Execution.ExecutionContext

/-!
# Shipping the plans of SQL statements

`client::Context::sql` plans a statement over its CSV tables and sends the plan to the server.
`createDataFrame_roundTrips_iff` says which statements arrive: those without aggregates, casts,
aliases, intervals and arithmetic. The serializer panics on the others.
-/

namespace RQuery

open SqlPlanner

section

variable [FloatModel]

/-- The operators, by their text, that a plan can be sent with. -/
def shippedOperators : List String := ["=", "!=", "<>", ">", ">=", "<", "<=", "AND", "OR"]

/-- The expressions whose plan can be sent. -/
def SqlExpr.ships : SqlExpr → Bool
  | identifier _ | string _ | long _ | double _ | date _ => true
  | binaryExpr l op r => op ∈ shippedOperators && l.ships && r.ships
  | _ => false

/-- The statements whose plan can be sent. -/
def SqlSelect.Ships (select : SqlSelect) : Prop :=
  (∀ e ∈ select.projection, e.ships) ∧ ∀ e ∈ select.selection, e.ships

/-- An operation ships if its operator and its operands do. -/
theorem createBinaryExpr_ships {op : String} {l r e : LogicalExpr}
    (h : createBinaryExpr op l r = .ok e) :
    e.ships = (op ∈ shippedOperators && l.ships && r.ships) := by
  have hadditive : ∀ op dateOp, op.wireName = none → (∀ l r, (dateOp l r).ships = false) →
      (additive op dateOp l r).ships = false := by
    intro op dateOp hop hdate
    unfold additive
    split
    · exact hdate _ _
    · simp [LogicalExpr.ships, hop]
  unfold createBinaryExpr at h
  split at h <;> cases h <;> first
    | rw [hadditive _ _ rfl fun _ _ => rfl]; rfl
    | rfl

variable [UnicodeTables] [DateParser]

/-- An expression can be sent exactly when the one it is planned as can. -/
theorem createLogicalExpr_ships : ∀ {e : SqlExpr} {logical : LogicalExpr},
    createLogicalExpr e = .ok logical → logical.ships = e.ships
  | .identifier _, _, h | .string _, _, h | .long _, _, h | .double _, _, h => by
    cases h
    rfl
  | .date v, logical, h => by
    rw [createLogicalExpr_date] at h
    split at h
    · rename_i date hdate
      cases h
      exact decide_eq_true (DateParser.parse_range v date hdate)
    · cases h
  | .interval v, logical, h => by
    rw [createLogicalExpr_interval, parseInterval] at h
    split at h <;> cases h
    rfl
  | .binaryExpr l op r, logical, h => by
    rw [createLogicalExpr_binaryExpr] at h
    obtain ⟨l', hl, h⟩ := Outcome.bind_eq_ok_iff.mp h
    obtain ⟨r', hr, h⟩ := Outcome.bind_eq_ok_iff.mp h
    rw [createBinaryExpr_ships h, createLogicalExpr_ships hl, createLogicalExpr_ships hr]
    rfl
  | .aliased e name, logical, h => by
    rw [createLogicalExpr_aliased] at h
    obtain ⟨e', -, rfl⟩ := Outcome.bind_pure_eq_ok_iff.mp h
    rfl
  | .cast e dataType, logical, h => by
    rw [createLogicalExpr_cast] at h
    obtain ⟨e', -, h⟩ := Outcome.bind_eq_ok_iff.mp h
    obtain ⟨t, -, rfl⟩ := Outcome.bind_pure_eq_ok_iff.mp h
    rfl
  | .function id [], logical, h => by cases h
  | .function id (arg :: args), logical, h => by
    rw [createLogicalExpr_function] at h
    split at h
    · obtain ⟨e, -, rfl⟩ := Outcome.bind_pure_eq_ok_iff.mp h
      rfl
    · cases h
  | .sort _ _, _, h | .select _, _, h => by cases h

/-- Planned expressions ship if the parsed ones do. -/
theorem exprs_ships_iff {es : List SqlExpr} {logical : List LogicalExpr}
    (h : es.mapM createLogicalExpr = .ok logical) :
    (∀ e ∈ logical, e.ships) ↔ ∀ e ∈ es, e.ships := by
  have hforall := Outcome.mapM_eq_ok_iff.mp h
  induction hforall with
  | nil => simp
  | cons he htail ih =>
    rw [List.forall_mem_cons, List.forall_mem_cons, createLogicalExpr_ships he]
    exact and_congr_right fun _ => ih (Outcome.mapM_eq_ok_iff.mpr htail)

variable [Readers]

/-! ## Statements over CSV tables -/

/-- The tables that `register_csv` builds up. -/
inductive CsvTables : Tables → Prop
  | empty : CsvTables fun _ => none
  | registerCsv {tables : Tables} {tableName path : String} {hasHeader : Bool} {batchSize : ℕ}
      {scan : Scan} (h : CsvTables tables)
      (hscan : Scan.new path (.csv (.new path none hasHeader batchSize)) [] = .ok scan) :
    CsvTables fun name => if name = tableName then some ⟨.scan scan⟩ else tables name

omit [UnicodeTables] [DateParser] in
/-- The scan of a registered file arrives. -/
theorem CsvTables.ships {tables : Tables} (h : CsvTables tables) {name : String} {table : DataFrame}
    (htable : tables name = some table) : table.logicalPlan.Ships := by
  induction h with
  | empty => cases htable
  | @registerCsv tables tableName path hasHeader batchSize scan h hscan ih =>
    dsimp only at htable
    split at htable
    · cases htable
      obtain ⟨rfl, hsource, -⟩ := Scan.new_eq_ok_iff.mp hscan
      show scan.Ships
      rw [Scan.Ships, hsource]
      rfl
    · exact ih htable

omit [UnicodeTables] [DateParser] in
/-- A limit ships with its input. -/
theorem limited_ships_iff {df : DataFrame} {n : Option Int32} :
    (limited df n).logicalPlan.Ships ↔ df.logicalPlan.Ships := by
  cases n <;> exact Iff.rfl

/-- The plan of a query without aggregates ships exactly if the statement does. -/
theorem planNonAggregateQuery_ships_iff {select : SqlSelect} {table df : DataFrame}
    {projectionExpr : List LogicalExpr} {inSelection inProjection : List String}
    (htable : table.logicalPlan.Ships)
    (hprojection : select.projection.mapM createLogicalExpr = .ok projectionExpr)
    (h : planNonAggregateQuery select table projectionExpr inSelection inProjection = .ok df) :
    df.logicalPlan.Ships ↔ select.Ships := by
  rw [SqlSelect.Ships, ← exprs_ships_iff hprojection]
  unfold planNonAggregateQuery at h
  split at h
  · rename_i hnone
    cases h
    rw [limited_ships_iff, hnone]
    simp [DataFrame.project, LogicalPlan.Ships, htable]
  · rename_i selection hsome
    dsimp only at h
    have hselection : ∀ {e}, createLogicalExpr selection = .ok e →
        ((∀ e ∈ select.selection, e.ships) ↔ e.ships) := by
      intro e he
      rw [hsome, createLogicalExpr_ships he]
      simp
    split at h
    · obtain ⟨e, he, rfl⟩ := Outcome.bind_pure_eq_ok_iff.mp h
      rw [limited_ships_iff, hselection he]
      simp [DataFrame.project, DataFrame.filter, LogicalPlan.Ships, htable]
    -- Otherwise its columns are projected too, and dropped again above the filter.
    · obtain ⟨e, he, h⟩ := Outcome.bind_eq_ok_iff.mp h
      obtain ⟨schema, -, h⟩ := Outcome.bind_eq_ok_iff.mp h
      obtain ⟨expr, hexpr, rfl⟩ := Outcome.bind_pure_eq_ok_iff.mp h
      have hcolumns : ∀ e ∈ expr, e.ships := by
        intro e he
        obtain ⟨i, -, hi⟩ := Outcome.mapM_mem hexpr he
        obtain ⟨field, -, rfl⟩ := Outcome.bind_pure_eq_ok_iff.mp hi
        rfl
      rw [limited_ships_iff, hselection he]
      show ((table.logicalPlan.Ships ∧ ∀ e ∈ projectionExpr ++ _, e.ships) ∧ e.ships) ∧
        (∀ e ∈ expr, e.ships) ↔ _
      rw [List.forall_mem_append, List.forall_mem_map]
      constructor
      · rintro ⟨⟨⟨-, hprojection, -⟩, hselection⟩, -⟩
        exact ⟨hprojection, hselection⟩
      · rintro ⟨hprojection, hselection⟩
        exact ⟨⟨⟨htable, hprojection, fun _ _ => rfl⟩, hselection⟩, hcolumns⟩

omit [UnicodeTables] [DateParser] [Readers] in
/-- The select items of an aggregate query become positions, which cannot be sent. -/
theorem splitProjection_not_ships {numGroupCols aggregates groupCount : ℕ} {e : LogicalExpr}
    {es projection : List LogicalExpr} {aggr : List AggregateExpr}
    (h : splitProjection numGroupCols aggregates groupCount (e :: es) = .ok (projection, aggr)) :
    ∃ e' ∈ projection, e'.ships = false := by
  unfold splitProjection at h
  split at h
  case h_1 heq => cases heq
  case h_4 => cases h
  all_goals
    obtain ⟨rest, -, h⟩ := Outcome.bind_eq_ok_iff.mp h
    cases h
    exact ⟨_, List.mem_cons_self, rfl⟩

omit [UnicodeTables] [DateParser] [Readers] in
/-- An aggregate among the items does not ship. -/
theorem not_ships_of_isAggregateExpr {e : LogicalExpr} (h : isAggregateExpr e) :
    e.ships = false := by
  cases e <;> first | rfl | cases h

/-- The plan of a query with aggregates does not ship. -/
theorem planAggregateSelect_not_ships {select : SqlSelect} {table df : DataFrame} {e : LogicalExpr}
    {es : List LogicalExpr} {inSelection : List String}
    (h : planAggregateSelect select table (e :: es) inSelection = .ok df) :
    ¬ df.logicalPlan.Ships := by
  obtain ⟨projection, aggr, plan, filtered, hsplit, -, hhaving, rfl⟩ :=
    planAggregateSelect_eq_ok_iff.mp h
  obtain ⟨e', he', hships⟩ := splitProjection_not_ships hsplit
  have hproject : ¬ (plan.project projection).logicalPlan.Ships := by
    rintro ⟨-, hall⟩
    exact absurd (hall e' he') (by simp [hships])
  rw [limited_ships_iff]
  unfold havingFilter at hhaving
  split at hhaving
  · obtain ⟨having, -, rfl⟩ := Outcome.bind_pure_eq_ok_iff.mp hhaving
    exact fun hfiltered => hproject hfiltered.1
  · cases hhaving
    exact hproject

/-- The plan of a statement ships exactly if the statement does. -/
theorem createDataFrame_ships_iff {select : SqlSelect} {tables : Tables} {df : DataFrame}
    (htables : CsvTables tables) (h : createDataFrame select tables = .ok df) :
    df.logicalPlan.Ships ↔ select.Ships := by
  obtain ⟨table, projectionExpr, inSelection, htable, hprojection, -, hplan⟩ :=
    createDataFrame_eq_ok_iff.mp h
  rcases hplan with ⟨-, -, hplan⟩ | ⟨hany, hplan⟩
  · exact planNonAggregateQuery_ships_iff (htables.ships htable) hprojection hplan
  · -- an aggregate among the select items can be sent neither as a position nor as it is
    obtain ⟨a, ha, haggregate⟩ := List.any_eq_true.mp hany
    have hselect : ¬ select.Ships := by
      rintro ⟨hall, -⟩
      have haships := (exprs_ships_iff hprojection).mpr hall a ha
      rw [not_ships_of_isAggregateExpr haggregate] at haships
      cases haships
    obtain _ | ⟨e, es⟩ := projectionExpr
    · cases ha
    · exact iff_of_false (planAggregateSelect_not_ships hplan) hselect

/-- Exactly the plans of statements without aggregates, casts, aliases, intervals and arithmetic
come back as they were sent. -/
theorem createDataFrame_roundTrips_iff {tables : Tables} (htables : CsvTables tables)
    (select : SqlSelect) :
    (∀ df, createDataFrame select tables = .ok df → df.logicalPlan.RoundTrips) ↔
      (Outcome.Succeeds (createDataFrame select tables) → select.Ships) := by
  constructor
  · rintro h ⟨df, hdf⟩
    exact (createDataFrame_ships_iff htables hdf).mp (LogicalPlan.roundTrips_iff.mp (h df hdf))
  · intro h df hdf
    exact LogicalPlan.roundTrips_iff.mpr ((createDataFrame_ships_iff htables hdf).mpr (h ⟨df, hdf⟩))

end

section

attribute [local instance] integerFloats asciiTables

/-- A disk with the CSV file `t.csv`, which has one column. -/
local instance oneCsvFile : Readers where
  csvInfer filename _ _ :=
    if filename = "t.csv" then .ok ⟨[⟨"a", .int64⟩]⟩ else .error (.inputOutput filename)
  csvRead _ _ := .ok []
  csvContent format _ := .empty format.schema
  csvContent_schema := emptyCsv_schema
  parquetSchema filename := .error (.inputOutput filename)
  parquetRead filename _ := .error (.inputOutput filename)
  parquetContent _ _ := .empty ⟨[]⟩
  parquetContent_schema := noParquet_schema

local instance noCsvDates : DateParser := ⟨fun _ => none, DateParser.none_range⟩

/-- The scan of `t.csv`. -/
def csvScan : Scan :=
  ⟨"t.csv", .csv (.new "t.csv" none true 1024), [], ⟨[⟨"a", .int64⟩]⟩, by decide⟩

/-- The file `t.csv`, registered as `t`. -/
def csvTables : Tables := fun name => if name = "t" then some ⟨.scan csvScan⟩ else none

/-- The registered tables are CSV tables. -/
theorem csvTables_registered : CsvTables csvTables :=
  CsvTables.empty.registerCsv (Scan.new_eq_ok_iff.mpr ⟨rfl, rfl, rfl⟩)

/-- A select item over the table `t`. -/
def itemSelect (item : SqlExpr) : SqlSelect where
  projection := [item]
  selection := none
  groupBy := []
  orderBy := []
  having := none
  limit := none
  tableName := "t"

/-- The plan of `SELECT a FROM t` comes back. -/
theorem createDataFrame_column_roundTrips :
    createDataFrame (itemSelect (.identifier "a")) csvTables =
        .ok ⟨.projection (.scan csvScan) [.column "a"]⟩ ∧
      (LogicalPlan.projection (.scan csvScan) [.column "a"]).RoundTrips := by
  have hall := (createDataFrame_roundTrips_iff csvTables_registered
    (itemSelect (.identifier "a"))).mpr fun _ => ⟨by simp [itemSelect, SqlExpr.ships], nofun⟩
  exact ⟨rfl, hall _ rfl⟩

/-- The serializer panics on the plan of `SELECT a + 1 FROM t`. -/
theorem createDataFrame_sum_not_roundTrips : ¬ ∀ df,
    createDataFrame (itemSelect (.binaryExpr (.identifier "a") "+" (.long 1))) csvTables = .ok df →
      df.logicalPlan.RoundTrips := by
  intro h
  obtain ⟨node, hnode, -⟩ :=
    h ⟨.projection (.scan csvScan) [.binary .add (.column "a") (.literalLong 1)]⟩ rfl
  cases hnode

end

end RQuery
