import RQuery.Protobuf.PhysicalPlan

/-!
# Shipping a task

A task that is written and read back has the plan it had, up to what the message does not carry
(`deserialize_serializePhysicalPlan`): a CSV source is rebuilt with a header line and a comma, and a
column index has been through an `i32`. So the task that arrives is the one that was sent exactly
when every CSV scan has these settings and every column index is one that an `i32` holds
(`serializeTask_roundTrip_iff`).
-/

namespace RQuery

/-- An index is read back as it was written exactly when it is the sign extension of an `i32`. -/
theorem asUsize_ofNat_eq_iff {i : ℕ} :
    asUsize (Int32.ofNat i) = i ↔ i < 2 ^ 31 ∨ 2 ^ 64 - 2 ^ 31 ≤ i ∧ i < 2 ^ 64 := by
  have hint : (Int32.ofNat i).toInt = Int.bmod i (2 ^ 32) := Int32.toInt_ofNat'
  rw [asUsize, hint]
  simp only [Int.bmod_def]
  omega

section

variable [FloatModel]

/-! ## Plans of one shape -/

/-- Two plans of the same shape: their sources are related by `source` and their expressions by
`expr`, and all else is equal. -/
inductive PhysicalPlan.Alike (source : DataSource → DataSource → Prop)
    (expr : Expression → Expression → Prop) : PhysicalPlan → PhysicalPlan → Prop
  | scan {ds ds' : DataSource} (columns : List String) (hsource : source ds ds') :
    Alike source expr (.scan ds columns) (.scan ds' columns)
  | projection {input input' : PhysicalPlan} {es es' : List Expression} (schema : Schema)
      (hinput : Alike source expr input input') (hexpr : List.Forall₂ expr es es') :
    Alike source expr (.projection input schema es) (.projection input' schema es')
  | selection {input input' : PhysicalPlan} {e e' : Expression}
      (hinput : Alike source expr input input') (hexpr : expr e e') :
    Alike source expr (.selection input e) (.selection input' e')
  | hashAggregate {input input' : PhysicalPlan} {group group' : List Expression}
      {aggr aggr' : List AggregateExpression} (schema : Schema) (mode : AggregateMode)
      (hinput : Alike source expr input input') (hgroup : List.Forall₂ expr group group')
      (haggr : List.Forall₂
        (fun a a' => a.function = a'.function ∧ expr a.inputExpression a'.inputExpression)
        aggr aggr') :
    Alike source expr (.hashAggregate input ⟨group, aggr, schema⟩ mode)
      (.hashAggregate input' ⟨group', aggr', schema⟩ mode)
  | shuffleWriter {input input' : PhysicalPlan} {es es' : List Expression} (jobUuid : String)
      (stageId partitionCount : Int32) (hinput : Alike source expr input input')
      (hexpr : List.Forall₂ expr es es') :
    Alike source expr (.shuffleWriter input ⟨es, jobUuid, stageId, partitionCount⟩)
      (.shuffleWriter input' ⟨es', jobUuid, stageId, partitionCount⟩)
  | shuffleReader (schema : Schema) (locations : List ShuffleLocation) :
    Alike source expr (.shuffleReader schema locations) (.shuffleReader schema locations)

/-- The plan is made of the operators that have a message, with these sources and expressions. -/
def PhysicalPlan.Everywhere (source : DataSource → Prop) (expr : Expression → Prop) :
    PhysicalPlan → Prop
  | scan ds _ => source ds
  | projection input _ es => input.Everywhere source expr ∧ ∀ e ∈ es, expr e
  | selection input e => input.Everywhere source expr ∧ expr e
  | hashAggregate input agg _ =>
    input.Everywhere source expr ∧ (∀ e ∈ agg.groupExpr, expr e) ∧
      ∀ a ∈ agg.aggregateExpr, expr a.inputExpression
  | shuffleWriter input writer =>
    input.Everywhere source expr ∧ ∀ e ∈ writer.partitionExpr, expr e
  | shuffleReader _ _ => True
  | limit _ _ | hashJoin _ _ _ | inMemory _ _ => False

omit [FloatModel] in
/-- Lists related by `r` are related by `s` exactly when the elements on the left allow it. -/
theorem forall₂_iff_of_forall₂ {α β : Type*} {r s : α → β → Prop} {p : α → Prop} {xs : List α}
    {ys : List β} (h : List.Forall₂ r xs ys) (hiff : ∀ x y, r x y → (s x y ↔ p x)) :
    List.Forall₂ s xs ys ↔ ∀ x ∈ xs, p x := by
  induction h with
  | nil => simp
  | cons hxy _ ih => rw [List.forall₂_cons, List.forall_mem_cons, ih, hiff _ _ hxy]

/-- Of two plans that are alike in one sense, being alike in another is decided source by source
and expression by expression. -/
theorem PhysicalPlan.Alike.iff_everywhere {source source' : DataSource → DataSource → Prop}
    {expr expr' : Expression → Expression → Prop} {ps : DataSource → Prop} {pe : Expression → Prop}
    (hsource : ∀ ds ds', source ds ds' → (source' ds ds' ↔ ps ds))
    (hexpr : ∀ e e', expr e e' → (expr' e e' ↔ pe e)) {plan plan' : PhysicalPlan}
    (h : Alike source expr plan plan') :
    Alike source' expr' plan plan' ↔ plan.Everywhere ps pe := by
  -- Node by node; what is asked of the two plans is asked of each source and expression.
  induction h with
  | scan columns hds =>
    rw [Everywhere, ← hsource _ _ hds]
    exact ⟨fun | .scan _ h => h, .scan columns⟩
  | projection schema _ hes ih =>
    rw [Everywhere, ← ih, ← forall₂_iff_of_forall₂ hes hexpr]
    exact ⟨fun | .projection _ hinput h => ⟨hinput, h⟩, fun h => .projection schema h.1 h.2⟩
  | selection _ he ih =>
    rw [Everywhere, ← ih, ← hexpr _ _ he]
    exact ⟨fun | .selection hinput h => ⟨hinput, h⟩, fun h => .selection h.1 h.2⟩
  | hashAggregate schema mode _ hgroup haggr ih =>
    have haggr' := forall₂_iff_of_forall₂ haggr
      (s := fun a a' => a.function = a'.function ∧ expr' a.inputExpression a'.inputExpression)
      (p := fun a => pe a.inputExpression)
      fun a a' ha => by rw [and_iff_right ha.1, hexpr _ _ ha.2]
    rw [Everywhere, ← ih, ← forall₂_iff_of_forall₂ hgroup hexpr, ← haggr']
    exact ⟨fun | .hashAggregate _ _ hinput hg ha => ⟨hinput, hg, ha⟩,
      fun h => .hashAggregate schema mode h.1 h.2.1 h.2.2⟩
  | shuffleWriter jobUuid stageId partitionCount _ hes ih =>
    rw [Everywhere, ← ih, ← forall₂_iff_of_forall₂ hes hexpr]
    exact ⟨fun | .shuffleWriter _ _ _ hinput h => ⟨hinput, h⟩,
      fun h => .shuffleWriter jobUuid stageId partitionCount h.1 h.2⟩
  | shuffleReader schema locations => exact ⟨fun _ => trivial, fun _ => .shuffleReader _ _⟩

/-! ## What arrives -/

variable [Readers]

/-- The source that the receiver builds for a scan. -/
inductive DataSource.Shipped : DataSource → DataSource → Prop
  | csv {source : CsvDataSource} {schema : Schema} (hschema : source.schema = .ok schema) :
    Shipped (.csv source) (.csv (.new source.filename (some schema) true 1024))
  | parquet (source : ParquetDataSource) : Shipped (.parquet source) (.parquet source)

/-- A plan that can be written is read back as a plan of its shape. -/
theorem deserialize_serializePhysicalPlan {plan : PhysicalPlan} {m : pb.PhysicalPlanNode}
    (h : serializePhysicalPlan plan = .ok m) :
    ∃ plan', deserializePhysicalPlan m = .ok plan' ∧
      plan.Alike DataSource.Shipped (fun e e' => e' = e.shipped) plan' := by
  have hexprs : ∀ {es : List Expression} {ms : List pb.PhysicalExprNode},
      es.mapM serializePhysicalExpr = .ok ms → ∃ es', ms.mapM deserializePhysicalExpr = .ok es' ∧
        List.Forall₂ (fun e e' => e' = e.shipped) es es' := fun hms =>
    Outcome.mapM_roundTrip hms fun e _ m hm => ⟨_, deserialize_serializePhysicalExpr hm, rfl⟩
  -- On the plan: what the serializer accepts, the deserializer reads back node by node.
  induction plan generalizing m with
  | scan ds columns =>
    obtain ⟨⟨path, fileFormat⟩, hpath, h⟩ := Outcome.bind_eq_ok_iff.mp h
    obtain ⟨s, hs, h⟩ := Outcome.bind_eq_ok_iff.mp h
    obtain ⟨ms, hms, h⟩ := Outcome.bind_eq_ok_iff.mp h
    cases h
    have hread := deserializeSchema_toProto hms
    cases ds with
    | csv source =>
      cases hpath
      exact ⟨_, by rw [deserializePhysicalPlan, expect, Outcome.ok_bind, hread]; rfl,
        .scan columns (.csv hs)⟩
    | parquet source =>
      cases hpath
      exact ⟨_, by rw [deserializePhysicalPlan, expect, Outcome.ok_bind, hread]; rfl,
        .scan columns (.parquet source)⟩
    | inMemory source => cases hpath
  | projection input schema es ih =>
    obtain ⟨mi, hmi, h⟩ := Outcome.bind_eq_ok_iff.mp h
    obtain ⟨ms, hms, h⟩ := Outcome.bind_eq_ok_iff.mp h
    obtain ⟨me, hme, rfl⟩ := Outcome.bind_pure_eq_ok_iff.mp h
    obtain ⟨input', hinput', hinput⟩ := ih hmi
    obtain ⟨es', hes', hes⟩ := hexprs hme
    refine ⟨_, ?_, .projection schema hinput hes⟩
    simp [deserializePhysicalPlan, expect, hinput', deserializeSchema_toProto hms, hes']
  | selection input e ih =>
    obtain ⟨mi, hmi, h⟩ := Outcome.bind_eq_ok_iff.mp h
    obtain ⟨me, hme, rfl⟩ := Outcome.bind_pure_eq_ok_iff.mp h
    obtain ⟨input', hinput', hinput⟩ := ih hmi
    refine ⟨_, ?_, .selection hinput rfl⟩
    simp [deserializePhysicalPlan, expect, hinput', deserialize_serializePhysicalExpr hme]
  | hashAggregate input agg mode ih =>
    obtain ⟨group, aggr, schema⟩ := agg
    obtain ⟨mi, hmi, h⟩ := Outcome.bind_eq_ok_iff.mp h
    obtain ⟨mg, hmg, h⟩ := Outcome.bind_eq_ok_iff.mp h
    obtain ⟨ma, hma, h⟩ := Outcome.bind_eq_ok_iff.mp h
    obtain ⟨ms, hms, rfl⟩ := Outcome.bind_pure_eq_ok_iff.mp h
    obtain ⟨input', hinput', hinput⟩ := ih hmi
    obtain ⟨group', hgroup', hgroup⟩ := hexprs hmg
    obtain ⟨aggr', haggr', haggr⟩ := Outcome.mapM_roundTrip hma
      (R := fun a a' => a.function = a'.function ∧ a'.inputExpression = a.inputExpression.shipped)
      fun a _ m hm => ⟨_, deserialize_serializePhysicalAggrExpr hm, rfl, rfl⟩
    refine ⟨_, ?_, .hashAggregate schema mode hinput hgroup haggr⟩
    simp [deserializePhysicalPlan, expect, hinput', hgroup', haggr', deserializeSchema_toProto hms]
  | shuffleWriter input writer ih =>
    obtain ⟨es, jobUuid, stageId, partitionCount⟩ := writer
    obtain ⟨mi, hmi, h⟩ := Outcome.bind_eq_ok_iff.mp h
    obtain ⟨me, hme, rfl⟩ := Outcome.bind_pure_eq_ok_iff.mp h
    obtain ⟨input', hinput', hinput⟩ := ih hmi
    obtain ⟨es', hes', hes⟩ := hexprs hme
    refine ⟨_, ?_, .shuffleWriter jobUuid stageId partitionCount hinput hes⟩
    simp [deserializePhysicalPlan, hinput', hes']
  | shuffleReader schema locations =>
    obtain ⟨ms, hms, rfl⟩ := Outcome.bind_pure_eq_ok_iff.mp h
    refine ⟨_, ?_, .shuffleReader schema locations⟩
    have hlocations : (locations.map ShuffleLocation.toProto).map deserializeShuffleLocation =
        locations := by
      rw [List.map_map]
      exact List.map_id _
    simp [deserializePhysicalPlan, expect, deserializeSchema_toProto hms, hlocations]
  | limit input n ih => cases h
  | hashJoin left right join _ _ => cases h
  | inMemory schema batches => cases h

/-! ## When it is what was sent -/

/-- The same configuration: path, schema, header flag and delimiter. -/
def DataSource.SameConfiguration : DataSource → DataSource → Prop
  | csv s, csv t =>
    s.filename = t.filename ∧ (∃ schema, s.schema = .ok schema ∧ t.schema = .ok schema) ∧
      s.hasHeaders = t.hasHeaders ∧ s.delimiter = t.delimiter
  | parquet s, parquet t => s.filename = t.filename
  | _, _ => False

/-- Two tasks that are equal in every field that affects execution. -/
structure Task.Same (t t' : Task) : Prop where
  jobUuid : t.jobUuid = t'.jobUuid
  stageId : t.stageId = t'.stageId
  taskId : t.taskId = t'.taskId
  partitionId : t.partitionId = t'.partitionId
  plan : t.plan.Alike DataSource.SameConfiguration Eq t'.plan

omit [Readers] in
/-- A CSV source has the settings that the receiver assumes: a header line and a comma. -/
def DataSource.WireSafe : DataSource → Prop
  | csv s => s.hasHeaders = true ∧ s.delimiter = 44
  | _ => True

omit [Readers] in
/-- Every column index is the sign extension of an `i32`. -/
def Expression.WireSafe : Expression → Prop
  | column i => i < 2 ^ 31 ∨ 2 ^ 64 - 2 ^ 31 ≤ i ∧ i < 2 ^ 64
  | boolean _ l r => l.WireSafe ∧ r.WireSafe
  | math _ l r => l.WireSafe ∧ r.WireSafe
  | cast e _ => e.WireSafe
  | dateInterval _ d i => d.WireSafe ∧ i.WireSafe
  | _ => True

/-- A shipped source keeps its configuration exactly where the wire format has room for it. -/
theorem DataSource.Shipped.sameConfiguration_iff {ds ds' : DataSource} (h : Shipped ds ds') :
    ds.SameConfiguration ds' ↔ ds.WireSafe := by
  cases h with
  | @csv source schema hs =>
    constructor
    · rintro ⟨-, -, hheaders, hdelimiter⟩
      exact ⟨hheaders, hdelimiter⟩
    · rintro ⟨hheaders, hdelimiter⟩
      exact ⟨rfl, ⟨schema, hs, rfl⟩, hheaders, hdelimiter⟩
  | parquet source => exact iff_of_true rfl trivial

omit [Readers] in
/-- An expression arrives as it was sent exactly where it is safe on the wire. -/
theorem Expression.eq_shipped_iff {e : Expression} : e = e.shipped ↔ e.WireSafe := by
  induction e with
  | column i => rw [shipped, WireSafe, column.injEq, ← asUsize_ofNat_eq_iff, eq_comm]
  | boolean op l r ihl ihr => simp only [shipped, WireSafe, boolean.injEq, true_and, ihl, ihr]
  | math op l r ihl ihr => simp only [shipped, WireSafe, math.injEq, true_and, ihl, ihr]
  | cast e t ih => simp only [shipped, WireSafe, cast.injEq, and_true, ih]
  | dateInterval op d i ihd ihi =>
    simp only [shipped, WireSafe, dateInterval.injEq, true_and, ihd, ihi]
  | _ => exact iff_of_true rfl trivial

/-- Columns up to `2 ^ 31`, literals but for intervals, operators, and casts to types that have a
number. -/
def Expression.Shippable : Expression → Prop
  | column i => i < 2 ^ 31
  | literalLong _ | literalDouble _ | literalString _ | literalDate _ => True
  | boolean _ l r => l.Shippable ∧ r.Shippable
  | math _ l r => l.Shippable ∧ r.Shippable
  | cast e t => e.Shippable ∧ t.isMapped
  | literalIntervalDays _ | dateInterval _ _ _ => False

omit [Readers] in
/-- A shippable expression is serialized, and safely. -/
theorem Expression.Shippable.serializable {e : Expression} (h : e.Shippable) :
    e.Serializable ∧ e.WireSafe := by
  induction e with
  | column i => exact ⟨trivial, .inl h⟩
  | boolean op l r ihl ihr | math op l r ihl ihr =>
    obtain ⟨hl, hlsafe⟩ := ihl h.1
    obtain ⟨hr, hrsafe⟩ := ihr h.2
    exact ⟨⟨hl, hr⟩, hlsafe, hrsafe⟩
  | cast e t ih =>
    obtain ⟨he, hesafe⟩ := ih h.1
    exact ⟨⟨he, h.2⟩, hesafe⟩
  | literalIntervalDays days => exact h.elim
  | dateInterval op d i ihd ihi => exact h.elim
  | _ => exact ⟨trivial, trivial⟩

omit [Readers] in
/-- Such an expression is read back as it was written, and so is every aggregate of it. -/
theorem deserializePhysicalExpr_roundTrip {e : Expression} (h : e.Shippable) :
    (do deserializePhysicalExpr (← serializePhysicalExpr e)) = .ok e ∧
      ∀ f : AggregateFunction,
        (do deserializePhysicalAggrExpr (← serializePhysicalAggrExpr ⟨f, e⟩)) = .ok ⟨f, e⟩ := by
  obtain ⟨hserializable, hsafe⟩ := h.serializable
  have hshipped : e.shipped = e := (Expression.eq_shipped_iff.mpr hsafe).symm
  obtain ⟨m, hm⟩ := serializePhysicalExpr_succeeds_iff.mpr hserializable
  constructor
  · rw [hm, Outcome.ok_bind, deserialize_serializePhysicalExpr hm, hshipped]
  · intro f
    obtain ⟨n, hn⟩ : Outcome.Succeeds (serializePhysicalAggrExpr ⟨f, e⟩) :=
      ⟨_, by rw [serializePhysicalAggrExpr, hm]; rfl⟩
    rw [hn, Outcome.ok_bind, deserialize_serializePhysicalAggrExpr hn,
      AggregateExpression.shipped, hshipped]

/-- Every CSV scan and every column index of the plan survive the wire. -/
def PhysicalPlan.WireSafe (plan : PhysicalPlan) : Prop :=
  plan.Everywhere DataSource.WireSafe Expression.WireSafe

/-- A task that can be written is read back as the same task exactly when its CSV scans have a
header line and a comma, and its column indices fit an `i32`. -/
theorem serializeTask_roundTrip_iff {t : Task} (h : t.plan.Serializable) :
    (∃ t', (do deserializeTask (← serializeTask t)) = .ok t' ∧ t.Same t') ↔ t.plan.WireSafe := by
  obtain ⟨m, hm⟩ := serializePhysicalPlan_succeeds_iff.mpr h
  obtain ⟨plan', hplan', halike⟩ := deserialize_serializePhysicalPlan hm
  have hround : (do deserializeTask (← serializeTask t)) =
      .ok ⟨t.jobUuid, t.stageId, t.taskId, t.partitionId, plan'⟩ := by
    simp [serializeTask, hm, deserializeTask, expect, hplan']
  have hiff : t.plan.Alike DataSource.SameConfiguration Eq plan' ↔ t.plan.WireSafe :=
    halike.iff_everywhere (fun _ _ hds => hds.sameConfiguration_iff)
      fun e e' he => by rw [he, Expression.eq_shipped_iff]
  rw [hround, ← hiff]
  constructor
  · rintro ⟨t', ht', hsame⟩
    cases ht'
    exact hsame.plan
  · exact fun hplan => ⟨_, rfl, rfl, rfl, rfl, rfl, hplan⟩

end

section

attribute [local instance] integerFloats

local instance noShippedFiles : Readers := parquetDisk fun _ => none

/-- A task that scans a file whose first line holds data. -/
def headerlessTask : Task :=
  ⟨"job", 0, 0, 0, .scan (.csv (.new "people.csv" (some ⟨[⟨"name", .utf8⟩]⟩) false 1024)) []⟩

/-- The receiver skips the first line. -/
theorem headerlessTask_not_same :
    headerlessTask.plan.Serializable ∧
      ¬ ∃ t', (do deserializeTask (← serializeTask headerlessTask)) = .ok t' ∧
        headerlessTask.Same t' := by
  refine ⟨⟨by simp, _, rfl, by decide⟩, ?_⟩
  rintro ⟨t', ht', hsame⟩
  cases ht'
  cases hsame.plan with
  | scan columns hsource => exact absurd hsource.2.2.1 (by decide)

/-- `CAST(#3 + 2 AS Utf8) <> 'five' AND DATE '2020-01-01' < #0`. -/
def nestedCondition : Expression :=
  AndExpression
    (NeqExpression (.cast (AddExpression (.column 3) (.literalLong 2)) .utf8)
      (.literalString "five"))
    (LtExpression (.literalDate 18262) (.column 0))

/-- A nested condition, and the maximum of it, there and back. -/
theorem deserializePhysicalExpr_roundTrip_nested :
    (do deserializePhysicalExpr (← serializePhysicalExpr nestedCondition)) =
        .ok nestedCondition ∧
      (do deserializePhysicalAggrExpr (← serializePhysicalAggrExpr (MaxExpression nestedCondition)))
        = .ok (MaxExpression nestedCondition) := by
  have hshippable : nestedCondition.Shippable := by
    simp [nestedCondition, Expression.Shippable, DataType.isMapped]
  have h := deserializePhysicalExpr_roundTrip hshippable
  exact ⟨h.1, h.2 .max⟩

/-- A task that averages a column of a file with a header line. -/
def headedTask : Task :=
  ⟨"job", 0, 0, 0, .hashAggregate
    (.scan (.csv (.new "people.csv" (some ⟨[⟨"age", .int32⟩]⟩) true 1024)) [])
    ⟨[], [AvgExpression (.column 0)], ⟨[⟨"AVG", .float64⟩]⟩⟩ .partialMode⟩

/-- A task over a file with a header line comes back the same. -/
theorem serializeTask_roundTrip_iff_headedTask :
    headedTask.plan.WireSafe ∧ ∃ t', (do deserializeTask (← serializeTask headedTask)) = .ok t' ∧
      headedTask.Same t' := by
  have hserializable : headedTask.plan.Serializable :=
    ⟨⟨by simp, _, rfl, by decide⟩, by simp, by simp [Expression.Serializable], by decide⟩
  have hsafe : headedTask.plan.WireSafe := by
    refine ⟨⟨rfl, rfl⟩, by simp, ?_⟩
    simp [Expression.WireSafe]
  exact ⟨hsafe, (serializeTask_roundTrip_iff hserializable).mpr hsafe⟩

end

end RQuery
