import RQuery.Semantics.LimitClause
import RQuery.Semantics.ThreeValued

/-!
# The HAVING clause

The filter of a `HAVING` clause stands above the projection of the select items, with its aggregates
still in it. Neither the optimizer nor the query planner knows an aggregate inside of a filter, so
that a statement with one panics. A clause of literals is TRUE of all groups or of none, and is
honoured (`honoursHaving_iff`).
-/

namespace RQuery

open SqlPlanner

section

variable [FloatModel]

/-! ## What a clause says of a group -/

/-- The comparison that an operator stands for. -/
def BinaryOp.comparison : BinaryOp → Option CompareOp
  | eq => some .eq
  | neq => some .neq
  | gt => some .gt
  | gtEq => some .gtEq
  | lt => some .lt
  | ltEq => some .ltEq
  | _ => none

/-- What SQL says of a comparison of two values of one type. -/
def ScalarValue.compares (op : CompareOp) : ScalarValue → ScalarValue → Truth
  | uint8 a, uint8 b => .ofBool (op.relates a.toNat b.toNat)
  | uint16 a, uint16 b => .ofBool (op.relates a.toNat b.toNat)
  | uint32 a, uint32 b => .ofBool (op.relates a.toNat b.toNat)
  | uint64 a, uint64 b => .ofBool (op.relates a.toNat b.toNat)
  | float32 a, float32 b => .ofBool (op.test (FloatModel.single.partialCmp a b))
  | float64 a, float64 b => .ofBool (op.test (FloatModel.double.partialCmp a b))
  | a, b => sqlCompare op a b

/-- A select item without its alias. -/
def unaliased : LogicalExpr → LogicalExpr
  | .aliased e _ => e
  | e => e

/-- The value of an operand for the group of an output row: a literal has its own, an aggregate that
of the select item it occurs as. -/
def groupValue (items : List LogicalExpr) (row : Row) : LogicalExpr → ScalarValue
  | .literalString s => .utf8 s
  | .literalLong n => .int64 n
  | .literalDouble f => .float64 f
  | .literalDate d => .date32 d.daysSinceUnixEpoch
  | .literalIntervalDays n => .int64 n
  | .aggregateExpr fn e =>
    (row[items.findIdx fun item => unaliased item = .aggregateExpr fn e]?).getD .null
  | _ => .null

/-- What the predicate says of the group of an output row. -/
def havingTruth (items : List LogicalExpr) (row : Row) : LogicalExpr → Truth
  | .binary .and l r => (havingTruth items row l).and (havingTruth items row r)
  | .binary .or l r => (havingTruth items row l).or (havingTruth items row r)
  | .binary op l r =>
    op.comparison.elim .unknown fun c => (groupValue items row l).compares c (groupValue items row r)
  | _ => .unknown

/-! ## Constants -/

/-- An expression that refers to no columns, with the value `v` of type `t` in every row. -/
structure IsConstant (e : LogicalExpr) (t : DataType) (v : ScalarValue) : Prop where
  extract : ∀ input accum, extractColumns input accum e = .ok accum
  lower : ∃ p, (∀ input, createPhysicalExpr input e = .ok p) ∧
    (∀ types, p.dataType types = .ok t) ∧ ∀ [Runtime] types row, p.evalCell types row = .ok v

/-- An expression that the optimizer does not know. -/
def IsRejected (e : LogicalExpr) : Prop :=
  ∀ input accum, ¬ Outcome.Succeeds (extractColumns input accum e)

/-- An operator is rejected with its left operand -/
theorem isRejected_binary_left {op : BinaryOp} {l r : LogicalExpr} (h : IsRejected l) :
    IsRejected (.binary op l r) := by
  intro input accum hextract
  exact h input accum (Outcome.Succeeds.of_bind hextract)

/-- and with its right one. -/
theorem isRejected_binary_right {op : BinaryOp} {l r : LogicalExpr} (h : IsRejected r) :
    IsRejected (.binary op l r) := by
  rintro input accum ⟨names, hextract⟩
  obtain ⟨accum', -, hr⟩ := Outcome.bind_eq_ok_iff.mp hextract
  exact h input accum' ⟨names, hr⟩

/-- A boolean operator of constants is the constant that it computes. -/
theorem IsConstant.binary {op : BinaryOp} {bop : BooleanOp} {l r : LogicalExpr} {t : DataType}
    {v w : ScalarValue} {o : Option Bool} (hl : IsConstant l t v) (hr : IsConstant r t w)
    (hop : ∀ p q, op.createExpression p q = .ok (.boolean bop p q))
    (ho : ScalarValue.compareValue bop v w t = .ok o) :
    IsConstant (.binary op l r) .boolean (.ofOptBool o) where
  extract input accum := by
    rw [extractColumns, hl.extract, Outcome.ok_bind, hr.extract]
  lower := by
    obtain ⟨p, hp, hptype, hpcell⟩ := hl.lower
    obtain ⟨q, hq, hqtype, hqcell⟩ := hr.lower
    refine ⟨.boolean bop p q, fun input => ?_, fun types => boolean_dataType (hptype types)
      (hqtype types), fun types row => boolean_evalCell (hptype types) (hpcell types row)
      (hqcell types row) ho⟩
    rw [createPhysicalExpr, hp, hq, Outcome.ok_bind, Outcome.ok_bind, hop]

/-- The types of literals, as they are evaluated: an interval is a number of days. -/
def literalType : DataType → DataType
  | .intervalDayTime => .int64
  | t => t

/-- Literals of one type are compared as SQL does. -/
theorem compareTyped_literal {op : CompareOp} {t : DataType} {v w : ScalarValue}
    (ht : t ∈ [.utf8, .int64, .float64, .date32]) (hv : v.dataType = t) (hw : w.dataType = t) :
    ScalarValue.compareTyped op v w t = .ok (v.compares op w).toOption := by
  by_cases hfloat : t = .float64
  · subst hfloat
    cases v <;> cases hv
    cases w <;> cases hw
    rw [ScalarValue.compares, Truth.toOption_ofBool]
    rfl
  · have hkey : t.IsKeyType := by
      simp only [List.mem_cons, List.not_mem_nil, or_false] at ht
      rcases ht with rfl | rfl | rfl | rfl <;> first | rfl | cases hfloat rfl
    have hcompares : v.compares op w = ScalarValue.sqlCompare op v w := by
      cases v <;> cases hv <;> first | rfl | cases hkey
    rw [hcompares]
    exact ScalarValue.compareTyped_eq hkey (.inr hv) (.inr hw)

/-- A comparison operator is planned and lowered as a comparison. -/
theorem comparison_planned {op : String} (hop : op ∈ ["=", "!=", "<>", ">", ">=", "<", "<="]) :
    ∃ bop c, bop.comparison = some c ∧
      (∀ l r, createBinaryExpr op l r = .ok (.binary bop l r)) ∧
      ∀ p q, bop.createExpression p q = .ok (.boolean (.compare c) p q) := by
  simp only [List.mem_cons, List.not_mem_nil, or_false] at hop
  rcases hop with rfl | rfl | rfl | rfl | rfl | rfl | rfl
  · exact ⟨.eq, .eq, rfl, fun _ _ => rfl, fun _ _ => rfl⟩
  · exact ⟨.neq, .neq, rfl, fun _ _ => rfl, fun _ _ => rfl⟩
  · exact ⟨.neq, .neq, rfl, fun _ _ => rfl, fun _ _ => rfl⟩
  · exact ⟨.gt, .gt, rfl, fun _ _ => rfl, fun _ _ => rfl⟩
  · exact ⟨.gtEq, .gtEq, rfl, fun _ _ => rfl, fun _ _ => rfl⟩
  · exact ⟨.lt, .lt, rfl, fun _ _ => rfl, fun _ _ => rfl⟩
  · exact ⟨.ltEq, .ltEq, rfl, fun _ _ => rfl, fun _ _ => rfl⟩

/-- So are AND and OR. -/
theorem logic_planned {op : String} (hop : op ∈ ["AND", "OR"]) :
    ∃ bop logic, (∀ l r, createBinaryExpr op l r = .ok (.binary bop l r)) ∧
      (∀ p q, bop.createExpression p q = .ok (.boolean logic p q)) ∧
      ∀ a b : Truth, ∃ c : Truth, ScalarValue.compareValue logic (.ofOptBool a.toOption)
        (.ofOptBool b.toOption) .boolean = .ok c.toOption ∧
        ∀ items row l r, havingTruth items row l = a → havingTruth items row r = b →
          havingTruth items row (.binary bop l r) = c := by
  simp only [List.mem_cons, List.not_mem_nil, or_false] at hop
  rcases hop with rfl | rfl
  · refine ⟨.and, .and, fun _ _ => rfl, fun _ _ => rfl, fun a b => ⟨a.and b, ?_, ?_⟩⟩
    · rw [ScalarValue.compareValue, ScalarValue.asOptBool_ofOptBool,
        ScalarValue.asOptBool_ofOptBool, ← Truth.and3_toOption]
      rfl
    · rintro items row l r rfl rfl
      rfl
  · refine ⟨.or, .or, fun _ _ => rfl, fun _ _ => rfl, fun a b => ⟨a.or b, ?_, ?_⟩⟩
    · rw [ScalarValue.compareValue, ScalarValue.asOptBool_ofOptBool,
        ScalarValue.asOptBool_ofOptBool, ← Truth.or3_toOption]
      rfl
    · rintro items row l r rfl rfl
      rfl

/-! ## Predicates -/

/-- There is an aggregate in the predicate. -/
def SqlExpr.mentionsAggregate : SqlExpr → Bool
  | .function _ _ => true
  | .binaryExpr l _ r => l.mentionsAggregate || r.mentionsAggregate
  | _ => false

/-- An aggregate occurs in the select list, under a name or without. -/
def SelectsAggregate (projection : List SqlExpr) (id : String) (args : List SqlExpr) : Prop :=
  .function id args ∈ projection ∨ ∃ name, .aliased (.function id args) name ∈ projection

variable [UnicodeTables] [DateParser]

/-- A literal, with its type, or an aggregate of the select list. -/
inductive HavingOperand (projection : List SqlExpr) : SqlExpr → Option DataType → Prop
  | string (v : String) : HavingOperand projection (.string v) (some .utf8)
  | long (v : Int64) : HavingOperand projection (.long v) (some .int64)
  | double (v : F64) : HavingOperand projection (.double v) (some .float64)
  | date {v : String} {d : NaiveDate} (hv : DateParser.parse v = some d) :
    HavingOperand projection (.date v) (some .date32)
  | interval {v : String} {days : Int64} (hv : parseIntervalDays (Text.trim v) = some days) :
    HavingOperand projection (.interval v) (some .intervalDayTime)
  | aggregate {id : String} {args : List SqlExpr} (hitem : SelectsAggregate projection id args) :
    HavingOperand projection (.function id args) none

/-- Comparisons of literals and aggregates of the select list under AND and OR. Literals are compared
with literals of their type. -/
inductive HavingPredicate (projection : List SqlExpr) : SqlExpr → Prop
  | compare {op : String} {l r : SqlExpr} {t u : Option DataType}
      (hop : op ∈ ["=", "!=", "<>", ">", ">=", "<", "<="]) (hl : HavingOperand projection l t)
      (hr : HavingOperand projection r u) (htypes : ∀ a ∈ t, ∀ b ∈ u, a = b) :
    HavingPredicate projection (.binaryExpr l op r)
  | logic {op : String} {l r : SqlExpr} (hop : op ∈ ["AND", "OR"])
      (hl : HavingPredicate projection l) (hr : HavingPredicate projection r) :
    HavingPredicate projection (.binaryExpr l op r)

/-! ### Planned predicates -/

/-- The aggregates of the select list are planned. -/
theorem SelectsAggregate.planned {projection : List SqlExpr} {id : String} {args : List SqlExpr}
    (h : SelectsAggregate projection id args) {items : List LogicalExpr}
    (hitems : projection.mapM createLogicalExpr = .ok items) :
    ∃ fn a, createLogicalExpr (.function id args) = .ok (.aggregateExpr fn a) ∧
      ∃ item ∈ items, isAggregateExpr item = true := by
  rcases h with hmem | ⟨name, hmem⟩
  · obtain ⟨e, hitem, he⟩ := Outcome.mapM_mem_left hitems hmem
    obtain ⟨fn, a, rfl⟩ := createLogicalExpr_function_ok he
    exact ⟨fn, a, he, _, hitem, rfl⟩
  · obtain ⟨item, hitem, he⟩ := Outcome.mapM_mem_left hitems hmem
    rw [createLogicalExpr_aliased] at he
    obtain ⟨e, hfunction, rfl⟩ := Outcome.bind_pure_eq_ok_iff.mp he
    obtain ⟨fn, a, rfl⟩ := createLogicalExpr_function_ok hfunction
    exact ⟨fn, a, hfunction, _, hitem, rfl⟩

/-- An operand is planned as a constant, or as an aggregate. -/
theorem HavingOperand.planned {projection : List SqlExpr} {o : SqlExpr} {t : Option DataType}
    (h : HavingOperand projection o t) {items : List LogicalExpr}
    (hitems : projection.mapM createLogicalExpr = .ok items) :
    ∃ e, createLogicalExpr o = .ok e ∧
      if o.mentionsAggregate then IsRejected e
      else ∃ u v, t = some u ∧ literalType u ∈ [.utf8, .int64, .float64, .date32] ∧
        v.dataType = literalType u ∧ IsConstant e (literalType u) v ∧
        ∀ items row, groupValue items row e = v := by
  -- A literal is the constant it was written as; an aggregate is planned, and rejected when
  -- lowered.
  cases h with
  | string v =>
    exact ⟨_, rfl, .utf8, .utf8 v, rfl, by decide, rfl,
      ⟨fun _ _ => rfl, .literalString v, fun _ => rfl, fun _ => rfl, fun _ _ => rfl⟩, fun _ _ => rfl⟩
  | long v =>
    exact ⟨_, rfl, .int64, .int64 v, rfl, by decide, rfl,
      ⟨fun _ _ => rfl, .literalLong v, fun _ => rfl, fun _ => rfl, fun _ _ => rfl⟩, fun _ _ => rfl⟩
  | double v =>
    exact ⟨_, rfl, .float64, .float64 v, rfl, by decide, rfl,
      ⟨fun _ _ => rfl, .literalDouble v, fun _ => rfl, fun _ => rfl, fun _ _ => rfl⟩, fun _ _ => rfl⟩
  | @date v d hv =>
    refine ⟨.literalDate d, by rw [createLogicalExpr_date, hv], ?_⟩
    exact ⟨.date32, .date32 d.daysSinceUnixEpoch, rfl, by decide, rfl, ⟨fun _ _ => rfl,
      .literalDate d.daysSinceUnixEpoch, fun _ => rfl, fun _ => rfl, fun _ _ => rfl⟩, fun _ _ => rfl⟩
  | @interval v days hv =>
    refine ⟨.literalIntervalDays days, by rw [createLogicalExpr_interval, parseInterval, hv], ?_⟩
    exact ⟨.intervalDayTime, .int64 days, rfl, by decide, rfl, ⟨fun _ _ => rfl,
      .literalIntervalDays days, fun _ => rfl, fun _ => rfl, fun _ _ => rfl⟩, fun _ _ => rfl⟩
  | @aggregate id args hitem =>
    obtain ⟨fn, a, he, -⟩ := hitem.planned hitems
    exact ⟨_, he, fun _ _ => Outcome.not_succeeds_error _⟩

/-- A predicate without aggregates is planned as a constant, any other one as an expression that the
optimizer does not know. -/
theorem HavingPredicate.planned {projection : List SqlExpr} {having : SqlExpr}
    (h : HavingPredicate projection having) {items : List LogicalExpr}
    (hitems : projection.mapM createLogicalExpr = .ok items) :
    ∃ e, createLogicalExpr having = .ok e ∧
      if having.mentionsAggregate then IsRejected e
      else ∃ truth : Truth, IsConstant e .boolean (.ofOptBool truth.toOption) ∧
        ∀ items row, havingTruth items row e = truth := by
  -- An aggregate on the left rejects the whole predicate before the right side is looked at.
  induction h with
  | @compare op l r t u hop hl hr htypes =>
    obtain ⟨le, hle, hlcase⟩ := hl.planned hitems
    obtain ⟨re, hre, hrcase⟩ := hr.planned hitems
    obtain ⟨bop, c, hc, hcreate, hlower⟩ := comparison_planned hop
    refine ⟨.binary bop le re, ?_, ?_⟩
    · rw [createLogicalExpr_binaryExpr, hle, hre, Outcome.ok_bind, Outcome.ok_bind, hcreate]
    · rw [SqlExpr.mentionsAggregate]
      split at hlcase
      · rename_i hmentions
        simpa [hmentions] using isRejected_binary_left hlcase
      · split at hrcase
        · rename_i hmentions
          simpa [hmentions] using isRejected_binary_right hrcase
        -- Two constants: the comparison is one too, and is read the same under any group.
        · rename_i hl' hr'
          obtain ⟨a, v, rfl, hlit, hvtype, hv, hvgroup⟩ := hlcase
          obtain ⟨b, w, rfl, -, hwtype, hw, hwgroup⟩ := hrcase
          obtain rfl := htypes a rfl b rfl
          simp only [hl', hr', Bool.or_self, Bool.false_eq_true, ↓reduceIte]
          refine ⟨v.compares c w, hv.binary hw hlower (compareTyped_literal hlit hvtype hwtype),
            fun items row => ?_⟩
          rw [← hvgroup items row, ← hwgroup items row]
          cases bop <;> cases hc <;> rfl
  | @logic op l r hop hl hr ihl ihr =>
    obtain ⟨le, hle, hlcase⟩ := ihl
    obtain ⟨re, hre, hrcase⟩ := ihr
    obtain ⟨bop, logic, hcreate, hlower, htruth⟩ := logic_planned hop
    refine ⟨.binary bop le re, ?_, ?_⟩
    · rw [createLogicalExpr_binaryExpr, hle, hre, Outcome.ok_bind, Outcome.ok_bind, hcreate]
    · rw [SqlExpr.mentionsAggregate]
      split at hlcase
      · rename_i hmentions
        simpa [hmentions] using isRejected_binary_left hlcase
      · split at hrcase
        · rename_i hmentions
          simpa [hmentions] using isRejected_binary_right hrcase
        · rename_i hl' hr'
          obtain ⟨a, ha, hatruth⟩ := hlcase
          obtain ⟨b, hb, hbtruth⟩ := hrcase
          obtain ⟨c, hc, hctruth⟩ := htruth a b
          simp only [hl', hr', Bool.or_self, Bool.false_eq_true, ↓reduceIte]
          exact ⟨c, ha.binary hb hlower hc, fun items row =>
            hctruth items row le re (hatruth items row) (hbtruth items row)⟩

/-! ## Limited statements -/

variable [Readers] [Runtime]

omit [UnicodeTables] [DateParser] in
/-- A plan with a limit is one of those that yield the batch. -/
theorem queryRows_limited_iff {df : DataFrame} {P : LogicalPlan} {plan : PhysicalPlan}
    {schema : Schema} {item : Result RecordBatch} {executor : ExecutorContext}
    (hopt : optimize df.logicalPlan = .ok P) (hplan : createPhysicalPlan P = .ok plan)
    (hschema : plan.schema = .ok schema) (hexecute : plan.execute executor = .ok [item])
    (hbuilt : ∀ b, item = .ok b → b.Rebuilds schema) (limit : Option Int32) (rows : List Row) :
    queryRows executor (limited df limit).logicalPlan = .ok rows ↔
      ∃ b, item = .ok b ∧ rows = cutTo b.rows limit := by
  -- Without LIMIT the batch is the result; with it, its first rows are rebuilt under the schema.
  cases limit with
  | none =>
    rw [limited, queryRows, executePlan, hopt, Outcome.ok_bind, hplan, Outcome.ok_bind, hexecute,
      Outcome.ok_bind]
    cases item with
    | error e => exact iff_of_false (by rintro ⟨⟩) (by rintro ⟨b, ⟨⟩, -⟩)
    | ok b =>
      rw [streamRows_single, Except.ok.injEq]
      simp only [cutTo, Except.ok.injEq, exists_eq_left']
      exact eq_comm
  | some n =>
    have hlimited : optimize (limited df (some n)).logicalPlan = .ok (.limit P n) := by
      show optimize (.limit df.logicalPlan n) = _
      rw [optimize_limit, hopt]
      rfl
    have hphysical : createPhysicalPlan (.limit P n) = .ok (.limit plan (asUsize n)) := by
      rw [createPhysicalPlan, hplan]
      rfl
    rw [queryRows, executePlan, hlimited, Outcome.ok_bind, hphysical, Outcome.ok_bind,
      PhysicalPlan.execute, hschema, hexecute, Outcome.ok_bind, Outcome.ok_bind,
      Outcome.pure_eq_ok, Outcome.ok_bind]
    cases item with
    | error e =>
      refine iff_of_false ?_ (by rintro ⟨b, ⟨⟩, -⟩)
      cases asUsize n <;> rintro ⟨⟩
    | ok b =>
      have hbuilds : ∀ c ∈ [b], c.Rebuilds schema :=
        fun c hc => List.mem_singleton.mp hc ▸ hbuilt b rfl
      have hrows : streamRows (limitStream schema (asUsize n) ([b].map .ok)) =
          .ok ((rowsOf [b]).take (asUsize n)) := limitStream_rows hbuilds
      rw [rowsOf, List.flatMap_singleton] at hrows
      rw [show [Except.ok b] = [b].map (Except.ok (ε := Panic)) from rfl, hrows, Except.ok.injEq]
      simp only [cutTo, Except.ok.injEq, exists_eq_left']
      exact eq_comm

omit [UnicodeTables] [DateParser] in
/-- A SELECT that returns rows, limited or not, was optimized, planned and started without its
LIMIT. -/
theorem queryRows_limited_ok {df : DataFrame} {executor : ExecutorContext} {limit : Option Int32}
    {rows : List Row} (h : queryRows executor (limited df limit).logicalPlan = .ok rows) :
    ∃ P plan stream, optimize df.logicalPlan = .ok P ∧ createPhysicalPlan P = .ok plan ∧
      plan.execute executor = .ok stream := by
  obtain ⟨stream, hstream, -⟩ := Outcome.bind_eq_ok_iff.mp h
  obtain ⟨P, hopt, hstream⟩ := Outcome.bind_eq_ok_iff.mp hstream
  obtain ⟨plan, hplan, hexecute⟩ := Outcome.bind_eq_ok_iff.mp hstream
  cases limit with
  | none => exact ⟨P, plan, stream, hopt, hplan, hexecute⟩
  | some n =>
    have hlimit : optimize (.limit df.logicalPlan n) = .ok P := hopt
    rw [optimize_limit] at hlimit
    obtain ⟨P', hopt', rfl⟩ := Outcome.map_eq_ok_iff.mp hlimit
    obtain ⟨plan', hplan', rfl⟩ := Outcome.bind_pure_eq_ok_iff.mp hplan
    obtain ⟨schema, -, hexecute⟩ := Outcome.bind_eq_ok_iff.mp hexecute
    obtain ⟨stream', hexecute', -⟩ := Outcome.bind_pure_eq_ok_iff.mp hexecute
    exact ⟨P', plan', stream', hopt', hplan', hexecute'⟩

/-- A projection of an aggregate. -/
def LogicalPlan.IsProjectedAggregate : LogicalPlan → Prop
  | .projection (.aggregate _ _ _) _ => True
  | _ => False

omit [UnicodeTables] [DateParser] in
/-- A projection of an aggregate yields one batch. -/
theorem LogicalPlan.IsProjectedAggregate.single {L P : LogicalPlan} (h : L.IsProjectedAggregate)
    {plan : PhysicalPlan} {executor : ExecutorContext} {stream : BatchStream}
    (hopt : optimize L = .ok P) (hplan : createPhysicalPlan P = .ok plan)
    (hexecute : plan.execute executor = .ok stream) :
    ∃ item schema, stream = [item] ∧ plan.schema = .ok schema ∧
      ∀ b, item = .ok b → b.Rebuilds schema := by
  unfold IsProjectedAggregate at h
  split at h
  · have hbuilds := LogicalPlan.Builds.lowered (P := .projection _ _) trivial hopt hplan
    obtain ⟨schema, hschema, hrebuilds⟩ := hbuilds.rebuilds hexecute
    obtain ⟨⟨pushed, names⟩, hpush, rfl⟩ := Outcome.bind_pure_eq_ok_iff.mp hopt
    obtain ⟨names₁, -, hpush⟩ := Outcome.bind_eq_ok_iff.mp hpush
    obtain ⟨⟨input', names₂⟩, hinput, heq⟩ := Outcome.bind_pure_eq_ok_iff.mp hpush
    obtain ⟨rfl, rfl⟩ := Prod.mk.inj heq
    obtain ⟨names₃, -, hinput⟩ := Outcome.bind_eq_ok_iff.mp hinput
    obtain ⟨names₄, -, hinput⟩ := Outcome.bind_eq_ok_iff.mp hinput
    obtain ⟨⟨input'', names₅⟩, -, heq⟩ := Outcome.bind_pure_eq_ok_iff.mp hinput
    obtain ⟨rfl, rfl⟩ := Prod.mk.inj heq
    obtain ⟨sub, hsub, hplan⟩ := Outcome.bind_eq_ok_iff.mp hplan
    obtain ⟨es, -, hplan⟩ := Outcome.bind_eq_ok_iff.mp hplan
    obtain ⟨fields, -, rfl⟩ := Outcome.bind_pure_eq_ok_iff.mp hplan
    obtain ⟨sub', -, hsub⟩ := Outcome.bind_eq_ok_iff.mp hsub
    obtain ⟨group, -, hsub⟩ := Outcome.bind_eq_ok_iff.mp hsub
    obtain ⟨aggregate, -, hsub⟩ := Outcome.bind_eq_ok_iff.mp hsub
    obtain ⟨schema', -, rfl⟩ := Outcome.bind_pure_eq_ok_iff.mp hsub
    -- An aggregate yields one batch, and a projection maps it to one.
    obtain ⟨source, hsource, rfl⟩ := Outcome.bind_pure_eq_ok_iff.mp hexecute
    obtain ⟨batches, -, hsource⟩ := Outcome.bind_eq_ok_iff.mp hsource
    obtain ⟨out, -, rfl⟩ := Outcome.bind_pure_eq_ok_iff.mp hsource
    exact ⟨_, schema, rfl, hschema, fun b hb => hrebuilds b (hb ▸ List.mem_singleton_self _)⟩
  · exact h.elim

/-! ## Planned clauses -/

namespace SqlPlanner

/-- The statement without its `HAVING` clause. -/
def withoutHaving (select : SqlSelect) : SqlSelect := { select with having := none }

end SqlPlanner

omit [Runtime] in
/-- The filter of the clause is put on the projection that the statement is without it. -/
theorem createDataFrame_withoutHaving {select : SqlSelect} {tables : Tables} {df : DataFrame}
    {id : String} {args : List SqlExpr} (haggregate : SelectsAggregate select.projection id args)
    (h : createDataFrame (withoutHaving select) tables = .ok df) :
    ∃ items plan, select.projection.mapM createLogicalExpr = .ok items ∧
      plan.logicalPlan.IsProjectedAggregate ∧ df = limited plan select.limit ∧
      ∀ having e, select.having = some having → createLogicalExpr having = .ok e →
        createDataFrame select tables = .ok (limited (plan.filter e) select.limit) := by
  obtain ⟨table, items, inSelection, htable, hitems, hselection, hbranch⟩ :=
    createDataFrame_eq_ok_iff.mp h
  obtain ⟨-, -, -, item, hitem, haggr⟩ := haggregate.planned hitems
  rcases hbranch with ⟨hall, -, -⟩ | ⟨hany, hplan⟩
  · have hnot := List.all_eq_true.mp hall item hitem
    rw [haggr] at hnot
    cases hnot
  obtain ⟨projection, aggr, plan, filtered, hsplit, hquery, hfiltered, rfl⟩ :=
    planAggregateSelect_eq_ok_iff.mp hplan
  obtain rfl : plan.project projection = filtered := Except.ok.inj hfiltered
  obtain ⟨input, group, -, rfl, -⟩ := planAggregateQuery_ok hquery
  refine ⟨items, (input.aggregate group aggr).project projection, hitems, trivial, rfl,
    fun having e hhaving he => ?_⟩
  refine createDataFrame_eq_ok_iff.mpr ⟨table, items, inSelection, htable, hitems, hselection,
    .inr ⟨hany, planAggregateSelect_eq_ok_iff.mpr ⟨projection, aggr, _, _, hsplit, hquery, ?_, rfl⟩⟩⟩
  rw [hhaving, havingFilter, he]
  rfl

/-! ## The clause -/

/-- The statement returns the rows that it returns without its clause and of whose groups the clause
is TRUE. -/
def ExecutionContext.HonoursHaving (ctx : ExecutionContext) (executor : ExecutorContext)
    (select : SqlSelect) (having : SqlExpr) : Prop :=
  ∃ items e rows, select.projection.mapM createLogicalExpr = .ok items ∧
    createLogicalExpr having = .ok e ∧
    ctx.selectRows executor (withoutHaving select) = .ok rows ∧
    ctx.selectRows executor select =
      .ok (rows.filter fun row => havingTruth items row e = .isTrue)

omit [UnicodeTables] [DateParser] [Readers] in
/-- A constant keeps all rows of a batch or none. -/
theorem filterBatch_constant {schema : Schema} {p : Expression} {b : RecordBatch} {truth : Truth}
    (hb : b.Rebuilds schema) (htype : p.dataType b.types = .ok .boolean)
    (hcell : ∀ row, p.evalCell b.types row = .ok (.ofOptBool truth.toOption)) :
    ∃ out, filterBatch schema p b = .ok out ∧ out.schema = schema ∧
      out.rows = b.rows.filter fun _ => truth = .isTrue := by
  obtain ⟨htypes, hne, hbuilder⟩ := hb
  have hfits : ∀ r ∈ b.rows.filter fun _ => truth = .isTrue, RowFits schema.types r := fun r hr =>
    htypes ▸ b.types_eq_schema ▸ b.rows_fit r (List.mem_of_mem_filter hr)
  have hrows := RecordBatch.ofRows_rows schema _ hfits
  refine ⟨.ofRows schema _ hfits, filterBatch_eq_ok_iff.mpr ⟨⟨_, htype⟩,
    b.rows.map fun _ => .ofOptBool truth.toOption, Outcome.mapM_eq_ok_map fun r _ => hcell r, rfl,
    htypes, hne, hbuilder, ?_⟩, rfl, hrows⟩
  rw [hrows]
  generalize b.rows = rows
  induction rows with
  | nil => rfl
  | cons r rows ih =>
    unfold keepTrue at ih ⊢
    rw [List.map_cons, List.zip_cons_cons, List.filter_cons, List.filter_cons]
    cases truth <;> simpa [Truth.toOption, ScalarValue.ofOptBool] using ih

/-- A `HAVING` clause is honoured if and only if there is no aggregate in it. -/
theorem honoursHaving_iff {ctx : ExecutionContext} {executor : ExecutorContext}
    {select : SqlSelect} {having : SqlExpr} {id : String} {args : List SqlExpr} {rows : List Row}
    (haggregate : SelectsAggregate select.projection id args) (hhaving : select.having = some having)
    (hpredicate : HavingPredicate select.projection having)
    (hrows : ctx.selectRows executor (withoutHaving select) = .ok rows) :
    ctx.HonoursHaving executor select having ↔ having.mentionsAggregate = false := by
  obtain ⟨df, hdf, hquery⟩ := Outcome.bind_eq_ok_iff.mp hrows
  obtain ⟨items, plan, hitems, hsingle, rfl, hcreate⟩ :=
    createDataFrame_withoutHaving haggregate hdf
  obtain ⟨e, he, hcase⟩ := hpredicate.planned hitems
  have hcreate := hcreate having e hhaving he
  constructor
  · rintro ⟨_, _, _, -, -, -, hselect⟩
    rw [ExecutionContext.selectRows, hcreate, Outcome.ok_bind] at hselect
    obtain ⟨P, -, -, hopt, -⟩ := queryRows_limited_ok hselect
    obtain ⟨pushed, hpush, -⟩ := Outcome.bind_pure_eq_ok_iff.mp hopt
    have hextract := Outcome.Succeeds.of_bind ⟨pushed, hpush⟩
    by_contra hmentions
    rw [if_pos (Bool.eq_true_of_not_eq_false hmentions)] at hcase
    exact hcase _ _ hextract
  · intro hmentions
    rw [if_neg (by rw [hmentions]; decide)] at hcase
    obtain ⟨truth, hconstant, htruth⟩ := hcase
    obtain ⟨p, hp, hptype, hpcell⟩ := hconstant.lower
    obtain ⟨P, physical, stream, hopt, hplan, hexecute⟩ := queryRows_limited_ok hquery
    obtain ⟨item, schema, rfl, hschema, hbuilt⟩ := hsingle.single hopt hplan hexecute
    obtain ⟨b, rfl, rfl⟩ :=
      (queryRows_limited_iff hopt hplan hschema hexecute hbuilt select.limit rows).mp hquery
    obtain ⟨out, hout, hschema', hrows'⟩ :=
      filterBatch_constant (hbuilt b rfl) (hptype _) (hpcell _)
    have hopt' : optimize (plan.filter e).logicalPlan = .ok (.selection P e) := by
      obtain ⟨pushed, hpush, rfl⟩ := Outcome.bind_pure_eq_ok_iff.mp hopt
      show optimize (.selection plan.logicalPlan e) = _
      rw [optimize, pushDown, hconstant.extract, Outcome.ok_bind, hpush]
      rfl
    have hplan' : createPhysicalPlan (.selection P e) = .ok (.selection physical p) := by
      rw [createPhysicalPlan, hplan, hp]
      rfl
    have hexecute' : (PhysicalPlan.selection physical p).execute executor = .ok [.ok out] := by
      rw [PhysicalPlan.execute, hschema, hexecute, Outcome.ok_bind, Outcome.ok_bind, ← hout]
      rfl
    have hbuilt' : ∀ c, (Except.ok out : Result RecordBatch) = .ok c → c.Rebuilds schema := by
      rintro c ⟨⟩
      obtain ⟨-, hne, hbuilder⟩ := hbuilt b rfl
      exact ⟨hschema' ▸ out.types_eq_schema, hne, hbuilder⟩
    have hphysical : (PhysicalPlan.selection physical p).schema = .ok schema := hschema
    have hselect := (queryRows_limited_iff hopt' hplan' hphysical hexecute' hbuilt' select.limit
      (cutTo out.rows select.limit)).mpr ⟨out, rfl, rfl⟩
    have hrun : ctx.selectRows executor select = .ok (cutTo out.rows select.limit) := by
      rw [ExecutionContext.selectRows, hcreate, Outcome.ok_bind, hselect]
    have hcut : cutTo (b.rows.filter fun _ => truth = .isTrue) select.limit =
        (cutTo b.rows select.limit).filter fun _ => truth = .isTrue := by
      by_cases htrue : truth = .isTrue
      · simp [htrue]
      · cases select.limit <;> simp [htrue, cutTo]
    refine ⟨items, e, _, hitems, he, hrows, ?_⟩
    rw [hrun, hrows', hcut]
    simp only [htruth]

end

section

attribute [local instance] integerFloats insertionOrderRuntime asciiTables

local instance noGroupFiles : Readers := parquetDisk fun _ => none

local instance noGroupDates : DateParser := ⟨fun _ => none, DateParser.none_range⟩

/-- `MAX(a)`. -/
def maxOfA : SqlExpr := .function "MAX" [.identifier "a"]

/-- `SELECT MAX(a) FROM t HAVING ...`. -/
def selectMaximum (having : SqlExpr) : SqlSelect :=
  ⟨[maxOfA], none, [], [], some having, none, "t"⟩

/-- `HAVING 2 <= 1` leaves no group. -/
theorem honoursHaving_iff_literals :
    threeRowsContext.HonoursHaving ⟨"", "", 0, ⟨[]⟩⟩
      (selectMaximum (.binaryExpr (.long 2) "<=" (.long 1))) (.binaryExpr (.long 2) "<=" (.long 1)) := by
  have hpredicate : HavingPredicate [maxOfA] (.binaryExpr (.long 2) "<=" (.long 1)) :=
    .compare (by decide) (.long 2) (.long 1) (by simp)
  have hrows : threeRowsContext.selectRows ⟨"", "", 0, ⟨[]⟩⟩
      (withoutHaving (selectMaximum (.binaryExpr (.long 2) "<=" (.long 1)))) =
        .ok [[.int32 3]] := by decide +kernel
  exact (honoursHaving_iff (.inl List.mem_cons_self) rfl hpredicate hrows).mpr rfl

/-- `HAVING MAX(a) = MAX(a)` panics. -/
theorem having_aggregate_panics :
    HavingPredicate [maxOfA] (.binaryExpr maxOfA "=" maxOfA) ∧
      threeRowsContext.selectRows ⟨"", "", 0, ⟨[]⟩⟩
        (withoutHaving (selectMaximum (.binaryExpr maxOfA "=" maxOfA))) = .ok [[.int32 3]] ∧
      ¬ threeRowsContext.HonoursHaving ⟨"", "", 0, ⟨[]⟩⟩
        (selectMaximum (.binaryExpr maxOfA "=" maxOfA)) (.binaryExpr maxOfA "=" maxOfA) := by
  refine ⟨?_, by decide +kernel, ?_⟩
  · have hoperand : HavingOperand [maxOfA] maxOfA none := .aggregate (.inl List.mem_cons_self)
    exact .compare (by decide) hoperand hoperand (by simp)
  · rintro ⟨_, _, rows, -, -, -, hrows⟩
    have hpanics : ¬ Outcome.Succeeds (threeRowsContext.selectRows ⟨"", "", 0, ⟨[]⟩⟩
        (selectMaximum (.binaryExpr maxOfA "=" maxOfA))) := by decide +kernel
    exact hpanics ⟨_, hrows⟩

end

end RQuery
