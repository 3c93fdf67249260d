import RQuery.Optimizer.ProjectionPushDown
import RQuery.QueryPlanner.QueryPlanner
import RQuery.Sql.Planner
import Mathlib.Data.Finset.Lattice.Lemmas

/-!
# The column collectors

The names an expression refers to are collected twice, by `visit` for the SQL planner and by
`extract_columns` for the optimizer, and are looked up a third time when `create_physical_expr`
lowers the expression.

`extractColumns_eq_columns` and `lookups_iff` say that the last two go by all names of the
expression. `visit` passes over casts and date arithmetic (`visit_eq_orderedExtend`), so that it
agrees with them exactly where leaving these out changes nothing (`collectorsAgree_iff`).
-/

namespace RQuery

section

variable [FloatModel]

/-! ## The names of an expression -/

namespace LogicalExpr

/-- The expression with every aggregate replaced by its argument. -/
def unwrapAggregates : LogicalExpr → LogicalExpr
  | aggregateExpr _ e => e.unwrapAggregates
  | dateSubtractInterval d i => dateSubtractInterval d.unwrapAggregates i.unwrapAggregates
  | dateAddInterval d i => dateAddInterval d.unwrapAggregates i.unwrapAggregates
  | cast e t => cast e.unwrapAggregates t
  | not e => not e.unwrapAggregates
  | binary op l r => binary op l.unwrapAggregates r.unwrapAggregates
  | aliased e name => aliased e.unwrapAggregates name
  | e => e

/-- The column names outside of casts and date arithmetic. -/
def plainColumns : LogicalExpr → List String
  | column name => [name]
  | aliased e _ | aggregateExpr _ e => e.plainColumns
  | binary _ l r => l.plainColumns ++ r.plainColumns
  | _ => []

/-- Unwrapping aggregates keeps the columns. -/
@[simp] theorem columns_unwrapAggregates (e : LogicalExpr) :
    e.unwrapAggregates.columns = e.columns := by
  induction e <;> simp_all [unwrapAggregates, columns]

/-- It keeps the indices, too. -/
@[simp] theorem indices_unwrapAggregates (e : LogicalExpr) :
    e.unwrapAggregates.indices = e.indices := by
  induction e <;> simp_all [unwrapAggregates, indices]

end LogicalExpr

/-! ## The SQL planner's collector -/

omit [FloatModel] in
/-- A list is extended by two lists one after the other. -/
theorem orderedExtend_append (target xs ys : List String) :
    orderedExtend target (xs ++ ys) = orderedExtend (orderedExtend target xs) ys := by
  simp [orderedExtend]

omit [FloatModel] in
/-- Extending the empty list keeps the first occurrences. -/
theorem orderedExtend_nil (xs : List String) : orderedExtend [] xs = KeyedFold.firstKeys xs := by
  induction xs using List.reverseRecOn with
  | nil => rfl
  | append_singleton xs x ih =>
    rw [orderedExtend_append, ih, KeyedFold.firstKeys_append_singleton]
    simp [orderedExtend]

/-- `visit` appends the new names outside of casts and date arithmetic, in their order. -/
theorem visit_eq_orderedExtend (e : LogicalExpr) (acc : List String) :
    visit e acc = orderedExtend acc e.plainColumns := by
  induction e generalizing acc with
  | column name => rfl
  | aliased e name ih => exact ih acc
  | aggregateExpr fn e ih => exact ih acc
  | binary op l r ihl ihr =>
    rw [visit, LogicalExpr.plainColumns, orderedExtend_append, ihl, ihr]
  | _ => rfl

/-- `visit` lists the plain columns in the order of their first occurrences. -/
theorem visit_nil (e : LogicalExpr) : visit e [] = KeyedFold.firstKeys e.plainColumns := by
  rw [visit_eq_orderedExtend, orderedExtend_nil]

/-! ## The optimizer's collector -/

/-- Without indices, `extract_columns` collects all names, whatever the input. -/
theorem extractColumns_eq_columns (input : Result Schema) {e : LogicalExpr} (hsup : e.Supported)
    (hindices : e.indices = []) (accum : Finset String) :
    extractColumns input accum e = .ok (accum ∪ e.columns.toFinset) := by
  induction e generalizing accum with
  | column name =>
    rw [extractColumns]
    congr 1
    ext n
    simp [LogicalExpr.columns]
  | columnIndex i => simp [LogicalExpr.indices] at hindices
  | literalFloat f => exact hsup.elim
  | not e => exact hsup.elim
  | scalarFunction name t => exact hsup.elim
  | aggregateExpr fn e => exact hsup.elim
  | aliased e name ih => exact ih hsup hindices accum
  | cast e t ih => exact ih hsup hindices accum
  | dateSubtractInterval l r ihl ihr | dateAddInterval l r ihl ihr | binary op l r ihl ihr =>
    obtain ⟨hl, hr⟩ := List.append_eq_nil_iff.mp hindices
    rw [extractColumns, ihl hsup.1 hl, Outcome.ok_bind, ihr hsup.2 hr]
    congr 1
    ext n
    simp [LogicalExpr.columns]
  | _ => simp [extractColumns, LogicalExpr.columns]

/-! ## The names that are looked up -/

/-- A computation that records the names it looks up, also where it panics later. -/
abbrev Lookups := ExceptT Panic (StateM (List String))

namespace Lookups

variable {α β : Type}

/-- Run a computation after the given lookups. -/
def after (log : List String) (x : Lookups α) : Result α × List String := x.run.run log

/-- A computation that looks nothing up. -/
def lift (x : Result α) : Lookups α := ExceptT.mk (pure x)

/-- The position of the first field of a name. -/
def fieldPosition (schema : Schema) (name : String) : Lookups ℕ := do
  modify fun log => log ++ [name]
  lift (RQuery.fieldPosition schema name)

omit [FloatModel] in
/-- A result looks nothing up. -/
theorem after_lift_iff {x : Result α} {a : α} {log log' : List String} :
    after log (lift x) = (.ok a, log') ↔ x = .ok a ∧ log' = log := by
  rw [show after log (lift x) = (x, log) from rfl, Prod.mk.injEq, eq_comm (a := log)]

omit [FloatModel] in
/-- Nor does a value. -/
theorem after_pure_iff {a b : α} {log log' : List String} :
    after log (pure a) = (.ok b, log') ↔ a = b ∧ log' = log := by
  rw [show after log (pure a) = (.ok a, log) from rfl, Prod.mk.injEq, Except.ok.injEq,
    eq_comm (a := log)]

omit [FloatModel] in
/-- A sequence looks up what its parts do, in this order. -/
theorem after_bind_iff {x : Lookups α} {f : α → Lookups β} {b : β} {log log' : List String} :
    after log (x >>= f) = (.ok b, log') ↔
      ∃ a log₁, after log x = (.ok a, log₁) ∧ after log₁ (f a) = (.ok b, log') := by
  have hbind : after log (x >>= f) = match after log x with
      | (.ok a, log₁) => after log₁ (f a)
      | (.error e, log₁) => (.error e, log₁) := by
    unfold after
    rw [ExceptT.run_bind, StateT.run_bind]
    show (match x.run.run log with | (r, log₁) => _) = _
    rcases x.run.run log with ⟨_ | a, log₁⟩ <;> rfl
  rw [hbind]
  rcases after log x with ⟨_ | a, log₁⟩
  · simp
  · simp

omit [FloatModel] in
/-- Finding a column is the one step that looks a name up. -/
theorem after_fieldPosition_iff {schema : Schema} {name : String} {i : ℕ}
    {log log' : List String} :
    after log (fieldPosition schema name) = (.ok i, log') ↔
      RQuery.fieldPosition schema name = .ok i ∧ log' = log ++ [name] := by
  show after (log ++ [name]) (lift (RQuery.fieldPosition schema name)) = (.ok i, log') ↔ _
  exact after_lift_iff

end Lookups

/-- `create_physical_expr`, recording the names that it looks up. -/
def lowerExpr (input : Result Schema) : LogicalExpr → Lookups Expression
  | .literalLong n => pure (.literalLong n)
  | .literalDouble n => pure (.literalDouble n)
  | .literalString s => pure (.literalString s)
  | .literalDate date => pure (.literalDate date.daysSinceUnixEpoch)
  | .literalIntervalDays days => pure (.literalIntervalDays days)
  | .dateSubtractInterval date interval => do
    let date ← lowerExpr input date
    return DateSubtractIntervalExpression date (← lowerExpr input interval)
  | .dateAddInterval date interval => do
    let date ← lowerExpr input date
    return DateAddIntervalExpression date (← lowerExpr input interval)
  | .columnIndex i => pure (.column i)
  | .column name => do return .column (← Lookups.fieldPosition (← Lookups.lift input) name)
  | .aliased e _ => lowerExpr input e
  | .cast e t => do return .cast (← lowerExpr input e) t
  | .binary op l r =>
    -- The operands of `modulus` are never lowered.
    if op = .modulus then throw (.unsupported "binary expression: modulus")
    else do
      let l ← lowerExpr input l
      let r ← lowerExpr input r
      Lookups.lift (op.createExpression l r)
  | .literalFloat _ => throw (.unsupported "LiteralFloat")
  | .not _ => throw (.unsupported "logical expression: NOT")
  | .scalarFunction name _ => throw (.unsupported ("scalar function '" ++ name ++ "'"))
  | .aggregateExpr _ _ => throw (.unsupported "aggregate as a scalar expression")

namespace Lookups

omit [FloatModel] in
/-- An error returns nothing. -/
theorem after_throw_ne {α : Type} {a : α} {e : Panic} {log log' : List String} :
    after log (throw e : Lookups α) ≠ (.ok a, log') := by
  intro h
  cases h

end Lookups

/-- A lowering that succeeds has looked up the names of the expression, in their order. -/
theorem lookups_iff {input : Result Schema} {e : LogicalExpr} {p : Expression}
    {log log' : List String} :
    Lookups.after log (lowerExpr input e) = (.ok p, log') ↔
      createPhysicalExpr input e = .ok p ∧ log' = log ++ e.columns := by
  have hliteral : ∀ {q p : Expression} {log log' : List String},
      Lookups.after log (pure q) = (.ok p, log') ↔
        (Except.ok q : Result Expression) = .ok p ∧ log' = log ++ [] := by
    intro q p log log'
    rw [Lookups.after_pure_iff, Except.ok.injEq, List.append_nil]
  have hoperands : ∀ {l r : LogicalExpr} {f : Expression → Expression → Result Expression}
      {p : Expression} {log log' : List String},
      (∀ {p log log'}, Lookups.after log (lowerExpr input l) = (.ok p, log') ↔
        createPhysicalExpr input l = .ok p ∧ log' = log ++ l.columns) →
      (∀ {p log log'}, Lookups.after log (lowerExpr input r) = (.ok p, log') ↔
        createPhysicalExpr input r = .ok p ∧ log' = log ++ r.columns) →
      (Lookups.after log (do
          let l ← lowerExpr input l
          let r ← lowerExpr input r
          Lookups.lift (f l r)) = (.ok p, log') ↔
        (do
          let l ← createPhysicalExpr input l
          f l (← createPhysicalExpr input r)) = .ok p ∧ log' = log ++ (l.columns ++ r.columns)) := by
    intro l r f p log log' hl hr
    simp only [Lookups.after_bind_iff, hl, hr, Lookups.after_lift_iff, Outcome.bind_eq_ok_iff]
    constructor
    · rintro ⟨q, _, ⟨hq, rfl⟩, q', _, ⟨hq', rfl⟩, hp, rfl⟩
      exact ⟨⟨q, hq, q', hq', hp⟩, List.append_assoc _ _ _⟩
    · rintro ⟨⟨q, hq, q', hq', hp⟩, rfl⟩
      exact ⟨q, _, ⟨hq, rfl⟩, q', _, ⟨hq', rfl⟩, hp, (List.append_assoc _ _ _).symm⟩
  induction e generalizing p log log' with
  | column name =>
    simp only [lowerExpr, Lookups.after_bind_iff, Lookups.after_lift_iff,
      Lookups.after_fieldPosition_iff, Lookups.after_pure_iff, createPhysicalExpr,
      Outcome.bind_eq_ok_iff, Outcome.pure_eq_ok, Except.ok.injEq, LogicalExpr.columns]
    constructor
    · rintro ⟨schema, _, ⟨hs, rfl⟩, i, _, ⟨hi, rfl⟩, hp, rfl⟩
      exact ⟨⟨schema, hs, i, hi, hp⟩, rfl⟩
    · rintro ⟨⟨schema, hs, i, hi, hp⟩, rfl⟩
      exact ⟨schema, _, ⟨hs, rfl⟩, i, _, ⟨hi, rfl⟩, hp, rfl⟩
  | aliased e name ih => exact ih
  | cast e t ih =>
    simp only [lowerExpr, Lookups.after_bind_iff, ih, Lookups.after_pure_iff, createPhysicalExpr,
      Outcome.bind_pure_eq_ok_iff, LogicalExpr.columns]
    constructor
    · rintro ⟨q, _, ⟨hq, rfl⟩, rfl, rfl⟩
      exact ⟨⟨q, hq, rfl⟩, rfl⟩
    · rintro ⟨⟨q, hq, rfl⟩, rfl⟩
      exact ⟨q, _, ⟨hq, rfl⟩, rfl, rfl⟩
  | dateSubtractInterval l r ihl ihr | dateAddInterval l r ihl ihr => exact hoperands ihl ihr
  | binary op l r ihl ihr =>
    by_cases hop : op = .modulus
    · subst hop
      refine iff_of_false Lookups.after_throw_ne fun h => ?_
      obtain ⟨q, -, h⟩ := Outcome.bind_eq_ok_iff.mp h.1
      obtain ⟨q', -, h⟩ := Outcome.bind_eq_ok_iff.mp h
      cases h
    · rw [lowerExpr, if_neg hop]
      exact hoperands ihl ihr
  | literalFloat f | not e | scalarFunction name t | aggregateExpr fn e =>
    refine iff_of_false Lookups.after_throw_ne fun h => ?_
    cases h.1
  | _ => exact hliteral

/-! ## Agreement -/

/-- The names collected by `visit` are those that the optimizer collects from the expression with its
aggregates unwrapped and those that its lowering looks up, each listed once, in the order of the
first occurrences in the expression. -/
structure CollectorsAgree (e : LogicalExpr) : Prop where
  extracted (input : Result Schema) :
    extractColumns input ∅ e.unwrapAggregates = .ok (visit e []).toFinset
  lookedUp {input : Result Schema} {p : Expression} {names : List String}
    (h : Lookups.after [] (lowerExpr input e.unwrapAggregates) = (.ok p, names)) :
    names.toFinset = (visit e []).toFinset
  once : (visit e []).Nodup
  inOrder : visit e [] = KeyedFold.firstKeys e.columns

omit [FloatModel] in
/-- The first occurrences are the names. -/
theorem toFinset_firstKeys (names : List String) :
    (KeyedFold.firstKeys names).toFinset = names.toFinset := by
  ext name
  rw [List.mem_toFinset, List.mem_toFinset, KeyedFold.mem_firstKeys]

/-- The collectors agree exactly on the expressions where leaving out the names in casts and date
arithmetic changes neither the names nor the order of their first occurrences. -/
theorem collectorsAgree_iff (e : LogicalExpr) (hsup : e.unwrapAggregates.Supported)
    (hindices : e.indices = []) :
    CollectorsAgree e ↔ KeyedFold.firstKeys e.plainColumns = KeyedFold.firstKeys e.columns := by
  constructor
  · intro h
    rw [← visit_nil, h.inOrder]
  · intro h
    have hvisit : visit e [] = KeyedFold.firstKeys e.columns := (visit_nil e).trans h
    refine ⟨fun input => ?_, fun {input p names} hlower => ?_, ?_, hvisit⟩
    · rw [extractColumns_eq_columns input hsup (by simpa using hindices), hvisit,
        toFinset_firstKeys, LogicalExpr.columns_unwrapAggregates, Finset.empty_union]
    · obtain ⟨-, rfl⟩ := lookups_iff.mp hlower
      rw [hvisit, toFinset_firstKeys, LogicalExpr.columns_unwrapAggregates, List.nil_append]
    · rw [hvisit]
      exact KeyedFold.nodup_firstKeys e.columns

end

section

attribute [local instance] integerFloats

/-- `SUM(a * b) > a`, whose names the collectors agree on. -/
def sumOverA : LogicalExpr :=
  .binary .gt (.aggregateExpr .sum (.binary .multiply (.column "a") (.column "b"))) (.column "a")

/-- They agree on a sum over one column. -/
theorem collectorsAgree_sumOverA : CollectorsAgree sumOverA :=
  (collectorsAgree_iff sumOverA (by simp [sumOverA, LogicalExpr.unwrapAggregates,
    LogicalExpr.Supported]) rfl).mpr (by decide)

/-- `CAST(a AS DOUBLE)`. -/
def castOfA : LogicalExpr := .cast (.column "a") .float64

/-- `CAST(a AS DOUBLE)` refers to `a`, which `visit` does not collect. -/
theorem castOfA_not_collectorsAgree :
    castOfA.unwrapAggregates.Supported ∧ castOfA.indices = [] ∧ ¬ CollectorsAgree castOfA := by
  refine ⟨trivial, rfl, fun h => ?_⟩
  have hextracted := h.extracted (.ok ⟨[]⟩)
  simp [castOfA, LogicalExpr.unwrapAggregates, extractColumns, visit] at hextracted

end

end RQuery
