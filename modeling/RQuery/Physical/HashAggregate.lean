import RQuery.Physical.Accumulator
import RQuery.Datatypes.RowBuilder
import RQuery.Common.KeyedFold
import RQuery.DataSource.Sources

/-!
# Hash aggregation

`HashAggregateExec` folds every input row into the accumulators of its group, in a hash map keyed by
the group values, and emits one batch with a row for each group: the group values followed by the
aggregates. The iteration order of the map is the runtime's.

`run_eq_ok_iff` gives the meaning row by row. A row of the input is read as a keyed row, its group
values and the inputs of its aggregates; the groups are the distinct keys, and the accumulators of
a group are the fold over its rows.
-/

namespace RQuery

variable [FloatModel]

/-- The hash-map key of one group. -/
abbrev GroupKey := List ScalarValue

/-- `scalar_key_eq`: floats by bit pattern, everything else by the derived equality. -/
def scalarKeyEq : ScalarValue → ScalarValue → Bool
  | .float32 x, .float32 y => FloatModel.single.toBits x == FloatModel.single.toBits y
  | .float64 x, .float64 y => FloatModel.double.toBits x == FloatModel.double.toBits y
  | a, b => a = b

/-- Group values are the same key exactly when they are the same value. -/
theorem scalarKeyEq_iff {a b : ScalarValue} : scalarKeyEq a b = true ↔ a = b := by
  unfold scalarKeyEq
  split
  · simpa using FloatModel.single.toBits_injective.eq_iff
  · simpa using FloatModel.double.toBits_injective.eq_iff
  · simp

/-- `HashAggregateExec` without its input and mode. -/
structure HashAggregate where
  groupExpr : List Expression
  aggregateExpr : List AggregateExpression
  schema : Schema
  deriving DecidableEq

namespace HashAggregate

variable [Runtime]

/-- The map from group keys to accumulators, in insertion order. -/
abbrev GroupMap := List (GroupKey × List Accumulator)

/-- The accumulators of a new group. -/
def createAccumulators (agg : HashAggregate) : List Accumulator :=
  agg.aggregateExpr.map fun a => Accumulator.create a.function

/-- Fold the aggregate inputs of a row into the accumulators of its group. -/
def stepAll (mode : AggregateMode) : List Accumulator → List ScalarValue →
    Result (List Accumulator) :=
  Table.stepRow (.other "aggr_inputs[i]: index out of bounds") (Accumulator.step mode)

/-- The group values and the aggregate inputs of row `row` of the evaluated columns. -/
def readRow (groupKeys aggrInputs : List ColumnVector) (row : ℕ) :
    Result (GroupKey × List ScalarValue) := do
  let key ← groupKeys.mapM fun c => c.value row
  return (key, ← aggrInputs.mapM fun c => c.value row)

/-- Fold one input batch into the map. -/
def processBatch (agg : HashAggregate) (mode : AggregateMode) (m : GroupMap)
    (batch : RecordBatch) : Result GroupMap := do
  let groupKeys ← agg.groupExpr.mapM fun e => e.evaluate batch
  let aggrInputs ← agg.aggregateExpr.mapM fun a => a.inputExpression.evaluate batch
  (List.range batch.numRows).foldlM
    (fun m row => do
      let x ← readRow groupKeys aggrInputs row
      KeyedFold.upsert agg.createAccumulators (fun accs => stepAll mode accs x.2) m x.1) m

/-- The output row of one group. -/
def outputRow (mode : AggregateMode) (group : GroupKey × List Accumulator) : Result Row := do
  return group.1 ++ (← group.2.mapM fun acc => acc.output mode)

/-- `HashAggregateExec::execute` on the batches of its input. -/
def run (agg : HashAggregate) (mode : AggregateMode) (input : BatchStream) :
    Result RecordBatch := do
  let m ← input.foldlM (fun m item => do agg.processBatch mode m (← item)) []
  let rows ← (Runtime.mapOrder m).mapM (outputRow mode)
  buildRows agg.schema rows

/-! ## The rows of an aggregation -/

/-- A keyed row: the values of the group expressions and the inputs of the aggregates. -/
abbrev Item := GroupKey × List ScalarValue

/-- The expressions evaluated on every input batch. -/
def expressions (agg : HashAggregate) : List Expression :=
  agg.groupExpr ++ agg.aggregateExpr.map AggregateExpression.inputExpression

/-- The keyed row that the expressions make of an input row. -/
def readItem (agg : HashAggregate) (types : List DataType) (row : Row) : Result Item := do
  let key ← agg.groupExpr.mapM fun e => e.evalCell types row
  return (key, ← agg.aggregateExpr.mapM fun a => a.inputExpression.evalCell types row)

/-- The keyed rows of a batch, whose column types the expressions must accept. -/
def readBatch (agg : HashAggregate) (b : RecordBatch) : Result (List Item) := do
  let _ ← agg.expressions.mapM fun e => e.dataType b.types
  b.rows.mapM (agg.readItem b.types)

/-- The map that a list of keyed rows is folded into. -/
def groups (agg : HashAggregate) (mode : AggregateMode) (items : List Item) : Result GroupMap :=
  KeyedFold.foldKeyed agg.createAccumulators (stepAll mode) items []

variable {agg : HashAggregate} {mode : AggregateMode}

/-- Reading the evaluated columns at a row reads the row. -/
theorem readRow_eq {b : RecordBatch} {groupKeys aggrInputs : List ColumnVector}
    (hkeys : agg.groupExpr.mapM (fun e => e.evaluate b) = .ok groupKeys)
    (hinputs : agg.aggregateExpr.mapM (fun a => a.inputExpression.evaluate b) = .ok aggrInputs)
    {i : ℕ} (hi : i < b.numRows) :
    readRow groupKeys aggrInputs i = agg.readItem b.types (b.row i) := by
  have hcell : ∀ (e : Expression) (cv : ColumnVector), e.evaluate b = .ok cv →
      e.evalCell b.types (b.row i) = cv.value i := by
    intro e cv h
    obtain ⟨t, -, hcv⟩ := Expression.evaluate_computes h
    exact (hcv.value_eq i hi).symm
  unfold readRow readItem
  rw [Outcome.mapM_congr_forall₂ (Outcome.mapM_eq_ok_iff.mp hkeys) hcell,
    Outcome.mapM_congr_forall₂ (Outcome.mapM_eq_ok_iff.mp hinputs)
      fun a => hcell a.inputExpression]

/-- Evaluating the expressions on a batch succeeds when they have types and can read every row. -/
theorem evaluate_succeeds {b : RecordBatch} {items : List Item}
    (h : agg.readBatch b = .ok items) :
    Outcome.Succeeds (agg.groupExpr.mapM fun e => e.evaluate b) ∧
      Outcome.Succeeds (agg.aggregateExpr.mapM fun a => a.inputExpression.evaluate b) := by
  obtain ⟨types, htypes, hitems⟩ := Outcome.bind_eq_ok_iff.mp h
  have htype : ∀ e ∈ agg.expressions, Outcome.Succeeds (e.dataType b.types) :=
    Outcome.mapM_succeeds_iff.mp ⟨types, htypes⟩
  have hrow : ∀ k < b.numRows, Outcome.Succeeds (agg.readItem b.types (b.row k)) := fun k hk =>
    Outcome.mapM_succeeds_iff.mp ⟨items, hitems⟩ _ (RecordBatch.mem_rows_iff.mpr ⟨k, hk, rfl⟩)
  simp only [readItem, Outcome.succeeds_bind_iff] at hrow
  simp only [Outcome.mapM_succeeds_iff]
  constructor
  · intro e he
    obtain ⟨t, ht⟩ := htype e (by simp [expressions, he])
    refine Expression.evaluate_succeeds ht fun k hk => ?_
    obtain ⟨key, hkey, -⟩ := hrow k hk
    exact Outcome.mapM_succeeds_iff.mp ⟨key, hkey⟩ e he
  · intro a ha
    obtain ⟨t, ht⟩ := htype a.inputExpression
      (List.mem_append_right _ (List.mem_map_of_mem ha))
    refine Expression.evaluate_succeeds ht fun k hk => ?_
    obtain ⟨-, -, args, hargs, -⟩ := hrow k hk
    exact Outcome.mapM_succeeds_iff.mp ⟨args, hargs⟩ a ha

/-- The expressions that can be evaluated on a batch have types. -/
theorem expressions_types {b : RecordBatch} {groupKeys aggrInputs : List ColumnVector}
    (hkeys : agg.groupExpr.mapM (fun e => e.evaluate b) = .ok groupKeys)
    (hinputs : agg.aggregateExpr.mapM (fun a => a.inputExpression.evaluate b) = .ok aggrInputs) :
    Outcome.Succeeds (agg.expressions.mapM fun e => e.dataType b.types) := by
  rw [Outcome.mapM_succeeds_iff]
  intro e he
  have heval : Outcome.Succeeds (e.evaluate b) := by
    rcases List.mem_append.mp he with he | he
    · exact Outcome.mapM_succeeds_iff.mp ⟨_, hkeys⟩ e he
    · obtain ⟨a, ha, rfl⟩ := List.mem_map.mp he
      exact Outcome.mapM_succeeds_iff.mp ⟨_, hinputs⟩ a ha
  obtain ⟨cv, hcv⟩ := heval
  obtain ⟨t, ht, -⟩ := Expression.evaluate_computes hcv
  exact ⟨t, ht⟩

/-- Processing a batch folds its keyed rows into the map. -/
theorem processBatch_eq_ok_iff {m m' : GroupMap} {b : RecordBatch} :
    agg.processBatch mode m b = .ok m' ↔
      ∃ items, agg.readBatch b = .ok items ∧
        KeyedFold.foldKeyed agg.createAccumulators (stepAll mode) items m = .ok m' := by
  -- The columns evaluated over the batch hold the cells evaluated over its rows.
  have hrows : ∀ {groupKeys aggrInputs : List ColumnVector},
      agg.groupExpr.mapM (fun e => e.evaluate b) = .ok groupKeys →
      agg.aggregateExpr.mapM (fun a => a.inputExpression.evaluate b) = .ok aggrInputs →
      (List.range b.numRows).mapM (readRow groupKeys aggrInputs) =
        b.rows.mapM (agg.readItem b.types) := by
    intro groupKeys aggrInputs hkeys hinputs
    rw [show b.rows = (List.range b.numRows).map b.row from rfl, List.mapM_map]
    exact Outcome.mapM_congr fun i hi => readRow_eq hkeys hinputs (List.mem_range.mp hi)
  unfold processBatch
  simp only [Outcome.bind_eq_ok_iff, Outcome.foldlM_bind_eq_ok_iff]
  constructor
  · rintro ⟨groupKeys, hkeys, aggrInputs, hinputs, items, hitems, hm⟩
    refine ⟨items, ?_, hm⟩
    obtain ⟨types, htypes⟩ := expressions_types hkeys hinputs
    simp only [readBatch, htypes, Outcome.ok_bind]
    rw [← hrows hkeys hinputs, hitems]
  · rintro ⟨items, hitems, hm⟩
    obtain ⟨⟨groupKeys, hkeys⟩, ⟨aggrInputs, hinputs⟩⟩ := evaluate_succeeds hitems
    obtain ⟨-, -, hread⟩ := Outcome.bind_eq_ok_iff.mp hitems
    exact ⟨groupKeys, hkeys, aggrInputs, hinputs, items, by rw [hrows hkeys hinputs, hread], hm⟩

/-- Processing batches one after the other folds all of their keyed rows. -/
theorem foldlM_processBatch_eq_ok_iff {batches : List RecordBatch} {m m' : GroupMap} :
    batches.foldlM (agg.processBatch mode) m = .ok m' ↔
      ∃ items, batches.mapM agg.readBatch = .ok items ∧
        KeyedFold.foldKeyed agg.createAccumulators (stepAll mode) items.flatten m = .ok m' := by
  induction batches generalizing m with
  | nil => simp [KeyedFold.foldKeyed]
  | cons b batches ih =>
    simp only [List.foldlM_cons, Outcome.bind_eq_ok_iff, processBatch_eq_ok_iff, ih,
      Outcome.mapM_cons_eq_ok_iff]
    constructor
    · rintro ⟨m₀, ⟨items, hitems, hm₀⟩, rest, hrest, hm'⟩
      refine ⟨items :: rest, ⟨items, rest, hitems, hrest, rfl⟩, ?_⟩
      rw [List.flatten_cons, KeyedFold.foldKeyed, Outcome.foldlM_append_eq_ok_iff]
      exact ⟨m₀, hm₀, hm'⟩
    · rintro ⟨_, ⟨items, rest, hitems, hrest, rfl⟩, hm'⟩
      rw [List.flatten_cons, KeyedFold.foldKeyed, Outcome.foldlM_append_eq_ok_iff] at hm'
      obtain ⟨m₀, hm₀, hm'⟩ := hm'
      exact ⟨m₀, ⟨items, hitems, hm₀⟩, rest, hrest, hm'⟩

/-- What an aggregation returns, and when: the batches are read as keyed rows, these are grouped,
and the output rows of the groups are built into a batch. -/
theorem run_eq_ok_iff {stream : BatchStream} {out : RecordBatch} :
    agg.run mode stream = .ok out ↔
      ∃ batches items m rows, stream.mapM id = .ok batches ∧
        batches.mapM agg.readBatch = .ok items ∧ agg.groups mode items.flatten = .ok m ∧
        (Runtime.mapOrder m).mapM (outputRow mode) = .ok rows ∧
        buildRows agg.schema rows = .ok out := by
  unfold run groups
  simp only [Outcome.bind_eq_ok_iff]
  have hfold : ∀ m, stream.foldlM (fun m item => do agg.processBatch mode m (← item)) [] = .ok m ↔
      ∃ batches, stream.mapM id = .ok batches ∧
        batches.foldlM (agg.processBatch mode) [] = .ok m := fun m =>
    Outcome.foldlM_bind_eq_ok_iff (g := id)
  simp only [hfold, foldlM_processBatch_eq_ok_iff]
  constructor
  · rintro ⟨m, ⟨batches, hbatches, items, hitems, hm⟩, rows, hrows, hout⟩
    exact ⟨batches, items, m, rows, hbatches, hitems, hm, hrows, hout⟩
  · rintro ⟨batches, items, m, rows, hbatches, hitems, hm, hrows, hout⟩
    exact ⟨m, ⟨batches, hbatches, items, hitems, hm⟩, rows, hrows, hout⟩

/-! ## The rows of the groups -/

/-- The output row of a group, from the keyed rows of the input. -/
def groupRow (agg : HashAggregate) (mode : AggregateMode) (items : List Item) (key : GroupKey) :
    Result Row := do
  let accs ← (KeyedFold.valuesOf items key).foldlM (stepAll mode) agg.createAccumulators
  outputRow mode (key, accs)

/-- The distinct keys, in the order of their first rows. -/
def groupKeys (items : List Item) : List GroupKey := KeyedFold.firstKeys (items.map Prod.fst)

/-- The output rows, in the order of the groups' first rows. -/
def outputRows (agg : HashAggregate) (mode : AggregateMode) (items : List Item) :
    Result (List Row) :=
  (groupKeys items).mapM (agg.groupRow mode items)

omit [Runtime] in
@[simp] theorem mem_groupKeys {items : List Item} {key : GroupKey} :
    key ∈ groupKeys items ↔ ∃ args, (key, args) ∈ items := by
  simp [groupKeys]

/-- The map's output rows are the rows of the groups. -/
theorem mapM_outputRow {items : List Item} {m : GroupMap} (h : agg.groups mode items = .ok m) :
    m.mapM (outputRow mode) = agg.outputRows mode items := by
  have hall := KeyedFold.tabulate_eq_ok_iff.mp (KeyedFold.foldKeyed_eq_ok_iff.mp h)
  refine (Outcome.mapM_congr_forall₂ hall ?_).symm
  rintro key ⟨_, accs⟩ ⟨rfl, haccs⟩
  have haccs : (KeyedFold.valuesOf items _).foldlM (stepAll mode) agg.createAccumulators =
    .ok accs := haccs
  simp only [groupRow, haccs, Outcome.ok_bind]

/-- The rows can be grouped when every group has an output row. -/
theorem groups_succeeds {items : List Item} {rows : List Row}
    (h : agg.outputRows mode items = .ok rows) : Outcome.Succeeds (agg.groups mode items) := by
  have htab : Outcome.Succeeds (KeyedFold.tabulate
      (KeyedFold.accumulated agg.createAccumulators (stepAll mode) items) (groupKeys items)) := by
    rw [KeyedFold.tabulate, Outcome.mapM_succeeds_iff]
    intro key hkey
    obtain ⟨row, hrow⟩ := Outcome.mapM_succeeds_iff.mp ⟨rows, h⟩ key hkey
    obtain ⟨accs, haccs, -⟩ := Outcome.bind_eq_ok_iff.mp hrow
    have haccs : KeyedFold.accumulated agg.createAccumulators (stepAll mode) items key = .ok accs :=
      haccs
    exact ⟨(key, accs), by rw [haccs]; rfl⟩
  obtain ⟨m, hm⟩ := htab
  exact ⟨m, KeyedFold.foldKeyed_eq_ok_iff.mpr hm⟩

omit [Runtime] in
/-- An item has a value for each group expression and an argument for each aggregate. -/
theorem readItem_lengths [Runtime] {types : List DataType} {row : Row} {x : Item}
    (h : agg.readItem types row = .ok x) :
    x.1.length = agg.groupExpr.length ∧ x.2.length = agg.aggregateExpr.length := by
  obtain ⟨key, hkey, h⟩ := Outcome.bind_eq_ok_iff.mp h
  obtain ⟨args, hargs, rfl⟩ := Outcome.bind_pure_eq_ok_iff.mp h
  exact ⟨Outcome.mapM_length hkey, Outcome.mapM_length hargs⟩

/-- The keyed rows of some batches are as wide as the expression lists. -/
theorem readBatches_lengths {batches : List RecordBatch} {items : List (List Item)}
    (h : batches.mapM agg.readBatch = .ok items) :
    ∀ x ∈ items.flatten,
      x.1.length = agg.groupExpr.length ∧ x.2.length = agg.aggregateExpr.length := by
  intro x hx
  obtain ⟨xs, hxs, hx⟩ := List.mem_flatten.mp hx
  obtain ⟨b, -, hb⟩ := Outcome.mapM_mem h hxs
  obtain ⟨_, -, hb⟩ := Outcome.bind_eq_ok_iff.mp hb
  obtain ⟨row, -, hrow⟩ := Outcome.mapM_mem hb hx
  exact readItem_lengths hrow

/-- The aggregates of a group are the aggregates of the columns of its values. -/
theorem groupRow_eq_ok_iff {items : List Item} {key : GroupKey} {row : Row}
    (h : ∀ x ∈ items, x.2.length = agg.aggregateExpr.length) :
    agg.groupRow mode items key = .ok row ↔
      ∃ outs, row = key ++ outs ∧ outs.length = agg.aggregateExpr.length ∧
        ∀ i a, agg.aggregateExpr[i]? = some a → ∃ v, outs[i]? = some v ∧
          aggregate mode a.function (Table.column (KeyedFold.valuesOf items key) i) = .ok v := by
  have hwide : ∀ r ∈ KeyedFold.valuesOf items key, r.length = agg.createAccumulators.length := by
    intro r hr
    obtain ⟨x, hx, rfl⟩ := List.mem_map.mp hr
    simpa [createAccumulators] using h x (List.mem_of_mem_filter hx)
  have hacc : ∀ i : ℕ, agg.createAccumulators[i]? =
      agg.aggregateExpr[i]?.map fun a : AggregateExpression => Accumulator.create a.function := by
    simp [createAccumulators]
  unfold groupRow outputRow stepAll aggregate
  simp only [Outcome.bind_eq_ok_iff, Table.foldlM_stepRow_eq_ok_iff hwide, hacc]
  constructor
  · rintro ⟨accs, ⟨hlen, haccs⟩, outs, houts, hrow⟩
    cases hrow
    have hlen' := Outcome.mapM_length houts
    refine ⟨outs, rfl, by simpa [createAccumulators, hlen] using hlen', fun i a ha => ?_⟩
    obtain ⟨acc, hacc, hfold⟩ := haccs i _ (by rw [ha]; rfl)
    obtain ⟨v, hv, hout⟩ := Outcome.mapM_getElem? houts hacc
    exact ⟨v, hv, acc, hfold, hout⟩
  · rintro ⟨outs, rfl, hlen, houts⟩
    have haccs : ∀ a ∈ agg.aggregateExpr.zipIdx, ∃ acc,
        (Table.column (KeyedFold.valuesOf items key) a.2).foldlM (Accumulator.step mode)
          (Accumulator.create a.1.function) = .ok acc ∧
        ∃ v, outs[a.2]? = some v ∧ acc.output mode = .ok v := by
      rintro ⟨a, i⟩ ha
      obtain ⟨v, hv, acc, hacc, hout⟩ := houts i a (List.mem_zipIdx_iff_getElem?.mp ha)
      exact ⟨acc, hacc, v, hv, hout⟩
    have : Nonempty Accumulator := ⟨.count 0⟩
    choose! accOf haccOf houtOf using haccs
    refine ⟨agg.aggregateExpr.zipIdx.map accOf, ⟨by simp [createAccumulators], ?_⟩, outs, ?_, rfl⟩
    · intro i acc hacc
      obtain ⟨a, ha, rfl⟩ := Option.map_eq_some_iff.mp hacc
      exact ⟨accOf (a, i), by simp [ha], haccOf (a, i) (List.mem_zipIdx_iff_getElem?.mpr ha)⟩
    · rw [Outcome.mapM_eq_ok_iff, List.forall₂_map_left_iff, List.forall₂_iff_get]
      refine ⟨by simpa using hlen.symm, fun i hi hi' => ?_⟩
      obtain ⟨v, hv, hout⟩ := houtOf (agg.aggregateExpr.zipIdx.get ⟨i, hi⟩) (List.get_mem _ _)
      simp only [List.get_eq_getElem, List.getElem_zipIdx, Nat.zero_add] at hv hout ⊢
      obtain ⟨_, rfl⟩ := List.getElem?_eq_some_iff.mp hv
      exact hout

/-- A group's output row depends on the group's rows only. -/
theorem groupRow_filter (items : List Item) (key : GroupKey) :
    agg.groupRow mode (items.filter fun x => x.1 = key) key = agg.groupRow mode items key := by
  rw [groupRow, groupRow, KeyedFold.valuesOf_filter]

/-- The keyed rows of batches with columns of the same types, read one after the other. -/
theorem readBatches_of_types {types : List DataType} {batches : List RecordBatch}
    {items : List (List Item)} (ht : ∀ b ∈ batches, b.types = types)
    (h : batches.mapM agg.readBatch = .ok items) :
    (batches.flatMap RecordBatch.rows).mapM (agg.readItem types) = .ok items.flatten := by
  induction batches generalizing items with
  | nil =>
    obtain rfl : [] = items := by simpa using h
    rfl
  | cons b batches ih =>
    obtain ⟨x, xs, hx, hxs, rfl⟩ := Outcome.mapM_cons_eq_ok_iff.mp h
    obtain ⟨_, -, hx⟩ := Outcome.bind_eq_ok_iff.mp hx
    rw [ht b List.mem_cons_self] at hx
    rw [List.flatMap_cons, Outcome.mapM_append_eq_ok_iff]
    exact ⟨x, xs.flatten, hx, ih (fun c hc => ht c (List.mem_cons_of_mem b hc)) hxs, rfl⟩

/-- The keyed rows of batches of one schema, read one after the other. -/
theorem readBatches_rows {s : Schema} {batches : List RecordBatch} {items : List (List Item)}
    (hs : ∀ b ∈ batches, b.schema = s) (h : batches.mapM agg.readBatch = .ok items) :
    (batches.flatMap RecordBatch.rows).mapM (agg.readItem s.types) = .ok items.flatten :=
  readBatches_of_types (fun b hb => hs b hb ▸ b.types_eq_schema) h

/-- A schema with a field for each output column. -/
def WellFormed (agg : HashAggregate) : Prop :=
  agg.schema.fields.length = agg.groupExpr.length + agg.aggregateExpr.length

/-- The rows put out are as long as the aggregate's schema. -/
theorem outputRows_lengths (hagg : agg.WellFormed) {items : List Item} {rows : List Row}
    (hitems : ∀ x ∈ items,
      x.1.length = agg.groupExpr.length ∧ x.2.length = agg.aggregateExpr.length)
    (h : agg.outputRows mode items = .ok rows) :
    ∀ r ∈ rows, r.length = agg.schema.fields.length := by
  intro r hr
  obtain ⟨key, hkey, hrow⟩ := Outcome.mapM_mem h hr
  obtain ⟨args, hargs⟩ := mem_groupKeys.mp hkey
  obtain ⟨outs, rfl, hlen, -⟩ := (groupRow_eq_ok_iff fun x hx => (hitems x hx).2).mp hrow
  rw [List.length_append, hlen, (hitems _ hargs).1, hagg]

/-- A run returns the rows of the groups, in the order of the hash map. -/
theorem run_ok (hagg : agg.WellFormed) {stream : BatchStream} {out : RecordBatch}
    (h : agg.run mode stream = .ok out) :
    ∃ batches items rows, stream.mapM id = .ok batches ∧ batches.mapM agg.readBatch = .ok items ∧
      agg.outputRows mode items.flatten = .ok rows ∧ Builds agg.schema rows ∧
      out.schema = agg.schema ∧ out.rows.Perm rows := by
  obtain ⟨batches, items, m, mrows, hbatches, hitems, hm, hrows, hout⟩ := run_eq_ok_iff.mp h
  obtain ⟨rows, hrows', hperm⟩ := Outcome.mapM_perm (Runtime.mapOrder_perm m) hrows
  rw [mapM_outputRow hm] at hrows'
  have hlen := outputRows_lengths hagg (readBatches_lengths hitems) hrows'
  have hlen' : ∀ r ∈ mrows, r.length = agg.schema.fields.length := fun r hr =>
    hlen r (hperm.mem_iff.mp hr)
  obtain ⟨hschema, rfl, -⟩ := (buildRows_eq_ok_iff hlen').mp hout
  exact ⟨batches, items, rows, hbatches, hitems, hrows',
    (builds_of_buildRows hlen' hout).perm hperm, hschema, hperm⟩

/-- A run succeeds when its rows can be read, grouped and built into a batch. -/
theorem run_succeeds {stream : BatchStream} {batches : List RecordBatch}
    {items : List (List Item)} {rows : List Row} (hbatches : stream.mapM id = .ok batches)
    (hitems : batches.mapM agg.readBatch = .ok items)
    (hrows : agg.outputRows mode items.flatten = .ok rows) (hbuild : Builds agg.schema rows) :
    ∃ out, agg.run mode stream = .ok out ∧ out.schema = agg.schema ∧ out.rows.Perm rows := by
  obtain ⟨m, hm⟩ := groups_succeeds hrows
  rw [← mapM_outputRow hm] at hrows
  obtain ⟨mrows, hmrows, hperm⟩ := Outcome.mapM_perm (Runtime.mapOrder_perm m).symm hrows
  obtain ⟨out, hout, hschema, hout'⟩ := buildRows_succeeds (hbuild.perm hperm)
  exact ⟨out, run_eq_ok_iff.mpr ⟨batches, items, m, mrows, hbatches, hitems, hm, hmrows, hout⟩,
    hschema, hout' ▸ hperm.symm⟩

end HashAggregate

end RQuery
