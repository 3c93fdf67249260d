import RQuery.Common.RoundRobin
import RQuery.Physical.Plan
import RQuery.Physical.TwoStage

/-!
# Parallel aggregation

`ParallelContext` deals the input batches of an aggregation to workers, runs a partial aggregate on
every worker's batches and merges the partial results with a final aggregate. The workers share
nothing, so running them one after the other has the same result.

`executeParallelAggregate_matches_iff` says for which aggregates this equals the sequential run.
-/

namespace RQuery

section

variable [FloatModel] [Readers] [Runtime]

/-- Run a `Partial` aggregate over one worker's batches. -/
def executePartialAggregate (input : PhysicalPlan) (agg : HashAggregate) (ctx : ExecutorContext)
    (batches : List RecordBatch) : Result (List RecordBatch) := do
  let schema ← input.schema
  collect (← (PhysicalPlan.hashAggregate (.inMemory schema batches) agg .partialMode).execute ctx)

/-- Merge the partial results with a `Final` aggregate. -/
def executeFinalAggregate (agg : HashAggregate) (partialBatches : List RecordBatch)
    (ctx : ExecutorContext) : Result BatchStream :=
  (PhysicalPlan.hashAggregate (.inMemory agg.schema partialBatches) agg .finalMode).execute ctx

/-- Parallel partial/final aggregation; a single worker runs the aggregate itself. -/
def executeParallelAggregate (parallelism : ℕ) (ctx : ExecutorContext) (input : PhysicalPlan)
    (agg : HashAggregate) (mode : AggregateMode) : Result BatchStream :=
  if parallelism ≤ 1 then
    (PhysicalPlan.hashAggregate input agg mode).execute ctx
  else do
    let inputBatches ← collect (← input.execute ctx)
    let workerBatches := RoundRobin.distribute parallelism inputBatches
    let partialResults ← (workerBatches.filter fun bucket => !bucket.isEmpty).mapM
      (executePartialAggregate input agg ctx)
    if partialResults.flatten.isEmpty then
      return []
    else
      executeFinalAggregate agg partialResults.flatten ctx

/-- Run a plan, special-casing aggregations. -/
def executeParallel (parallelism : ℕ) (ctx : ExecutorContext) : PhysicalPlan → Result BatchStream
  | .hashAggregate input agg mode => executeParallelAggregate parallelism ctx input agg mode
  | plan => plan.execute ctx

/-- Whenever the aggregation of batches of a schema succeeds, the parallel one outputs the same
rows. -/
def ParallelMatches (parallelism : ℕ) (agg : HashAggregate) (s : Schema) : Prop :=
  ∀ ctx input stream batches rows, Outcome.Succeeds (PhysicalPlan.schema input) →
    input.execute ctx = .ok stream → collect stream = .ok batches →
    (∀ b ∈ batches, b.schema = s) →
    (PhysicalPlan.hashAggregate input agg .completeMode).rows ctx = .ok rows →
    ∃ out rows', executeParallelAggregate parallelism ctx input agg .completeMode = .ok out ∧
      streamRows out = .ok rows' ∧ rows'.Perm rows

/-- The context that `ParallelContext::execute` runs plans with. -/
def parallelExecutorContext : ExecutorContext where
  executorId := "parallel"
  executorHost := "localhost"
  executorPort := 0
  shuffleManager := ⟨[]⟩

/-- The workers' non-empty shares of the input. -/
def workerBuckets (parallelism : ℕ) (batches : List RecordBatch) : List (List RecordBatch) :=
  (RoundRobin.distribute parallelism batches).filter fun bucket => !bucket.isEmpty

omit [Readers] [Runtime] in
/-- Every batch is dealt to one worker. -/
theorem workerBuckets_flatten_perm {parallelism : ℕ} (h : 0 < parallelism)
    (batches : List RecordBatch) : (workerBuckets parallelism batches).flatten.Perm batches := by
  rw [workerBuckets, List.flatten_filter_not_isEmpty]
  exact RoundRobin.distribute_flatten_perm h batches

omit [Readers] [Runtime] in
/-- No worker is started for nothing. -/
theorem ne_nil_of_mem_workerBuckets {parallelism : ℕ} {batches bucket : List RecordBatch}
    (h : bucket ∈ workerBuckets parallelism batches) : bucket ≠ [] := by
  simpa using (List.mem_filter.mp h).2

/-- A worker runs the partial aggregation over its batches. -/
theorem executePartialAggregate_eq {input : PhysicalPlan} (h : Outcome.Succeeds input.schema)
    (agg : HashAggregate) (ctx : ExecutorContext) (bucket : List RecordBatch) :
    executePartialAggregate input agg ctx bucket =
      do return [← agg.run .partialMode (bucket.map .ok)] := by
  obtain ⟨schema, hschema⟩ := h
  simp only [executePartialAggregate, hschema, PhysicalPlan.execute, Outcome.ok_bind]
  cases agg.run .partialMode (bucket.map .ok) with
  | error e => rfl
  | ok p => rfl

/-- What several workers compute, in terms of the runs of the aggregate. -/
theorem executeParallelAggregate_eq_ok_iff {parallelism : ℕ} (hpar : 1 < parallelism)
    {ctx : ExecutorContext} {input : PhysicalPlan} (hschema : Outcome.Succeeds input.schema)
    {stream : BatchStream} (hstream : input.execute ctx = .ok stream) {batches : List RecordBatch}
    (hbatches : collect stream = .ok batches) {agg : HashAggregate} {mode : AggregateMode}
    {out : BatchStream} :
    executeParallelAggregate parallelism ctx input agg mode = .ok out ↔
      ∃ ps, List.Forall₂ (fun bucket p => agg.run .partialMode (bucket.map .ok) = .ok p)
          (workerBuckets parallelism batches) ps ∧
        if ps = [] then out = []
        else ∃ result, agg.run .finalMode (ps.map .ok) = .ok result ∧ out = [.ok result] := by
  have hparts : (workerBuckets parallelism batches).mapM (executePartialAggregate input agg ctx) =
      do return (← (workerBuckets parallelism batches).mapM fun bucket =>
        agg.run .partialMode (bucket.map .ok)).map fun p => [p] := by
    rw [← Outcome.mapM_bind_pure]
    exact Outcome.mapM_congr fun bucket _ => executePartialAggregate_eq hschema agg ctx bucket
  have hflat : ∀ ps : List RecordBatch, (ps.map fun p => [p]).flatten = ps := fun ps => by
    rw [← List.flatMap_def, List.flatMap_singleton']
  simp only [executeParallelAggregate, if_neg (not_le.mpr hpar), hstream, hbatches,
    Outcome.ok_bind]
  rw [← workerBuckets, hparts]
  simp only [bind_assoc, pure_bind, hflat, Outcome.bind_eq_ok_iff, Outcome.mapM_eq_ok_iff]
  refine exists_congr fun ps => and_congr_right fun _ => ?_
  by_cases hps : ps = []
  · simp [hps, eq_comm]
  · simp only [List.isEmpty_iff, hps, if_false, executeFinalAggregate, PhysicalPlan.execute,
      Outcome.ok_bind]
    exact Outcome.bind_pure_eq_ok_iff

/-- The rows of an aggregation. -/
theorem hashAggregate_rows_eq_ok_iff {ctx : ExecutorContext} {input : PhysicalPlan}
    {stream : BatchStream} (hstream : input.execute ctx = .ok stream) {agg : HashAggregate}
    {mode : AggregateMode} {rows : List Row} :
    (PhysicalPlan.hashAggregate input agg mode).rows ctx = .ok rows ↔
      ∃ out, agg.run mode stream = .ok out ∧ rows = out.rows := by
  simp only [PhysicalPlan.rows, PhysicalPlan.execute, hstream, Outcome.ok_bind]
  cases agg.run mode stream with
  | error e => simp
  | ok out => simp [eq_comm]

section

variable {parallelism : ℕ} {agg : HashAggregate} {s : Schema}

omit [Readers] [Runtime] in
/-- A single batch is dealt to a single worker. -/
theorem workerBuckets_single (hpar : 1 < parallelism) (b : RecordBatch) :
    workerBuckets parallelism [b] = [[b]] := by
  have hflat := workerBuckets_flatten_perm (by omega : 0 < parallelism) [b]
  have hflat := List.perm_singleton.mp hflat
  have hne : ∀ bucket ∈ workerBuckets parallelism [b], bucket ≠ [] := fun _ =>
    ne_nil_of_mem_workerBuckets
  -- The buckets are never empty and hold one batch together, so there is one bucket with it.
  cases hbuckets : workerBuckets parallelism [b] with
  | nil => simp [hbuckets] at hflat
  | cons bucket buckets =>
    rw [hbuckets, List.flatten_cons] at hflat
    rw [hbuckets] at hne
    have hbucket : bucket ≠ [] := hne bucket List.mem_cons_self
    cases bucket with
    | nil => exact absurd rfl hbucket
    | cons c bucket =>
      rw [List.cons_append, List.cons.injEq, List.append_eq_nil_iff] at hflat
      obtain ⟨rfl, rfl, hrest⟩ := hflat
      cases buckets with
      | nil => rfl
      | cons bucket buckets =>
        have hbucket : bucket ≠ [] := hne bucket (by simp)
        simp [hbucket] at hrest

/-- Several workers output the rows of the sequential run if the aggregate reads back. -/
theorem parallelMatches_of_readsBack (hpar : 1 < parallelism) (hagg : agg.WellFormed)
    (hexact : agg.ExactArguments s) (hread : agg.ReadsBack s 1) (havg : agg.AveragesNull s) :
    ParallelMatches parallelism agg s := by
  intro ctx input stream batches rows hschema hstream hbatches hs hrows
  obtain ⟨out, hout, rfl⟩ := (hashAggregate_rows_eq_ok_iff hstream).mp hrows
  obtain rfl := Outcome.mapM_id_eq_ok_iff.mp hbatches
  -- The two stages are run over the workers' buckets, which hold the batches in another order.
  obtain ⟨ps, hps, result, hresult, hperm⟩ := HashAggregate.run_twoStage hagg hexact hread havg hs
    hout (fun _ => ne_nil_of_mem_workerBuckets)
    (workerBuckets_flatten_perm (by omega : 0 < parallelism) batches).symm
  by_cases hnil : ps = []
  · -- No worker has a batch, and the sequential run outputs no row.
    subst hnil
    refine ⟨[], [], ?_, rfl, ?_⟩
    · rw [executeParallelAggregate_eq_ok_iff hpar hschema hstream hbatches]
      exact ⟨[], hps, by simp⟩
    · obtain ⟨_, _, _, hnone, hitems, hrows', -, -, hperm'⟩ := HashAggregate.run_ok hagg hresult
      cases hnone
      cases hitems
      cases hrows'
      rw [List.perm_nil.mp hperm'] at hperm
      exact hperm
  · refine ⟨[.ok result], result.rows, ?_, streamRows_single result, hperm⟩
    rw [executeParallelAggregate_eq_ok_iff hpar hschema hstream hbatches]
    refine ⟨ps, hps, ?_⟩
    rw [if_neg hnil]
    exact ⟨result, hresult, rfl⟩

/-- What the workers and the final aggregate do with given batches. -/
theorem ParallelMatches.runs (h : ParallelMatches parallelism agg s) (hpar : 1 < parallelism)
    (batches : List RecordBatch) {out : RecordBatch} (hs : ∀ b ∈ batches, b.schema = s)
    (hout : agg.run .completeMode (batches.map .ok) = .ok out) :
    ∃ ps rows, List.Forall₂ (fun bucket p => agg.run .partialMode (bucket.map .ok) = .ok p)
        (workerBuckets parallelism batches) ps ∧
      (if ps = [] then rows = []
        else ∃ result, agg.run .finalMode (ps.map .ok) = .ok result ∧ rows = result.rows) ∧
      rows.Perm out.rows := by
  have hstream : (PhysicalPlan.inMemory s batches).execute parallelExecutorContext =
      .ok (batches.map .ok) := rfl
  have hbatches := Outcome.mapM_id_map_ok (ε := Panic) batches
  have hschema : Outcome.Succeeds (PhysicalPlan.inMemory s batches).schema := ⟨s, rfl⟩
  obtain ⟨stream, rows, hstream', hrows, hperm⟩ := h _ _ _ batches out.rows hschema hstream hbatches
    hs ((hashAggregate_rows_eq_ok_iff hstream).mpr ⟨out, hout, rfl⟩)
  obtain ⟨ps, hps, hout'⟩ :=
    (executeParallelAggregate_eq_ok_iff hpar hschema hstream hbatches).mp hstream'
  refine ⟨ps, rows, hps, ?_, hperm⟩
  by_cases hnil : ps = []
  · rw [if_pos hnil] at hout' ⊢
    subst hout'
    cases hrows
    rfl
  · rw [if_neg hnil] at hout' ⊢
    obtain ⟨result, hresult, rfl⟩ := hout'
    refine ⟨result, hresult, ?_⟩
    rw [streamRows_single, Except.ok.injEq] at hrows
    exact hrows.symm

/-- What the workers and the final aggregate do with a single batch. -/
theorem ParallelMatches.single (h : ParallelMatches parallelism agg s) (hpar : 1 < parallelism)
    {b out : RecordBatch} (hb : b.schema = s) (hout : agg.run .completeMode [.ok b] = .ok out) :
    ∃ p result, agg.run .partialMode [.ok b] = .ok p ∧ agg.run .finalMode [.ok p] = .ok result ∧
      result.rows.Perm out.rows := by
  obtain ⟨ps, rows, hps, hrows, hperm⟩ := h.runs hpar [b] (by simpa using hb) hout
  rw [workerBuckets_single hpar, List.forall₂_cons_left_iff] at hps
  obtain ⟨p, _, hp, hnil, rfl⟩ := hps
  cases hnil
  rw [if_neg (by simp)] at hrows
  obtain ⟨result, hresult, rfl⟩ := hrows
  exact ⟨p, result, hp, hresult, hperm⟩

/-- Where the parallel run outputs the rows of the sequential one, these read back: a single batch
is a partial aggregation and a final one. -/
theorem readsBack_of_parallelMatches (hpar : 1 < parallelism) (hagg : agg.WellFormed)
    (h : ParallelMatches parallelism agg s) : agg.ReadsBack s 1 := by
  intro b out hb hout
  constructor
  · obtain ⟨p, result, hp, hresult, -⟩ := h.single hpar hb hout
    obtain ⟨_, _, _, _, _, _, _, hschema, -⟩ := HashAggregate.run_ok hagg hp
    obtain ⟨batches, items, _, hbatches, hitems, -⟩ := HashAggregate.run_ok hagg hresult
    obtain rfl : [p] = batches := by simpa using hbatches
    obtain ⟨F, hF, -⟩ := Outcome.mapM_singleton_eq_ok_iff.mp hitems
    obtain ⟨types, htypes, -⟩ := Outcome.bind_eq_ok_iff.mp hF
    rw [p.types_eq_schema, hschema] at htypes
    exact ⟨types, htypes⟩
  · intro row hrow
    obtain ⟨b', out', hb', hout', hrows'⟩ := HashAggregate.exists_group_run hagg hout hrow
    obtain ⟨p, result, hp, hresult, hperm⟩ := h.single hpar (hb'.trans hb) hout'
    have hprows := HashAggregate.run_partialMode_perm hagg hp hout'
    rw [hrows', List.perm_singleton] at hprows hperm
    obtain ⟨_, _, _, _, _, _, _, hschema, -⟩ := HashAggregate.run_ok hagg hp
    have hfinal : agg.run .finalMode (List.replicate 1 (.ok p)) = .ok result := hresult
    exact HashAggregate.readsBackRow_of_final hagg hschema hprows one_pos hfinal hperm

/-- There AVG is applied to nulls only: a row can be dealt to a worker of its own. -/
theorem averagesNull_of_parallelMatches (hpar : 1 < parallelism) (hagg : agg.WellFormed)
    (h : ParallelMatches parallelism agg s) : agg.AveragesNull s := by
  rintro b items hb hread ⟨out, hout⟩ i a ha hfun x hx
  obtain ⟨b₁, b₂, b₃, hb₁, hb₂, hb₃, hread₂, out', hout'⟩ :=
    HashAggregate.exists_split_batch hagg hread hout hx
  obtain ⟨ps, rows, hps, -⟩ := h.runs hpar [b₁, b₂, b₃]
    (by simp [hb₁, hb₂, hb₃, hb]) hout'
  have hbucket : [b₂] ∈ workerBuckets parallelism [b₁, b₂, b₃] := by
    refine List.mem_filter.mpr ⟨List.mem_iff_getElem?.mpr ⟨1, ?_⟩, by simp⟩
    rw [RoundRobin.distribute_getElem? hpar]
    have h₂ : 2 % parallelism ≠ 1 := by
      rcases Nat.lt_or_ge 2 parallelism with hlt | hge
      · rw [Nat.mod_eq_of_lt hlt]
        decide
      · obtain rfl : parallelism = 2 := by omega
        decide
    simp [List.zipIdx, Nat.mod_eq_of_lt hpar, h₂]
  obtain ⟨p, -, hp⟩ := Outcome.forall₂_mem_left hps hbucket
  exact HashAggregate.averages_null_of_partialMode hagg hp hread₂ ha hfun

/-- The parallel run outputs the rows of the sequential one, whatever the batches are, exactly when
there is a single worker or the aggregate reads back and averages nothing. -/
theorem executeParallelAggregate_matches_iff (hagg : agg.WellFormed)
    (hexact : agg.ExactArguments s) :
    ParallelMatches parallelism agg s ↔
      parallelism ≤ 1 ∨ (agg.ReadsBack s 1 ∧ agg.AveragesNull s) := by
  by_cases hpar : parallelism ≤ 1
  · refine iff_of_true ?_ (.inl hpar)
    intro ctx input stream batches rows _ hstream _ _ hrows
    obtain ⟨out, hout, rfl⟩ := (hashAggregate_rows_eq_ok_iff hstream).mp hrows
    refine ⟨[.ok out], out.rows, ?_, streamRows_single out, .refl _⟩
    simp only [executeParallelAggregate, if_pos hpar, PhysicalPlan.execute, hstream, hout,
      Outcome.ok_bind]
    rfl
  · rw [or_iff_right hpar]
    have hpar := not_le.mp hpar
    constructor
    · intro h
      exact ⟨readsBack_of_parallelMatches hpar hagg h, averagesNull_of_parallelMatches hpar hagg h⟩
    · rintro ⟨hread, havg⟩
      exact parallelMatches_of_readsBack hpar hagg hexact hread havg

end

end

section SwappedColumns

attribute [local instance] integerFloats insertionOrderRuntime

local instance noFiles : Readers := parquetDisk fun _ => none

/-- The columns have one cell each. -/
theorem groupedColumns_length : ∀ c ∈ [Int32Array [1], Int32Array [2]],
    c.cells.length = 1 := by
  decide

/-- One row with `x = 1` and `g = 2`. -/
def groupedBatch : RecordBatch where
  schema := ⟨[⟨"x", .int32⟩, ⟨"g", .int32⟩]⟩
  columns := [Int32Array [1], Int32Array [2]]
  numRows := 1
  types_eq := by decide
  lengths := groupedColumns_length

/-- `SELECT g, SUM(x) … GROUP BY g`. -/
def sumByGroup : HashAggregate where
  groupExpr := [.column 1]
  aggregateExpr := [SumExpression (.column 0)]
  schema := ⟨[⟨"g", .int32⟩, ⟨"SUM", .int32⟩]⟩

/-- The final aggregate sums the group values and groups by the sums. -/
theorem sumByGroup_not_parallelMatches :
    (PhysicalPlan.hashAggregate (.inMemory groupedBatch.schema [groupedBatch]) sumByGroup
        .completeMode).rows parallelExecutorContext = .ok [[.int32 2, .int32 1]] ∧
      (executeParallelAggregate 2 parallelExecutorContext
          (.inMemory groupedBatch.schema [groupedBatch]) sumByGroup .completeMode >>= streamRows) =
        .ok [[.int32 1, .int32 2]] ∧
      ¬ ParallelMatches 2 sumByGroup groupedBatch.schema := by
  have hseq : (PhysicalPlan.hashAggregate (.inMemory groupedBatch.schema [groupedBatch]) sumByGroup
      .completeMode).rows parallelExecutorContext = .ok [[.int32 2, .int32 1]] := by decide
  have hpar : (executeParallelAggregate 2 parallelExecutorContext
      (.inMemory groupedBatch.schema [groupedBatch]) sumByGroup .completeMode >>= streamRows) =
        .ok [[.int32 1, .int32 2]] := by decide
  refine ⟨hseq, hpar, fun h => ?_⟩
  obtain ⟨stream, rows, hstream, hrows, hperm⟩ := h parallelExecutorContext
    (.inMemory groupedBatch.schema [groupedBatch]) [.ok groupedBatch] [groupedBatch]
    [[.int32 2, .int32 1]] ⟨groupedBatch.schema, rfl⟩ rfl rfl (by simp) hseq
  rw [hstream, Outcome.ok_bind, hrows, Except.ok.injEq] at hpar
  rw [hpar, List.perm_singleton] at hperm
  revert hperm
  decide

/-- The condition for the swapped columns and two workers. -/
theorem parallelMatches_iff_sumByGroup :
    ParallelMatches 2 sumByGroup groupedBatch.schema ↔
      2 ≤ 1 ∨ (sumByGroup.ReadsBack groupedBatch.schema 1 ∧
        sumByGroup.AveragesNull groupedBatch.schema) := by
  refine executeParallelAggregate_matches_iff rfl ?_
  intro a ha t ht
  obtain rfl : a = SumExpression (.column 0) := by simpa [sumByGroup] using ha
  have htype : (Expression.column 0).dataType groupedBatch.schema.types = .ok .int32 := by decide
  obtain rfl : DataType.int32 = t := by simpa [htype] using ht
  rfl

end SwappedColumns

end RQuery
