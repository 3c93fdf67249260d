import RQuery.Semantics.MapOrder
import RQuery.QueryPlanner.JoinLayout
import RQuery.Optimizer.LoweredPlans
import RQuery.Execution.ExecutionContext

/-!
# Executing a plan returns the rows it denotes

`LogicalPlan.denote` says what a plan means, row by row and without batches. The pipeline of
`ExecutionContext::execute` optimizes the plan, lowers it and pulls the batches of the operators. By
induction over the plan, the stream that the lowered plan yields cuts the rows the plan denotes
(`execute_cuts`), as long as no operator lets the iteration order of a hash map through; above
aggregations and right joins it is a permutation of them (`execute_answers`).
-/

namespace RQuery

section

variable [FloatModel] [R : Readers]

/-! ## What is asked of a plan -/

namespace LogicalPlan

/-- The rows come in the order of the sources: no operator iterates over a map. -/
def InOrder : LogicalPlan → Prop
  | .scan _ => True
  | .projection input _ => input.InOrder
  | .selection input _ => input.InOrder
  | .limit input _ => input.InOrder
  | .aggregate _ _ _ => False
  | .join left right joinType _ => joinType ≠ .right ∧ left.InOrder ∧ right.InOrder

/-- The aggregates do not depend on the order of the rows of the input: they are no averages, and
their arguments are no floats. -/
def OrderFree (input : LogicalPlan) (aggregateExpr : List AggregateExpr) : Prop :=
  ∀ a ∈ aggregateExpr, a.fn ≠ .avg ∧ ∀ s e t, input.schema = .ok s →
    createPhysicalExpr (.ok s) a.expr = .ok e → e.dataType s.types = .ok t → t.isFloat = false

/-- Where rows come in the order of a map, they are neither cut nor folded by an aggregate that
depends on their order. -/
def Settled : LogicalPlan → Prop
  | .scan _ => True
  | .projection input _ => input.Settled
  | .selection input _ => input.Settled
  | .limit input _ => input.InOrder
  | .aggregate input _ aggregateExpr => input.Settled ∧ (input.InOrder ∨ input.OrderFree aggregateExpr)
  | .join left right _ _ => left.Settled ∧ right.Settled

def LimitFree : LogicalPlan → Prop
  | .scan _ => True
  | .projection input _ => input.LimitFree
  | .selection input _ => input.LimitFree
  | .limit _ _ => False
  | .aggregate input _ _ => input.LimitFree
  | .join left right _ _ => left.LimitFree ∧ right.LimitFree

/-- Every join of the plan lays its rows out as its schema. -/
def JoinsAlign : LogicalPlan → Prop
  | .scan _ => True
  | .projection input _ => input.JoinsAlign
  | .selection input _ => input.JoinsAlign
  | .limit input _ => input.JoinsAlign
  | .aggregate input _ _ => input.JoinsAlign
  | .join left right joinType on => left.JoinsAlign ∧ right.JoinsAlign ∧
      ∀ ls rs, left.schema = .ok ls → right.schema = .ok rs →
        left.JoinAligns right joinType on ls rs

end LogicalPlan

variable [Runtime]

/-- The source delivers the content: the batches of the scan are of its schema, and they cut the
rows that the scan denotes. -/
structure Scan.Delivers (s : Scan) (content : Content) : Prop where
  schema_eq : ∀ stream b, s.dataSource.scan s.projection = .ok stream → .ok b ∈ stream →
    b.schema = s.schema
  cuts : ∀ stream rows, s.dataSource.scan s.projection = .ok stream →
    (LogicalPlan.scan s).denote content = .ok rows → Chunks.Cuts rows (rowChunks stream)

/-- All scans of the plan deliver the content. -/
def LogicalPlan.Delivers (content : Content) : LogicalPlan → Prop
  | .scan s => s.Delivers content
  | .projection input _ => input.Delivers content
  | .selection input _ => input.Delivers content
  | .limit input _ => input.Delivers content
  | .aggregate input _ _ => input.Delivers content
  | .join left right _ _ => left.Delivers content ∧ right.Delivers content

omit [Runtime] in
/-- A plan that iterates over no map is settled. -/
theorem LogicalPlan.InOrder.settled {P : LogicalPlan} (h : P.InOrder) : P.Settled := by
  induction P with
  | scan s => trivial
  | projection input expr ih => exact ih h
  | selection input expr ih => exact ih h
  | limit input n ih => exact h
  | aggregate input groupExpr aggregateExpr ih => exact h.elim
  | join left right joinType on ihl ihr => exact ⟨ihl h.2.1, ihr h.2.2⟩

omit [Runtime] in
/-- The schema of a scan is that of its columns in the source. -/
theorem Scan.select_schema (s : Scan) {full : Schema} (hfull : s.dataSource.schema = .ok full)
    (hne : s.projection ≠ []) : full.select s.projection = .ok s.schema := by
  have hderived := s.derived
  rwa [Scan.deriveSchema, hfull, Outcome.ok_bind, if_neg (by simpa using hne)] at hderived

/-- A source that lays its columns out as requested delivers the batches it was read from. -/
theorem Scan.delivers_of_laidOut {s : Scan} {full : Schema}
    (hfull : s.dataSource.schema = .ok full) (hne : s.projection ≠ [])
    (hlaid : ∀ stream, s.dataSource.scan s.projection = .ok stream → ∀ (k : ℕ) b,
      stream[k]? = some (.ok b) → s.dataSource.LaidOutAs full s.projection k b)
    {content : Content} (hcontent : ∀ stream, s.dataSource.scan s.projection = .ok stream →
      content.rows s.dataSource = (List.range stream.length).flatMap fun k =>
        ((s.dataSource.content full k).map RecordBatch.rows).getD []) : s.Delivers content := by
  refine ⟨fun stream b hscan hb => ?_, fun stream rows hscan hrows => ?_⟩
  · obtain ⟨k, hk⟩ := List.mem_iff_getElem?.mp hb
    obtain ⟨hselect, -⟩ := hlaid stream hscan k b hk
    rw [s.select_schema hfull hne] at hselect
    exact (Except.ok.inj hselect).symm
  · simp only [LogicalPlan.denote, hfull, Outcome.ok_bind, if_neg (show ¬ s.projection.isEmpty by
      simpa using hne)] at hrows
    obtain ⟨positions, hpositions, rfl⟩ := Outcome.bind_pure_eq_ok_iff.mp hrows
    have hlength : (rowChunks stream).length = stream.length := List.length_map _
    rw [hcontent stream hscan, List.map_flatMap, ← hlength]
    refine Chunks.cuts_of_getElem? fun k xs hk => ?_
    rw [rowChunks, List.getElem?_map, Option.map_eq_some_iff] at hk
    obtain ⟨item, hitem, hxs⟩ := hk
    obtain ⟨b, rfl, rfl⟩ := Outcome.map_eq_ok_iff.mp hxs
    obtain ⟨-, batch, idx, hbatch, hidx, hgathers⟩ := hlaid stream hscan k b hitem
    obtain rfl := Except.ok.inj (hidx.symm.trans hpositions)
    rw [hbatch, hgathers.rows_eq]
    rfl

/-- A table in memory with distinct column names delivers its rows. -/
theorem InMemoryDataSource.delivers {m : InMemoryDataSource} (hm : m.schema.DistinctNames)
    {s : Scan} (hs : s.dataSource = .inMemory m) {content : Content}
    (hcontent : content.rows (.inMemory m) = rowsOf m.data) : s.Delivers content := by
  have hfull : s.dataSource.schema = .ok m.schema := by
    rw [hs]
    rfl
  by_cases hne : s.projection = []
  · have hderived := s.derived
    rw [Scan.deriveSchema, hfull, Outcome.ok_bind, hne] at hderived
    have hscan : s.dataSource.scan s.projection = .ok (m.data.map .ok) := by
      rw [hs, hne]
      rfl
    refine ⟨fun stream b hstream hb => ?_, fun stream rows hstream hrows => ?_⟩
    · obtain rfl := Except.ok.inj (hscan.symm.trans hstream)
      have hb : b ∈ m.data := by simpa using hb
      rw [m.conforms b hb]
      exact Except.ok.inj hderived
    · obtain rfl := Except.ok.inj (hscan.symm.trans hstream)
      rw [LogicalPlan.denote, hfull, Outcome.ok_bind, hne] at hrows
      obtain rfl : content.rows s.dataSource = rows := Except.ok.inj hrows
      rw [hs, hcontent, rowChunks_map_ok, rowsOf, List.flatMap_def]
      exact Chunks.cuts_map_ok _
  · obtain ⟨idx, hidx⟩ := Schema.resolve_succeeds_iff.mpr
      (hm.select_succeeds_iff.mp ⟨_, s.select_schema hfull hne⟩)
    refine s.delivers_of_laidOut hfull hne (fun stream hscan k b hb => ?_) fun stream hscan => ?_
    · rw [hs] at hscan ⊢
      exact DataSource.inMemory_scan_laidOut hm hne hidx hscan hb
    · rw [hs] at hscan ⊢
      obtain ⟨out, hout, hall⟩ := m.scan_eq_ok hm hne hidx
      obtain rfl := Except.ok.inj (hscan.symm.trans hout)
      rw [hcontent, List.length_map, ← hall.length_eq, rowsOf, Chunks.flatMap_eq_range]
      rfl

/-- So does a CSV file, of which columns are asked for. -/
theorem CsvDataSource.delivers (doc : R.Documented) {c : CsvDataSource} {full : Schema}
    (hc : c.schema = .ok full) (hdistinct : full.DistinctNames) {s : Scan}
    (hs : s.dataSource = .csv c) (hne : s.projection ≠ []) {content : Content}
    (hcontent : ∀ stream, c.scan s.projection = .ok stream → content.rows (.csv c) =
      (List.range stream.length).flatMap fun k => (Readers.csvContent (c.format full) k).rows) :
    s.Delivers content := by
  have hfull : s.dataSource.schema = .ok full := by
    rw [hs]
    exact hc
  obtain ⟨idx, hidx⟩ := Schema.resolve_succeeds_iff.mpr
    (hdistinct.select_succeeds_iff.mp ⟨_, s.select_schema hfull hne⟩)
  refine s.delivers_of_laidOut hfull hne (fun stream hscan k b hb => ?_) fun stream hscan => ?_
  · rw [hs] at hscan ⊢
    exact DataSource.csv_scan_laidOut doc hc hdistinct hne hidx hscan hb
  · rw [hs] at hscan ⊢
    exact hcontent stream hscan

/-! ## Schemas of the batches -/

omit [Readers] [Runtime] in
/-- A batch that a limit had to cut is rebuilt under a schema with columns. -/
theorem mem_limitStream_cut {schema : Schema} {n : ℕ} {stream : BatchStream} {b : RecordBatch}
    (h : .ok b ∈ limitStream schema n stream) :
    .ok b ∈ stream ∨ b.schema = schema ∧ schema.fields ≠ [] ∧ ∃ c, .ok c ∈ stream := by
  induction stream generalizing n with
  | nil => simp [limitStream] at h
  | cons item rest ih =>
    cases item with
    | error e => simp [limitStream] at h
    | ok c =>
      cases n with
      | zero => simp [limitStream] at h
      | succ n =>
        have htail : ∀ {k}, .ok b ∈ limitStream schema k rest →
            .ok b ∈ .ok c :: rest ∨ b.schema = schema ∧ schema.fields ≠ [] ∧
              ∃ d, .ok d ∈ .ok c :: rest := by
          intro k hk
          refine (ih hk).imp (List.mem_cons_of_mem _) ?_
          rintro ⟨hschema, hne, d, hd⟩
          exact ⟨hschema, hne, d, List.mem_cons_of_mem _ hd⟩
        rw [limitStream] at h
        -- A batch is passed on whole as long as the budget covers it.
        by_cases hle : c.numRows ≤ n + 1
        · rw [if_pos hle] at h
          rcases List.mem_cons.mp h with h | h
          · exact .inl (h ▸ List.mem_cons_self)
          · exact htail h
        · rw [if_neg hle] at h
          rcases List.mem_cons.mp h with h | h
          · obtain ⟨hschema, -, hne, -⟩ := (truncate_eq_ok_iff (by omega)).mp h.symm
            exact .inr ⟨hschema, hne, c, List.mem_cons_self⟩
          · exact htail h

/-- The batches of a lowered plan are of the schema of the plan, which they have in full even where
the lowered plan declares no columns. -/
theorem execute_schema {content : Content} {P : LogicalPlan} {plan : PhysicalPlan}
    (h : createPhysicalPlan P = .ok plan) (hdelivers : P.Delivers content) {ctx : ExecutorContext}
    {stream : BatchStream} (hstream : plan.execute ctx = .ok stream) {b : RecordBatch}
    (hb : .ok b ∈ stream) : P.schema = .ok b.schema := by
  induction P generalizing plan stream b with
  | scan s =>
    cases h
    exact congrArg Except.ok (hdelivers.schema_eq stream b hstream hb).symm
  | projection input expr ih =>
    have hdeclared := (createPhysicalPlan_schema_iff h).mpr id
    obtain ⟨sub, -, h⟩ := Outcome.bind_eq_ok_iff.mp h
    obtain ⟨es, -, h⟩ := Outcome.bind_eq_ok_iff.mp h
    obtain ⟨fields, -, rfl⟩ := Outcome.bind_pure_eq_ok_iff.mp h
    obtain ⟨source, -, rfl⟩ := Outcome.bind_pure_eq_ok_iff.mp hstream
    obtain ⟨item, -, hitem⟩ := List.mem_map.mp hb
    obtain ⟨c, -, hc⟩ := Outcome.bind_eq_ok_iff.mp hitem
    rw [← hdeclared, (projectBatch_ok hc).1]
    rfl
  | selection input expr ih =>
    obtain ⟨sub, hsub, h⟩ := Outcome.bind_eq_ok_iff.mp h
    obtain ⟨e, -, rfl⟩ := Outcome.bind_pure_eq_ok_iff.mp h
    obtain ⟨schema, hschema, hstream⟩ := Outcome.bind_eq_ok_iff.mp hstream
    obtain ⟨source, hsource, rfl⟩ := Outcome.bind_pure_eq_ok_iff.mp hstream
    obtain ⟨item, hitem, hfilter⟩ := List.mem_map.mp hb
    obtain ⟨c, rfl, hc⟩ := Outcome.bind_eq_ok_iff.mp hfilter
    obtain ⟨-, -, -, hout, -, hne, -⟩ := filterBatch_eq_ok_iff.mp hc
    have ht : input.schema = .ok c.schema := ih hsub hdelivers hsource hitem
    obtain ⟨s', hs', himplicit, hdeclared⟩ := declared_schema hsub ht
    obtain rfl : schema = s' := Except.ok.inj (hschema.symm.trans hs')
    -- A batch cannot be rebuilt under a schema without columns.
    have hnot : ¬ input.ReadsAllImplicitly := fun hi => hne (himplicit hi).1
    rw [hout, hdeclared hnot]
    exact ht
  | limit input n ih =>
    obtain ⟨sub, hsub, rfl⟩ := Outcome.bind_pure_eq_ok_iff.mp h
    obtain ⟨schema, hschema, hstream⟩ := Outcome.bind_eq_ok_iff.mp hstream
    obtain ⟨source, hsource, rfl⟩ := Outcome.bind_pure_eq_ok_iff.mp hstream
    rcases mem_limitStream_cut hb with hb | ⟨hout, hne, c, hc⟩
    · exact ih hsub hdelivers hsource hb
    · have ht : input.schema = .ok c.schema := ih hsub hdelivers hsource hc
      obtain ⟨s', hs', himplicit, hdeclared⟩ := declared_schema hsub ht
      obtain rfl : schema = s' := Except.ok.inj (hschema.symm.trans hs')
      have hnot : ¬ input.ReadsAllImplicitly := fun hi => hne (himplicit hi).1
      rw [hout, hdeclared hnot]
      exact ht
  | aggregate input groupExpr aggregateExpr ih =>
    have hdeclared := (createPhysicalPlan_schema_iff h).mpr id
    obtain ⟨sub, -, h⟩ := Outcome.bind_eq_ok_iff.mp h
    obtain ⟨group, -, h⟩ := Outcome.bind_eq_ok_iff.mp h
    obtain ⟨aggregate, -, h⟩ := Outcome.bind_eq_ok_iff.mp h
    obtain ⟨schema, -, rfl⟩ := Outcome.bind_pure_eq_ok_iff.mp h
    obtain ⟨source, -, hstream⟩ := Outcome.bind_eq_ok_iff.mp hstream
    obtain ⟨out, hout, rfl⟩ := Outcome.bind_pure_eq_ok_iff.mp hstream
    obtain rfl : b = out := by simpa using hb
    obtain ⟨_, _, _, _, -, -, -, -, hbuild⟩ := HashAggregate.run_eq_ok_iff.mp hout
    rw [← hdeclared, (buildRows_rows hbuild).1]
    rfl
  | join left right joinType on ihl ihr =>
    have hdeclared := (createPhysicalPlan_schema_iff h).mpr id
    obtain ⟨lp, -, h⟩ := Outcome.bind_eq_ok_iff.mp h
    obtain ⟨rp, -, h⟩ := Outcome.bind_eq_ok_iff.mp h
    obtain ⟨ls, -, h⟩ := Outcome.bind_eq_ok_iff.mp h
    obtain ⟨rs, -, h⟩ := Outcome.bind_eq_ok_iff.mp h
    obtain ⟨lk, -, h⟩ := Outcome.bind_eq_ok_iff.mp h
    obtain ⟨rk, -, h⟩ := Outcome.bind_eq_ok_iff.mp h
    obtain ⟨schema, -, rfl⟩ := Outcome.bind_pure_eq_ok_iff.mp h
    obtain ⟨l, -, hstream⟩ := Outcome.bind_eq_ok_iff.mp hstream
    obtain ⟨r, -, hstream⟩ := Outcome.bind_eq_ok_iff.mp hstream
    obtain ⟨lb, rb, ob, rs, -, -, rfl, -, hout, -⟩ := HashJoin.run_ok hstream
    have hb : b ∈ ob := by simpa using hb
    rw [← hdeclared, hout b hb]
    rfl

/-- The batches of a plan are of the types of its schema. -/
theorem execute_ofTypes {content : Content} {P : LogicalPlan} {plan : PhysicalPlan}
    (h : createPhysicalPlan P = .ok plan) (hdelivers : P.Delivers content) {ctx : ExecutorContext}
    {stream : BatchStream} (hstream : plan.execute ctx = .ok stream) {schema : Schema}
    (hschema : P.schema = .ok schema) : OfTypes schema.types stream := by
  intro b hb
  have hdeclared := execute_schema h hdelivers hstream hb
  rw [hschema, Except.ok.injEq] at hdeclared
  rw [b.types_eq_schema, hdeclared]

/-! ## Rows in order -/

omit [Readers] in
/-- Each row is projected to one row. -/
theorem projectRow_mapM {types : List DataType} {exprs : List Expression} {rows out : List Row}
    (h : (rows.mapM fun r => exprs.mapM fun e => e.evalCell types r) = .ok out) :
    rows.mapM (projectRow types exprs) = .ok (out.map fun r => [r]) := by
  unfold projectRow
  rw [Outcome.mapM_bind_pure, h]
  rfl

/-- The lowered projection works on the rows as the projection does. -/
theorem projection_traverses {content : Content} {input : LogicalPlan} {sub : PhysicalPlan}
    (hsub : createPhysicalPlan input = .ok sub) (hdelivers : input.Delivers content)
    {ctx : ExecutorContext} {source : BatchStream} (hsource : sub.execute ctx = .ok source)
    {schema : Schema} (hschema : input.schema = .ok schema) (out : Schema) (es : List Expression) :
    Chunks.Traverses (projectRow schema.types es) (rowChunks source)
      (rowChunks (source.map fun item => do projectBatch out es (← item))) :=
  traverses_map (fun _ _ => projectBatch_traverses) (execute_ofTypes hsub hdelivers hsource hschema)

/-- A selection filters its input batch by batch. -/
theorem selection_traverses {content : Content} {input : LogicalPlan} {sub : PhysicalPlan}
    (hsub : createPhysicalPlan input = .ok sub) (hdelivers : input.Delivers content)
    {ctx : ExecutorContext} {source : BatchStream} (hsource : sub.execute ctx = .ok source)
    {schema : Schema} (hschema : input.schema = .ok schema) (out : Schema) (e : Expression) :
    Chunks.Traverses (filterRow schema.types e) (rowChunks source)
      (rowChunks (source.map fun item => do filterBatch out e (← item))) :=
  traverses_map (fun _ _ => filterBatch_traverses) (execute_ofTypes hsub hdelivers hsource hschema)

omit [Readers] [Runtime] in
/-- Batches that cut rows have these rows. -/
theorem rowsOf_of_cuts {rows : List Row} {batches : List RecordBatch}
    (h : Chunks.Cuts rows (rowChunks (batches.map .ok))) : rows = rowsOf batches := by
  rw [rowChunks_map_ok] at h
  rw [rowsOf, List.flatMap_def, h.eq_flatten]

omit [Runtime] in
/-- A join is lowered to a hash join. -/
theorem hashJoin_of_createPhysicalPlan {left right : LogicalPlan} {joinType : JoinType}
    {on : List (String × String)} {plan : PhysicalPlan}
    (h : createPhysicalPlan (.join left right joinType on) = .ok plan) :
    ∃ lp rp join, plan = .hashJoin lp rp join := by
  obtain ⟨lp, -, h⟩ := Outcome.bind_eq_ok_iff.mp h
  obtain ⟨rp, -, h⟩ := Outcome.bind_eq_ok_iff.mp h
  obtain ⟨_, -, h⟩ := Outcome.bind_eq_ok_iff.mp h
  obtain ⟨_, -, h⟩ := Outcome.bind_eq_ok_iff.mp h
  obtain ⟨_, -, h⟩ := Outcome.bind_eq_ok_iff.mp h
  obtain ⟨_, -, h⟩ := Outcome.bind_eq_ok_iff.mp h
  obtain ⟨_, -, rfl⟩ := Outcome.bind_pure_eq_ok_iff.mp h
  exact ⟨lp, rp, _, rfl⟩

/-- A join pulls both sides to their ends. -/
theorem join_execute {left right : LogicalPlan} {joinType : JoinType} {on : List (String × String)}
    {plan : PhysicalPlan} (h : createPhysicalPlan (.join left right joinType on) = .ok plan)
    {ls rs : Schema} (hls : left.schema = .ok ls) (hrs : right.schema = .ok rs)
    {ctx : ExecutorContext} {stream : BatchStream} (hstream : plan.execute ctx = .ok stream) :
    ∃ lp rp join, ∃ lb rb ob : List RecordBatch, Lowers left right joinType on ls rs lp rp join ∧
      lp.execute ctx = .ok (lb.map .ok) ∧ rp.execute ctx = .ok (rb.map .ok) ∧
      stream = ob.map .ok ∧
      join.run lp.schema rp.schema (lb.map .ok) (rb.map .ok) = .ok (ob.map .ok) := by
  obtain ⟨lp, rp, join, rfl⟩ := hashJoin_of_createPhysicalPlan h
  obtain ⟨l, hl, hstream⟩ := Outcome.bind_eq_ok_iff.mp hstream
  obtain ⟨r, hr, hstream⟩ := Outcome.bind_eq_ok_iff.mp hstream
  obtain ⟨lb, rb, ob, -, rfl, rfl, rfl, -⟩ := HashJoin.run_ok hstream
  exact ⟨lp, rp, join, lb, rb, ob, lowers_of_createPhysicalPlan h hls hrs, hl, hr, rfl, hstream⟩

/-- The rows of an aligned join that is not a right join are those of the relational join, in its
order. -/
theorem run_rows_in_order {left right : LogicalPlan} {joinType : JoinType}
    {on : List (String × String)} {ls rs : Schema} {lp rp : PhysicalPlan} {join : HashJoin}
    (h : Lowers left right joinType on ls rs lp rp join)
    (ha : left.JoinAligns right joinType on ls rs) (hright : joinType ≠ .right)
    {lb rb ob : List RecordBatch} (hlb : ∀ b ∈ lb, b.schema = ls) (hrb : ∀ b ∈ rb, b.schema = rs)
    (hrun : join.run lp.schema rp.schema (lb.map .ok) (rb.map .ok) = .ok (ob.map .ok)) :
    rowsOf ob = joinRows joinType on ls rs (cellsAt join.leftKeys) (cellsAt join.rightKeys)
      (rowsOf lb) (rowsOf rb) := by
  obtain ⟨lschema, hlp, -⟩ := declared_schema h.left_eq h.left_schema
  obtain ⟨lb', rb', ob', rschema, hlb', hrb', hob', hrp, -, hrows⟩ := HashJoin.run_ok hrun
  obtain rfl := Outcome.map_ok_injective hlb'
  obtain rfl := Outcome.map_ok_injective hrb'
  obtain rfl := Outcome.map_ok_injective hob'
  have hL := rowsOf_length hlb
  have hR := rowsOf_length hrb
  have hjoins := joins_eq_joinRows h ha hlp hrp hL hR
  have hout : join.outputRows lschema.fields.length rschema.fields.length (rowsOf lb) (rowsOf rb) =
      joinRows joinType on ls rs (cellsAt join.leftKeys) (cellsAt join.rightKeys) (rowsOf lb)
        (rowsOf rb) := by
    rw [h.joinType_eq] at hjoins
    cases joinType with
    | inner =>
      rw [HashJoin.outputRows, h.joinType_eq, if_neg (by decide), List.append_nil,
        HashJoin.probeRows_inner (by rw [h.joinType_eq]; decide)]
      exact hjoins
    | left =>
      rw [HashJoin.outputRows, h.joinType_eq, if_neg (by decide), List.append_nil,
        HashJoin.probeRows_left h.joinType_eq]
      exact hjoins
    | right => exact absurd rfl hright
  have hcells : ∀ row ∈ joinRows joinType on ls rs (cellsAt join.leftKeys) (cellsAt join.rightKeys)
      (rowsOf lb) (rowsOf rb), (!row.isEmpty) = true := by
    intro row hrow
    have hlen := joinRows_length (fun l hl => (hL l hl).length_eq_fields)
      (fun r hr => (hR r hr).length_eq_fields) row hrow
    have hne : join.schema.fields ≠ [] := fun hnil => by
      obtain ⟨hls, hrs⟩ := h.fields_eq_nil_iff.mp hnil
      exact ha.nonempty.elim (· hls) (· hrs)
    rw [h.schema_eq, ← List.length_pos_iff, ← hlen] at hne
    simpa using List.length_pos_iff.mp hne
  rw [hlp] at hrows
  rw [hrows, ← List.filter_eq_self.mpr hcells, ← hout]
  rfl

/-- The stream of a lowered plan cuts the rows that the plan denotes. -/
theorem execute_cuts {content : Content} {P : LogicalPlan} (horder : P.InOrder)
    (halign : P.JoinsAlign) (hdelivers : P.Delivers content) {plan : PhysicalPlan}
    (h : createPhysicalPlan P = .ok plan) {ctx : ExecutorContext} {stream : BatchStream}
    (hstream : plan.execute ctx = .ok stream) {rows : List Row}
    (hrows : P.denote content = .ok rows) : Chunks.Cuts rows (rowChunks stream) := by
  -- The induction is on the plan. Each operator takes the chunks of its input to chunks of its own
  -- rows.
  induction P generalizing plan stream rows with
  | scan s =>
    cases h
    exact hdelivers.cuts stream rows hstream hrows
  | projection input expr ih =>
    obtain ⟨schema, hschema, hrows⟩ := Outcome.bind_eq_ok_iff.mp hrows
    obtain ⟨es, hes, hrows⟩ := Outcome.bind_eq_ok_iff.mp hrows
    obtain ⟨rows', hrows', hrows⟩ := Outcome.bind_eq_ok_iff.mp hrows
    rw [createPhysicalPlan, hschema, hes] at h
    obtain ⟨sub, hsub, h⟩ := Outcome.bind_eq_ok_iff.mp h
    obtain ⟨fields, -, rfl⟩ := Outcome.bind_pure_eq_ok_iff.mp h
    obtain ⟨source, hsource, rfl⟩ := Outcome.bind_pure_eq_ok_iff.mp hstream
    have hcut := ih horder halign hdelivers hsub hsource hrows'
    rw [← List.flatMap_singleton' rows, List.flatMap_def]
    exact hcut.traverse_of_mapM
      (projection_traverses hsub hdelivers hsource hschema ⟨fields⟩ es) (projectRow_mapM hrows)
  | selection input expr ih =>
    obtain ⟨schema, hschema, hrows⟩ := Outcome.bind_eq_ok_iff.mp hrows
    obtain ⟨e, he, hrows⟩ := Outcome.bind_eq_ok_iff.mp hrows
    obtain ⟨rows', hrows', hrows⟩ := Outcome.bind_eq_ok_iff.mp hrows
    obtain ⟨cells, hcells, rfl⟩ := Outcome.bind_pure_eq_ok_iff.mp hrows
    rw [createPhysicalPlan, hschema, he] at h
    obtain ⟨sub, hsub, rfl⟩ := Outcome.bind_pure_eq_ok_iff.mp h
    obtain ⟨out, -, hstream⟩ := Outcome.bind_eq_ok_iff.mp hstream
    obtain ⟨source, hsource, rfl⟩ := Outcome.bind_pure_eq_ok_iff.mp hstream
    have hcut := ih horder halign hdelivers hsub hsource hrows'
    rw [keepTrue_eq_flatten]
    exact hcut.traverse_of_mapM (selection_traverses hsub hdelivers hsource hschema out e)
      (filterRow_mapM hcells)
  -- The limit cuts the rows off where it cuts the chunks off.
  | limit input n ih =>
    obtain ⟨rows', hrows', rfl⟩ := Outcome.bind_pure_eq_ok_iff.mp hrows
    obtain ⟨sub, hsub, rfl⟩ := Outcome.bind_pure_eq_ok_iff.mp h
    obtain ⟨schema, -, hstream⟩ := Outcome.bind_eq_ok_iff.mp hstream
    obtain ⟨source, hsource, rfl⟩ := Outcome.bind_pure_eq_ok_iff.mp hstream
    exact cuts_limitStream (ih horder halign hdelivers hsub hsource hrows')
  | aggregate input groupExpr aggregateExpr ih => exact horder.elim
  -- A join reads all of both sides and yields one chunk.
  | join left right joinType on ihl ihr =>
    obtain ⟨ls, hls, hrows⟩ := Outcome.bind_eq_ok_iff.mp hrows
    obtain ⟨rs, hrs, hrows⟩ := Outcome.bind_eq_ok_iff.mp hrows
    obtain ⟨lk, hlk, hrows⟩ := Outcome.bind_eq_ok_iff.mp hrows
    obtain ⟨rk, hrk, hrows⟩ := Outcome.bind_eq_ok_iff.mp hrows
    obtain ⟨lrows, hlrows, hrows⟩ := Outcome.bind_eq_ok_iff.mp hrows
    obtain ⟨rrows, hrrows, rfl⟩ := Outcome.bind_pure_eq_ok_iff.mp hrows
    obtain ⟨lp, rp, join, lb, rb, ob, hlowers, hl, hr, rfl, hrun⟩ := join_execute h hls hrs hstream
    obtain rfl := Except.ok.inj (hlk.symm.trans hlowers.leftKeys_eq)
    obtain rfl := Except.ok.inj (hrk.symm.trans hlowers.rightKeys_eq)
    obtain rfl := rowsOf_of_cuts
      (ihl horder.2.1 halign.1 hdelivers.1 hlowers.left_eq hl hlrows)
    obtain rfl := rowsOf_of_cuts
      (ihr horder.2.2 halign.2.1 hdelivers.2 hlowers.right_eq hr hrrows)
    have hlb : ∀ b ∈ lb, b.schema = ls := fun b hb => Except.ok.inj
      ((execute_schema hlowers.left_eq hdelivers.1 hl (List.mem_map_of_mem hb)).symm.trans hls)
    have hrb : ∀ b ∈ rb, b.schema = rs := fun b hb => Except.ok.inj
      ((execute_schema hlowers.right_eq hdelivers.2 hr (List.mem_map_of_mem hb)).symm.trans hrs)
    rw [← run_rows_in_order hlowers (halign.2.2 ls rs hls hrs) horder.1 hlb hrb hrun,
      rowChunks_map_ok, rowsOf, List.flatMap_def]
    exact Chunks.cuts_map_ok _

/-! ## Rows up to their order -/

omit [Readers] [Runtime] in
/-- Sides in another order have their joined rows in another order. -/
theorem joinRows_perm (joinType : JoinType) (on : List (String × String)) (ls rs : Schema)
    (keyL keyR : Row → List ScalarValue) {L L' R R' : List Row} (hL : L.Perm L') (hR : R.Perm R') :
    (joinRows joinType on ls rs keyL keyR L R).Perm
      (joinRows joinType on ls rs keyL keyR L' R') := by
  cases joinType with
  | inner => exact Joins.inner_perm hL hR
  | left => exact Joins.left_perm hL hR
  | right => exact Joins.right_perm hL hR

omit [Readers] in
/-- The rows of an executed aggregation are those of the groups of any rows that its input is a
permutation of, or is, where the order matters. -/
theorem aggregate_answers {agg : HashAggregate} (hagg : agg.WellFormed) {schema : Schema}
    {cs : List RecordBatch} {out : RecordBatch} (hcs : ∀ b ∈ cs, b.types = schema.types)
    (hout : agg.run .completeMode (cs.map .ok) = .ok out) {rows : List Row}
    (hperm : (rowsOf cs).Perm rows)
    (horder : rowsOf cs = rows ∨
      (∀ a ∈ agg.aggregateExpr, a.function ≠ .avg) ∧ agg.ExactArguments schema) :
    ∃ items rows', rows.mapM (agg.readItem schema.types) = .ok items ∧
      agg.outputRows .completeMode items = .ok rows' ∧ out.rows.Perm rows' := by
  obtain ⟨batches, items, rows', hbatches, hitems, hrows', -, -, hout⟩ :=
    HashAggregate.run_ok hagg hout
  rw [Outcome.mapM_id_map_ok, Except.ok.injEq] at hbatches
  subst hbatches
  have hread : (rowsOf cs).mapM (agg.readItem schema.types) = .ok items.flatten :=
    HashAggregate.readBatches_of_types hcs hitems
  rcases horder with rfl | ⟨havg, hexact⟩
  · exact ⟨items.flatten, rows', hread, hrows', hout⟩
  · obtain ⟨items', hitems', hitemsperm⟩ := Outcome.mapM_perm hperm hread
    obtain ⟨rows'', hrows'', hrowsperm⟩ := HashAggregate.outputRows_perm hitemsperm
      (fun x hx => (HashAggregate.readBatches_lengths hitems x hx).2)
      (fun x hx v hv => by
        obtain ⟨xs, hxs, hx⟩ := List.mem_flatten.mp hx
        obtain ⟨b, hb, hbx⟩ := Outcome.mapM_mem hitems hxs
        exact HashAggregate.readBatch_exact hexact (hcs b hb) hbx x hx v hv) havg hrows'
    exact ⟨items', rows'', hitems', hrows'', hout.trans hrowsperm⟩

omit [Runtime] in
/-- Aggregates that do not depend on the order of the rows are lowered to such aggregates. -/
theorem LogicalPlan.OrderFree.lowered {input : LogicalPlan} {aggregateExpr : List AggregateExpr}
    (hfree : input.OrderFree aggregateExpr) {schema : Schema} (hschema : input.schema = .ok schema)
    {aggregate : List AggregateExpression}
    (h : aggregateExpr.mapM (createAggregateExpr (.ok schema)) = .ok aggregate)
    (group : List Expression) (out : Schema) :
    (∀ a ∈ aggregate, a.function ≠ .avg) ∧
      HashAggregate.ExactArguments ⟨group, aggregate, out⟩ schema := by
  have hexact : ∀ a ∈ aggregate, a.function ≠ .avg ∧
      ∀ t, a.inputExpression.dataType schema.types = .ok t → t.isFloat = false := by
    intro a ha
    obtain ⟨a', ha', hlower⟩ := Outcome.mapM_mem h ha
    obtain ⟨hargument, havg⟩ := createAggregateExpr_ok hlower
    exact ⟨fun h => (hfree a' ha').1 (havg h), fun t ht =>
      (hfree a' ha').2 schema _ t hschema hargument ht⟩
  exact ⟨fun a ha => (hexact a ha).1, fun a ha => (hexact a ha).2⟩

/-- A scan always denotes rows. -/
theorem denote_scan_succeeds (s : Scan) (content : Content) :
    Outcome.Succeeds ((LogicalPlan.scan s).denote content) := by
  obtain ⟨full, hfull, hderive⟩ := Outcome.bind_eq_ok_iff.mp s.derived
  simp only [LogicalPlan.denote, hfull, Outcome.ok_bind]
  by_cases hemp : s.projection.isEmpty
  · rw [if_pos hemp]
    exact ⟨_, rfl⟩
  · rw [if_neg hemp] at hderive ⊢
    obtain ⟨fields, hfields, -⟩ := Outcome.bind_pure_eq_ok_iff.mp hderive
    obtain ⟨positions, hpositions⟩ := Schema.resolve_succeeds_iff.mpr fun name hname => by
      obtain ⟨f, -, hf⟩ := Outcome.mapM_mem_left hfields hname
      obtain ⟨rfl, hmem⟩ := Schema.selectField_name hf
      exact List.mem_map_of_mem hmem
    exact ⟨_, by rw [hpositions]; rfl⟩

/-- The rows of the batches of a lowered plan are those that the plan denotes, up to their order. A
limit may hide rows that cannot be computed. -/
theorem execute_answers {content : Content} {P : LogicalPlan} (hsettled : P.Settled)
    (halign : P.JoinsAlign) (hdelivers : P.Delivers content) {plan : PhysicalPlan}
    (h : createPhysicalPlan P = .ok plan) {ctx : ExecutorContext} {batches : List RecordBatch}
    (hbatches : plan.execute ctx = .ok (batches.map .ok))
    (hrows : P.LimitFree ∨ Outcome.Succeeds (P.denote content)) :
    ∃ rows, P.denote content = .ok rows ∧ (rowsOf batches).Perm rows := by
  -- The induction is on the plan; above an aggregate or a join only the multiset of the rows is
  -- known.
  induction P generalizing plan batches with
  | scan s =>
    obtain ⟨rows, hrows⟩ := denote_scan_succeeds s content
    have hcut := execute_cuts (P := .scan s) trivial trivial hdelivers h hbatches hrows
    exact ⟨rows, hrows, .of_eq (rowsOf_of_cuts hcut).symm⟩
  | projection input expr ih =>
    -- A projection has a denotation only where its input has one.
    have hinput : input.LimitFree ∨ Outcome.Succeeds (input.denote content) := by
      refine hrows.imp id ?_
      rintro ⟨rows, hrows⟩
      obtain ⟨_, -, hrows⟩ := Outcome.bind_eq_ok_iff.mp hrows
      obtain ⟨_, -, hrows⟩ := Outcome.bind_eq_ok_iff.mp hrows
      obtain ⟨rows', hrows', -⟩ := Outcome.bind_eq_ok_iff.mp hrows
      exact ⟨rows', hrows'⟩
    obtain ⟨sub, hsub, h⟩ := Outcome.bind_eq_ok_iff.mp h
    obtain ⟨es, hes, h⟩ := Outcome.bind_eq_ok_iff.mp h
    obtain ⟨fields, -, rfl⟩ := Outcome.bind_pure_eq_ok_iff.mp h
    obtain ⟨source, hsource, hmap⟩ := Outcome.bind_pure_eq_ok_iff.mp hbatches
    obtain ⟨schema, hschema⟩ := schema_of_createPhysicalPlan hsub
    have htraverses := projection_traverses hsub hdelivers hsource hschema ⟨fields⟩ es
    rw [← hmap] at htraverses
    obtain ⟨cs, yss, rfl, hyss, hbatches⟩ := rowsOf_of_traverses htraverses
    obtain ⟨rows, hrows, hperm⟩ := ih hsettled halign hdelivers hsub hsource hinput
    -- Projecting rows one by one, a permutation of them projects to a permutation.
    obtain ⟨zss, hzss, hperm⟩ := Outcome.mapM_perm hperm hyss
    unfold projectRow at hzss
    rw [Outcome.mapM_bind_pure] at hzss
    obtain ⟨out, hout, rfl⟩ := Outcome.bind_pure_eq_ok_iff.mp hzss
    refine ⟨out, ?_, ?_⟩
    · rw [hschema] at hes
      simp only [LogicalPlan.denote, hschema, hes, hrows, Outcome.ok_bind, hout]
    · rw [hbatches, ← List.flatMap_singleton' out, List.flatMap_def]
      exact hperm.flatten
  | selection input expr ih =>
    have hinput : input.LimitFree ∨ Outcome.Succeeds (input.denote content) := by
      refine hrows.imp id ?_
      rintro ⟨rows, hrows⟩
      obtain ⟨_, -, hrows⟩ := Outcome.bind_eq_ok_iff.mp hrows
      obtain ⟨_, -, hrows⟩ := Outcome.bind_eq_ok_iff.mp hrows
      obtain ⟨rows', hrows', -⟩ := Outcome.bind_eq_ok_iff.mp hrows
      exact ⟨rows', hrows'⟩
    obtain ⟨sub, hsub, h⟩ := Outcome.bind_eq_ok_iff.mp h
    obtain ⟨e, he, rfl⟩ := Outcome.bind_pure_eq_ok_iff.mp h
    obtain ⟨declared, -, hbatches⟩ := Outcome.bind_eq_ok_iff.mp hbatches
    obtain ⟨source, hsource, hmap⟩ := Outcome.bind_pure_eq_ok_iff.mp hbatches
    obtain ⟨schema, hschema⟩ := schema_of_createPhysicalPlan hsub
    have htraverses := selection_traverses hsub hdelivers hsource hschema declared e
    rw [← hmap] at htraverses
    obtain ⟨cs, yss, rfl, hyss, hbatches⟩ := rowsOf_of_traverses htraverses
    obtain ⟨rows, hrows, hperm⟩ := ih hsettled halign hdelivers hsub hsource hinput
    obtain ⟨zss, hzss, hperm⟩ := Outcome.mapM_perm hperm hyss
    obtain ⟨cells, hcells⟩ : Outcome.Succeeds (rows.mapM (e.evalCell schema.types)) := by
      rw [Outcome.mapM_succeeds_iff]
      intro r hr
      obtain ⟨_, -, hfilter⟩ := Outcome.mapM_mem_left hzss hr
      obtain ⟨cell, hcell, -⟩ := Outcome.bind_eq_ok_iff.mp hfilter
      exact ⟨cell, hcell⟩
    rw [filterRow_mapM hcells] at hzss
    refine ⟨keepTrue rows cells, ?_, ?_⟩
    · rw [hschema] at he
      simp only [LogicalPlan.denote, hschema, he, hrows, Outcome.ok_bind, hcells]
      rfl
    · rw [hbatches, keepTrue_eq_flatten, Except.ok.inj hzss]
      exact hperm.flatten
  -- A limit stands over plans that run in order, so it takes the same rows.
  | limit input n ih =>
    obtain ⟨rows, hrows⟩ := hrows.resolve_left id
    have hcut := execute_cuts (P := .limit input n) hsettled halign hdelivers h hbatches hrows
    exact ⟨rows, hrows, .of_eq (rowsOf_of_cuts hcut).symm⟩
  | aggregate input groupExpr aggregateExpr ih =>
    have hinput : input.LimitFree ∨ Outcome.Succeeds (input.denote content) := by
      refine hrows.imp id ?_
      rintro ⟨rows, hrows⟩
      obtain ⟨_, -, hrows⟩ := Outcome.bind_eq_ok_iff.mp hrows
      obtain ⟨_, -, hrows⟩ := Outcome.bind_eq_ok_iff.mp hrows
      obtain ⟨_, -, hrows⟩ := Outcome.bind_eq_ok_iff.mp hrows
      obtain ⟨_, -, hrows⟩ := Outcome.bind_eq_ok_iff.mp hrows
      obtain ⟨rows', hrows', -⟩ := Outcome.bind_eq_ok_iff.mp hrows
      exact ⟨rows', hrows'⟩
    obtain ⟨sub, hsub, h⟩ := Outcome.bind_eq_ok_iff.mp h
    obtain ⟨schema, hschema⟩ := schema_of_createPhysicalPlan hsub
    rw [hschema] at h
    obtain ⟨group, hgroup, h⟩ := Outcome.bind_eq_ok_iff.mp h
    obtain ⟨aggregate, haggregate, h⟩ := Outcome.bind_eq_ok_iff.mp h
    obtain ⟨out, hout, rfl⟩ := Outcome.bind_pure_eq_ok_iff.mp h
    obtain ⟨source, hsource, hbatches⟩ := Outcome.bind_eq_ok_iff.mp hbatches
    obtain ⟨b, hb, hbatches⟩ := Outcome.bind_pure_eq_ok_iff.mp hbatches
    obtain rfl : batches = [b] := Outcome.map_ok_injective hbatches
    obtain ⟨cs, -, -, -, hcs, -⟩ := HashAggregate.run_eq_ok_iff.mp hb
    obtain rfl := Outcome.mapM_id_eq_ok_iff.mp hcs
    obtain ⟨rows, hrows, hperm⟩ := ih hsettled.1 halign hdelivers hsub hsource hinput
    have htypes := ofTypes_map_ok.mp (execute_ofTypes hsub hdelivers hsource hschema)
    -- The values reach the accumulators in order, or in another order that no aggregate here can
    -- tell.
    have horder : rowsOf cs = rows ∨ (∀ a ∈ aggregate, a.function ≠ .avg) ∧
        HashAggregate.ExactArguments ⟨group, aggregate, out⟩ schema := by
      refine hsettled.2.imp (fun horder => ?_) fun hfree => ?_
      · exact (rowsOf_of_cuts (execute_cuts horder halign hdelivers hsub hsource hrows)).symm
      · exact hfree.lowered hschema haggregate group out
    have hagg : HashAggregate.WellFormed ⟨group, aggregate, out⟩ := by
      obtain ⟨groups, hgroups, hfields⟩ := Outcome.bind_eq_ok_iff.mp hout
      obtain ⟨aggregates, haggregates, rfl⟩ := Outcome.bind_pure_eq_ok_iff.mp hfields
      simp only [HashAggregate.WellFormed, List.length_append, Outcome.mapM_length hgroup,
        Outcome.mapM_length haggregate, Outcome.mapM_length hgroups,
        Outcome.mapM_length haggregates]
    obtain ⟨items, rows', hitems, hrows', hrowsperm⟩ :=
      aggregate_answers hagg htypes hb hperm horder
    refine ⟨rows', ?_, ?_⟩
    · simp only [LogicalPlan.denote, hschema, hgroup, haggregate, hout, hrows, hitems,
        Outcome.ok_bind, hrows']
    · rw [rowsOf, List.flatMap_singleton]
      exact hrowsperm
  | join left right joinType on ihl ihr =>
    have hinputs : (left.LimitFree ∨ Outcome.Succeeds (left.denote content)) ∧
        (right.LimitFree ∨ Outcome.Succeeds (right.denote content)) := by
      rcases hrows with hfree | ⟨rows, hrows⟩
      · exact ⟨.inl hfree.1, .inl hfree.2⟩
      · obtain ⟨_, -, hrows⟩ := Outcome.bind_eq_ok_iff.mp hrows
        obtain ⟨_, -, hrows⟩ := Outcome.bind_eq_ok_iff.mp hrows
        obtain ⟨_, -, hrows⟩ := Outcome.bind_eq_ok_iff.mp hrows
        obtain ⟨_, -, hrows⟩ := Outcome.bind_eq_ok_iff.mp hrows
        obtain ⟨lrows, hlrows, hrows⟩ := Outcome.bind_eq_ok_iff.mp hrows
        obtain ⟨rrows, hrrows, -⟩ := Outcome.bind_eq_ok_iff.mp hrows
        exact ⟨.inr ⟨lrows, hlrows⟩, .inr ⟨rrows, hrrows⟩⟩
    obtain ⟨⟨ls, hls⟩, ⟨rs, hrs⟩⟩ : Outcome.Succeeds left.schema ∧ Outcome.Succeeds right.schema := by
      obtain ⟨lp, hlp, h⟩ := Outcome.bind_eq_ok_iff.mp h
      obtain ⟨rp, hrp, -⟩ := Outcome.bind_eq_ok_iff.mp h
      exact ⟨schema_of_createPhysicalPlan hlp, schema_of_createPhysicalPlan hrp⟩
    obtain ⟨lp, rp, join, lb, rb, ob, hlowers, hl, hr, hob, hrun⟩ := join_execute h hls hrs hbatches
    obtain rfl := Outcome.map_ok_injective hob
    obtain ⟨lrows, hlrows, hlperm⟩ :=
      ihl hsettled.1 halign.1 hdelivers.1 hlowers.left_eq hl hinputs.1
    obtain ⟨rrows, hrrows, hrperm⟩ :=
      ihr hsettled.2 halign.2.1 hdelivers.2 hlowers.right_eq hr hinputs.2
    have hlb : ∀ b ∈ lb, b.schema = ls := fun b hb => Except.ok.inj
      ((execute_schema hlowers.left_eq hdelivers.1 hl (List.mem_map_of_mem hb)).symm.trans hls)
    have hrb : ∀ b ∈ rb, b.schema = rs := fun b hb => Except.ok.inj
      ((execute_schema hlowers.right_eq hdelivers.2 hr (List.mem_map_of_mem hb)).symm.trans hrs)
    -- The keys of both sides line up, so the hash join is the join of the rows.
    obtain ⟨ob', hrun', -, hjoin⟩ :=
      linesUp_of_aligns hlowers (halign.2.2 ls rs hls hrs) lb rb hlb hrb
    obtain rfl := Outcome.map_ok_injective (Except.ok.inj (hrun.symm.trans hrun'))
    rw [hlowers.joinType_eq] at hjoin
    refine ⟨_, ?_, hjoin.trans (joinRows_perm joinType on ls rs _ _ hlperm hrperm)⟩
    simp only [LogicalPlan.denote, hls, hrs, hlowers.leftKeys_eq, hlowers.rightKeys_eq, hlrows,
      hrrows, Outcome.ok_bind]
    rfl

/-! ## The pipeline -/

omit [Runtime] in
/-- The plans differ in the columns of their scans only. -/
inductive SameShape : LogicalPlan → LogicalPlan → Prop
  | scan (s s' : Scan) (hsource : s'.dataSource = s.dataSource) :
      SameShape (.scan s) (.scan s')
  | projection {input input' : LogicalPlan} (expr : List LogicalExpr)
      (h : SameShape input input') : SameShape (.projection input expr) (.projection input' expr)
  | selection {input input' : LogicalPlan} (expr : LogicalExpr) (h : SameShape input input') :
      SameShape (.selection input expr) (.selection input' expr)
  | aggregate {input input' : LogicalPlan} (groupExpr : List LogicalExpr)
      (aggregateExpr : List AggregateExpr) (h : SameShape input input') :
      SameShape (.aggregate input groupExpr aggregateExpr)
        (.aggregate input' groupExpr aggregateExpr)
  | join {left left' right right' : LogicalPlan} (joinType : JoinType)
      (on : List (String × String)) (hl : SameShape left left') (hr : SameShape right right') :
      SameShape (.join left right joinType on) (.join left' right' joinType on)
  | limit {input input' : LogicalPlan} (n : Int32) (h : SameShape input input') :
      SameShape (.limit input n) (.limit input' n)

omit [Runtime] in
/-- Whether maps are iterated over is a matter of the shape. -/
theorem SameShape.inOrder {P P' : LogicalPlan} (h : SameShape P P') (hP : P.InOrder) :
    P'.InOrder := by
  induction h with
  | scan s s' _ => trivial
  | projection expr _ ih => exact ih hP
  | selection expr _ ih => exact ih hP
  | aggregate groupExpr aggregateExpr _ ih => exact hP.elim
  | join joinType on _ _ ihl ihr => exact ⟨hP.1, ihl hP.2.1, ihr hP.2.2⟩
  | limit n _ ih => exact ih hP

omit [Runtime] in
/-- So it is whether there is a limit. -/
theorem SameShape.limitFree {P P' : LogicalPlan} (h : SameShape P P') (hP : P.LimitFree) :
    P'.LimitFree := by
  induction h with
  | scan s s' _ => trivial
  | projection expr _ ih => exact ih hP
  | selection expr _ ih => exact ih hP
  | aggregate groupExpr aggregateExpr _ ih => exact ih hP
  | join joinType on _ _ ihl ihr => exact ⟨ihl hP.1, ihr hP.2⟩
  | limit n _ ih => exact hP.elim

omit [Runtime] in
/-- Optimizing a plan changes the columns of its scans only. -/
theorem pushDown_sameShape {P P' : LogicalPlan} {names names' : Finset String}
    (h : pushDown P names = .ok (P', names')) : SameShape P P' := by
  -- The optimizer replaces nothing but the projections of scans.
  induction P generalizing P' names names' with
  | scan s =>
    obtain ⟨-, _, s', -, rfl, -, hsource, -⟩ := pushDown_scan.mp h
    exact .scan s s' hsource
  | projection input expr ih =>
    obtain ⟨_, -, h⟩ := Outcome.bind_eq_ok_iff.mp h
    obtain ⟨⟨input', _⟩, hinput, h⟩ := Outcome.bind_pure_eq_ok_iff.mp h
    obtain ⟨rfl, -⟩ := Prod.mk.inj h
    exact .projection expr (ih hinput)
  | selection input expr ih =>
    obtain ⟨_, -, h⟩ := Outcome.bind_eq_ok_iff.mp h
    obtain ⟨⟨input', _⟩, hinput, h⟩ := Outcome.bind_pure_eq_ok_iff.mp h
    obtain ⟨rfl, -⟩ := Prod.mk.inj h
    exact .selection expr (ih hinput)
  | aggregate input groupExpr aggregateExpr ih =>
    obtain ⟨_, -, h⟩ := Outcome.bind_eq_ok_iff.mp h
    obtain ⟨_, -, h⟩ := Outcome.bind_eq_ok_iff.mp h
    obtain ⟨⟨input', _⟩, hinput, h⟩ := Outcome.bind_pure_eq_ok_iff.mp h
    obtain ⟨rfl, -⟩ := Prod.mk.inj h
    exact .aggregate groupExpr aggregateExpr (ih hinput)
  | join left right joinType on ihl ihr =>
    obtain ⟨_, -, h⟩ := Outcome.bind_eq_ok_iff.mp h
    obtain ⟨⟨left', _⟩, hleft, h⟩ := Outcome.bind_eq_ok_iff.mp h
    obtain ⟨⟨right', _⟩, hright, h⟩ := Outcome.bind_pure_eq_ok_iff.mp h
    obtain ⟨rfl, -⟩ := Prod.mk.inj h
    exact .join joinType on (ihl hleft) (ihr hright)
  | limit input n ih =>
    obtain ⟨⟨input', _⟩, hinput, h⟩ := Outcome.bind_pure_eq_ok_iff.mp h
    obtain ⟨rfl, -⟩ := Prod.mk.inj h
    exact .limit n (ih hinput)

omit R [Runtime] in
/-- The rows of a source in memory. -/
def memoryRows : DataSource → List Row
  | .inMemory m => rowsOf m.data
  | _ => []

omit [Runtime] in
/-- The rows of a source in memory fit its schema. -/
theorem memoryRows_fit (ds : DataSource) (schema : Schema) (hschema : ds.schema = .ok schema) :
    ∀ r ∈ memoryRows ds, RowFits schema.types r := by
  cases ds with
  | inMemory m => exact Except.ok.inj hschema ▸ rowsOf_length m.conforms
  | _ => exact fun r hr => absurd hr List.not_mem_nil

/-- The rows of the sources in memory. -/
def memoryContent : Content := ⟨memoryRows, memoryRows_fit⟩

/-- Every source of the plan is in memory, with distinct column names. -/
def LogicalPlan.InMemory : LogicalPlan → Prop
  | .scan s => ∃ m : InMemoryDataSource, s.dataSource = .inMemory m ∧ m.schema.DistinctNames
  | .projection input _ => input.InMemory
  | .selection input _ => input.InMemory
  | .limit input _ => input.InMemory
  | .aggregate input _ _ => input.InMemory
  | .join left right _ _ => left.InMemory ∧ right.InMemory

/-- Sources in memory deliver their rows, whatever columns are read of them. -/
theorem SameShape.delivers {P P' : LogicalPlan} (h : SameShape P P') (hP : P.InMemory) :
    P'.Delivers memoryContent := by
  induction h with
  | scan s s' hsource =>
    obtain ⟨m, hm, hdistinct⟩ := hP
    exact InMemoryDataSource.delivers hdistinct (hsource.trans hm) rfl
  | projection expr _ ih => exact ih hP
  | selection expr _ ih => exact ih hP
  | aggregate groupExpr aggregateExpr _ ih => exact ih hP
  | join joinType on _ _ ihl ihr => exact ⟨ihl hP.1, ihr hP.2⟩
  | limit n _ ih => exact ih hP

/-- The batches that `ExecutionContext::execute` pulls for a plan hold the rows that it denotes. -/
theorem executePlan_answers {content : Content} {P P' : LogicalPlan} (hP : P.Optimizable)
    (hcovered : P.Covered) (hopt : optimize P = .ok P') (hsettled : P'.Settled)
    (halign : P'.JoinsAlign) (hdelivers : P'.Delivers content) {executor : ExecutorContext}
    {batches : List RecordBatch} (hstream : executePlan executor P = .ok (batches.map .ok))
    (hcomputed : P.LimitFree ∨ Outcome.Succeeds (P.denote content)) :
    ∃ rows, P.denote content = .ok rows ∧ (rowsOf batches).Perm rows ∧
      (P.InOrder → rowsOf batches = rows) := by
  rw [executePlan, hopt, Outcome.ok_bind] at hstream
  obtain ⟨plan, hplan, hstream⟩ := Outcome.bind_eq_ok_iff.mp hstream
  obtain ⟨⟨Q, names⟩, hpush, rfl⟩ := Outcome.bind_pure_eq_ok_iff.mp hopt
  obtain ⟨Q', names', hpush', -, -, hsame⟩ :=
    pushDown_simulates (prunable_of_lowered hP hpush hplan).1 ∅
  obtain ⟨rfl, rfl⟩ := Prod.mk.inj (Except.ok.inj (hpush.symm.trans hpush'))
  have hshape := pushDown_sameShape hpush
  have hdenote := (hsame hcovered).2 content
  obtain ⟨rows, hrows, hperm⟩ := execute_answers hsettled halign hdelivers hplan hstream
    (hcomputed.imp hshape.limitFree fun h => by rwa [hdenote])
  refine ⟨rows, hdenote ▸ hrows, hperm, fun horder => ?_⟩
  exact (rowsOf_of_cuts
    (execute_cuts (hshape.inOrder horder) halign hdelivers hplan hstream hrows)).symm

omit R in
/-- The rows of a query are those of batches that were all read. -/
theorem queryRows_eq_ok_iff [Readers] {executor : ExecutorContext} {P : LogicalPlan}
    {rows : List Row} : queryRows executor P = .ok rows ↔ ∃ batches : List RecordBatch,
      executePlan executor P = .ok (batches.map .ok) ∧ rows = rowsOf batches := by
  constructor
  · intro h
    obtain ⟨stream, hstream, hrows⟩ := Outcome.bind_eq_ok_iff.mp h
    obtain ⟨batches, hbatches, rfl⟩ := Outcome.bind_pure_eq_ok_iff.mp hrows
    obtain rfl := Outcome.mapM_id_eq_ok_iff.mp hbatches
    exact ⟨batches, hstream, rfl⟩
  · rintro ⟨batches, hstream, rfl⟩
    rw [queryRows, hstream, Outcome.ok_bind, streamRows, collect, Outcome.mapM_id_map_ok]
    rfl

/-- The rows that `ExecutionContext::execute` returns for a plan are those that the plan denotes:
the same list if no operator iterates over a map, and otherwise a permutation of it. -/
theorem queryRows_denotes {content : Content} {P P' : LogicalPlan} (hP : P.Optimizable)
    (hcovered : P.Covered) (hopt : optimize P = .ok P') (hsettled : P'.Settled)
    (halign : P'.JoinsAlign) (hdelivers : P'.Delivers content) {executor : ExecutorContext}
    {rows : List Row} (hrows : queryRows executor P = .ok rows)
    (hcomputed : P.LimitFree ∨ Outcome.Succeeds (P.denote content)) :
    ∃ rows', P.denote content = .ok rows' ∧ rows.Perm rows' ∧ (P.InOrder → rows = rows') := by
  obtain ⟨batches, hstream, rfl⟩ := queryRows_eq_ok_iff.mp hrows
  exact executePlan_answers hP hcovered hopt hsettled halign hdelivers hstream hcomputed

end

section

/-! ## Other orders of the maps -/

variable [FloatModel] [Readers] {S : Runtime} {order : {α : Type} → List α → List α}
  {h : ∀ {α : Type} (entries : List α), (order entries).Perm entries}

/-- A plan that iterates over no map runs alike whatever the order of its maps. -/
theorem LogicalPlan.InOrder.execute_withMapOrder {P : LogicalPlan} (horder : P.InOrder)
    {plan : PhysicalPlan} (hplan : createPhysicalPlan P = .ok plan) (ctx : ExecutorContext) :
    @PhysicalPlan.execute _ _ (S.withMapOrder order h) ctx plan = plan.execute ctx := by
  -- Nothing below an aggregate iterates over a map.
  induction P generalizing plan with
  | scan s =>
    cases hplan
    rfl
  | projection input expr ih =>
    obtain ⟨sub, hsub, hplan⟩ := Outcome.bind_eq_ok_iff.mp hplan
    obtain ⟨es, -, hplan⟩ := Outcome.bind_eq_ok_iff.mp hplan
    obtain ⟨fields, -, rfl⟩ := Outcome.bind_pure_eq_ok_iff.mp hplan
    simp only [PhysicalPlan.execute, ih horder hsub, projectBatch_withMapOrder]
  | selection input expr ih =>
    obtain ⟨sub, hsub, hplan⟩ := Outcome.bind_eq_ok_iff.mp hplan
    obtain ⟨e, -, rfl⟩ := Outcome.bind_pure_eq_ok_iff.mp hplan
    simp only [PhysicalPlan.execute, ih horder hsub, filterBatch_withMapOrder]
  | limit input n ih =>
    obtain ⟨sub, hsub, rfl⟩ := Outcome.bind_pure_eq_ok_iff.mp hplan
    simp only [PhysicalPlan.execute, ih horder hsub]
  -- Nor does a join that pads no right row.
  | aggregate input groupExpr aggregateExpr _ => exact horder.elim
  | join left right joinType on ihl ihr =>
    obtain ⟨l, hl, hplan⟩ := Outcome.bind_eq_ok_iff.mp hplan
    obtain ⟨r, hr, hplan⟩ := Outcome.bind_eq_ok_iff.mp hplan
    obtain ⟨ls, -, hplan⟩ := Outcome.bind_eq_ok_iff.mp hplan
    obtain ⟨rs, -, hplan⟩ := Outcome.bind_eq_ok_iff.mp hplan
    obtain ⟨lk, -, hplan⟩ := Outcome.bind_eq_ok_iff.mp hplan
    obtain ⟨rk, -, hplan⟩ := Outcome.bind_eq_ok_iff.mp hplan
    obtain ⟨schema, -, rfl⟩ := Outcome.bind_pure_eq_ok_iff.mp hplan
    simp only [PhysicalPlan.execute, ihl horder.2.1 hl, ihr horder.2.2 hr]
    simp only [HashJoin.run, if_neg horder.1]

/-- Executing such a plan twice returns the same rows, whatever the order of the maps of either
execution. -/
theorem LogicalPlan.InOrder.queryRows_withMapOrder {P : LogicalPlan} (horder : P.InOrder)
    (executor : ExecutorContext) :
    @queryRows _ _ (S.withMapOrder order h) executor P = queryRows executor P := by
  unfold queryRows executePlan
  cases hopt : optimize P with
  | error e => rfl
  | ok P' =>
    obtain ⟨⟨pushed, names⟩, hpush, rfl⟩ := Outcome.bind_pure_eq_ok_iff.mp hopt
    have horder' := (pushDown_sameShape hpush).inOrder horder
    cases hplan : createPhysicalPlan P' with
    | error e => simp only [Outcome.ok_bind, hplan, Outcome.error_bind]
    | ok plan => simp only [Outcome.ok_bind, hplan, horder'.execute_withMapOrder hplan]

end

section Held

attribute [local instance] integerFloats insertionOrderRuntime

local instance noHeldFiles : Readers := parquetDisk fun _ => none

/-- Two columns that are not in alphabetical order. -/
def heldBatch : RecordBatch where
  schema := ⟨[⟨"b", .int32⟩, ⟨"a", .int32⟩]⟩
  columns := [Int32Array [10, 10, 20, 10], Int32Array [1, 2, 3, 50]]
  numRows := 4
  types_eq := by decide
  lengths := by decide

def heldSource : InMemoryDataSource where
  schema := heldBatch.schema
  data := [heldBatch]
  conforms := by decide

def heldScan : LogicalPlan :=
  .scan ⟨"held", .inMemory heldSource, [], heldSource.schema, rfl⟩

/-- `SELECT b, MAX(a) … WHERE b > a GROUP BY b`. -/
def heldPlan : LogicalPlan :=
  .aggregate (.selection heldScan (.binary .gt (.column "b") (.column "a"))) [.column "b"]
    [⟨.max, .column "a"⟩]

/-- The maxima that are returned are those that the plan denotes. -/
theorem queryRows_denotes_held :
    ∃ rows, heldPlan.denote memoryContent = .ok rows ∧
      [[.int32 10, .int32 2], [.int32 20, .int32 3]].Perm rows := by
  have hrows : queryRows ⟨"", "", 0, ⟨[]⟩⟩ heldPlan =
      .ok [[.int32 10, .int32 2], [.int32 20, .int32 3]] := by decide +kernel
  have hP : heldPlan.Optimizable :=
    ⟨⟨⟨rfl, by decide⟩, .inl rfl⟩, fun e he => .inl (by rw [List.mem_singleton.mp he]; rfl),
      fun a ha => .inl (by rw [List.mem_singleton.mp ha]; rfl)⟩
  obtain ⟨stream, hstream, -⟩ := Outcome.bind_eq_ok_iff.mp hrows
  obtain ⟨P', hopt, -⟩ := Outcome.bind_eq_ok_iff.mp hstream
  obtain ⟨⟨Q, names⟩, hpush, hQ⟩ := Outcome.bind_pure_eq_ok_iff.mp hopt
  obtain rfl : P' = Q := hQ
  have hshape := pushDown_sameShape hpush
  -- The optimized plan is known up to the projection of its scan, which is enough.
  have hready : P'.Settled ∧ P'.JoinsAlign := by
    cases hshape with
    | aggregate _ _ hinput =>
      cases hinput with
      | selection _ hscan =>
        cases hscan with
        | scan s s' _ => exact ⟨⟨trivial, .inl trivial⟩, trivial⟩
  obtain ⟨rows, hdenote, hperm, -⟩ := queryRows_denotes hP trivial hopt hready.1 hready.2
    (hshape.delivers ⟨heldSource, rfl, by decide⟩) hrows (.inl trivial)
  exact ⟨rows, hdenote, hperm⟩

end Held

end RQuery
