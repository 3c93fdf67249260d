import RQuery.Semantics.BatchBoundaries
import RQuery.Physical.TwoStage

/-!
# Results do not depend on the order of hash maps

Only an aggregation iterates over a map: its rows come in the order of the map's entries. Two runs
with different map orders return the same multiset of rows, unless the order is cut by a limit or
summed in floating point. With `SameReplayedRows` the two runs may also read different batches
(`rows_of_sameReplayedRows`).
-/

namespace RQuery

/-- The same platform with another iteration order of maps. -/
@[reducible] def Runtime.withMapOrder (R : Runtime) (order : {α : Type} → List α → List α)
    (h : ∀ {α : Type} (entries : List α), (order entries).Perm entries) : Runtime where
  overflowChecks := R.overflowChecks
  mapOrder := order
  mapOrder_perm := h
  finish := R.finish

namespace PhysicalPlan

variable [FloatModel]

/-- The rows come in the order of a map. -/
def HasAggregate : PhysicalPlan → Prop
  | projection input _ _ => input.HasAggregate
  | selection input _ => input.HasAggregate
  | limit input _ => input.HasAggregate
  | hashAggregate _ _ _ => True
  | hashJoin left right _ => left.HasAggregate ∨ right.HasAggregate
  | _ => False

/-- No limit cuts rows that come in the order of a map. -/
def NoLimitAboveAggregate : PhysicalPlan → Prop
  | projection input _ _ => input.NoLimitAboveAggregate
  | selection input _ => input.NoLimitAboveAggregate
  | limit input _ => ¬ input.HasAggregate
  | hashAggregate input _ _ => input.NoLimitAboveAggregate
  | hashJoin left right _ => left.NoLimitAboveAggregate ∧ right.NoLimitAboveAggregate
  | _ => True

/-- Rows that come in the order of a map are not summed in floating point, as `AVG` sums all
numbers. -/
def NoFloatSums [Readers] : PhysicalPlan → Prop
  | projection input _ _ => input.NoFloatSums
  | selection input _ => input.NoFloatSums
  | limit input _ => input.NoFloatSums
  | hashAggregate input agg _ => input.NoFloatSums ∧ (input.HasAggregate →
      (∀ a ∈ agg.aggregateExpr, a.function ≠ .avg) ∧
        ∀ s, input.schema = .ok s → agg.ExactArguments s)
  | hashJoin left right _ => left.NoFloatSums ∧ right.NoFloatSums
  | _ => True

end PhysicalPlan

/-! ## What the map order does not change -/

section

variable [FloatModel] {R : Runtime} {order : {α : Type} → List α → List α}
  {h : ∀ {α : Type} (entries : List α), (order entries).Perm entries}

/-- Expressions are evaluated without maps, -/
theorem evaluate_withMapOrder (b : RecordBatch) (e : Expression) :
    @Expression.evaluate _ (R.withMapOrder order h) b e = @Expression.evaluate _ R b e := by
  induction e with
  | boolean op l r ihl ihr => simp only [Expression.evaluate, ihl, ihr]
  | math op l r ihl ihr => simp only [Expression.evaluate, ihl, ihr]
  | cast e t ih => simp only [Expression.evaluate, ih]
  | dateInterval op d i ihd ihi =>
    simp only [Expression.evaluate, ihd, ihi]
    rfl
  | _ => rfl

/-- cell by cell as well, -/
theorem evalCell_withMapOrder (types : List DataType) (row : Row) (e : Expression) :
    @Expression.evalCell _ (R.withMapOrder order h) types row e =
      @Expression.evalCell _ R types row e := by
  induction e with
  | boolean op l r ihl ihr => simp only [Expression.evalCell, ihl, ihr]
  | math op l r ihl ihr => simp only [Expression.evalCell, ihl, ihr]
  | cast e t ih => simp only [Expression.evalCell, ih]
  | dateInterval op d i ihd ihi =>
    simp only [Expression.evalCell, ihd, ihi]
    rfl
  | _ => rfl

/-- and so are batches projected, -/
theorem projectBatch_withMapOrder (schema : Schema) (exprs : List Expression) (b : RecordBatch) :
    @projectBatch _ (R.withMapOrder order h) schema exprs b = @projectBatch _ R schema exprs b := by
  simp only [projectBatch, evaluate_withMapOrder]

/-- filtered, -/
theorem filterBatch_withMapOrder (schema : Schema) (expr : Expression) (b : RecordBatch) :
    @filterBatch _ (R.withMapOrder order h) schema expr b = @filterBatch _ R schema expr b := by
  simp only [filterBatch, evaluate_withMapOrder]

/-- and read by an aggregate. -/
theorem readItem_withMapOrder (agg : HashAggregate) (types : List DataType) :
    @HashAggregate.readItem _ (R.withMapOrder order h) agg types =
      @HashAggregate.readItem _ R agg types := by
  funext row
  simp only [HashAggregate.readItem, evalCell_withMapOrder]

variable [Readers]

/-- Without an aggregation no map is iterated. -/
theorem execute_withMapOrder {P P' : PhysicalPlan} (hP : SameReplayedRows P P')
    (hagg : ¬ P'.HasAggregate) (ctx : ExecutorContext) :
    @PhysicalPlan.execute _ _ (R.withMapOrder order h) ctx P' =
      @PhysicalPlan.execute _ _ R ctx P' := by
  induction hP with
  | inMemory _ _ _ => rfl
  | scan columns _ _ => rfl
  | projection schema expr _ ih =>
    simp only [PhysicalPlan.execute, ih hagg, projectBatch_withMapOrder]
  | selection expr _ ih =>
    simp only [PhysicalPlan.execute, ih hagg, filterBatch_withMapOrder]
  | limit n _ ih => simp only [PhysicalPlan.execute, ih hagg]
  | hashAggregate agg _ _ => exact absurd trivial hagg
  | hashJoin join htype _ _ ihl ihr =>
    simp only [PhysicalPlan.execute, ihl fun h => hagg (.inl h), ihr fun h => hagg (.inr h)]
    simp only [HashJoin.run, if_neg htype]

end

/-! ## What it permutes -/

section

/-- Rows in another order have the matches of a key in another order. -/
theorem matching_perm {α κ : Type} [DecidableEq κ] (key : α → κ) {rs rs' : List α}
    (h : rs.Perm rs') (k : κ) : (Joins.matching key rs k).Perm (Joins.matching key rs' k) :=
  h.filter _

variable [FloatModel]

/-- The rows of the probe phase do not depend on the order of the rows of either side. -/
theorem HashJoin.probeRows_perm (join : HashJoin) (c : ℕ) {ls ls' rs rs' : List Row}
    (hl : ls.Perm ls') (hr : rs.Perm rs') :
    (join.probeRows c ls rs).Perm (join.probeRows c ls' rs') := by
  refine hl.flatMap fun l _ => ?_
  have hmem : cellsAt join.leftKeys l ∈ rs.map (cellsAt join.rightKeys) ↔
      cellsAt join.leftKeys l ∈ rs'.map (cellsAt join.rightKeys) := (hr.map _).mem_iff
  unfold HashJoin.probeRow
  rw [HashJoin.get?_tableOf, HashJoin.get?_tableOf]
  by_cases hkey : cellsAt join.leftKeys l ∈ rs.map (cellsAt join.rightKeys)
  · rw [if_pos hkey, if_pos (hmem.mp hkey)]
    exact (matching_perm _ hr _).map _
  · rw [if_neg hkey, if_neg (hmem.not.mp hkey)]

variable {R : Runtime} {order : {α : Type} → List α → List α}
  {h : ∀ {α : Type} (entries : List α), (order entries).Perm entries}

/-- The output batches of an aggregation whose groups have the same rows. -/
theorem aggregate_run_perm {agg : HashAggregate} {types : List DataType}
    {batches batches' : List RecordBatch} (ht : ∀ b ∈ batches, b.types = types)
    (ht' : ∀ b ∈ batches', b.types = types) {out out' : RecordBatch}
    (hrun : agg.run .completeMode (batches.map .ok) = .ok out)
    (hrun' : @HashAggregate.run _ (R.withMapOrder order h) agg .completeMode (batches'.map .ok) =
      .ok out')
    (hperm : (rowsOf batches).Perm (rowsOf batches'))
    (hexact : rowsOf batches = rowsOf batches' ∨ (∀ a ∈ agg.aggregateExpr, a.function ≠ .avg) ∧
      ∃ s : Schema, types = s.types ∧ agg.ExactArguments s) :
    out.rows.Perm out'.rows := by
  obtain ⟨bs, items, m, mrows, hbs, hitems, hm, hrows, hout⟩ := HashAggregate.run_eq_ok_iff.mp hrun
  obtain ⟨bs', items', m', mrows', hbs', hitems', hm', hrows', hout'⟩ :=
    (@HashAggregate.run_eq_ok_iff _ (R.withMapOrder order h) _ _ _ _).mp hrun'
  rw [Outcome.mapM_id_map_ok, Except.ok.injEq] at hbs hbs'
  subst hbs hbs'
  have hread := HashAggregate.readBatches_of_types ht hitems
  have hread' := @HashAggregate.readBatches_of_types _ (R.withMapOrder order h) _ _ _ _ ht' hitems'
  rw [readItem_withMapOrder] at hread'
  -- Each run lists the entries of its own map in its own order; both orders are permutations.
  obtain ⟨rows, hrows₀, hrowsperm⟩ := Outcome.mapM_perm (Runtime.mapOrder_perm m) hrows
  obtain ⟨rows', hrows₀', hrowsperm'⟩ :=
    Outcome.mapM_perm (@Runtime.mapOrder_perm (R.withMapOrder order h) _ m') hrows'
  rw [HashAggregate.mapM_outputRow hm] at hrows₀
  have hgroups' : agg.outputRows .completeMode items'.flatten = .ok rows' := by
    rw [← hrows₀']
    exact (@HashAggregate.mapM_outputRow _ (R.withMapOrder order h) _ _ _ _ hm').symm
  -- The two maps hold the same entries: either the rows came in one order, or every aggregate is
  -- exact in any order.
  have hsame : ∃ rows₁, agg.outputRows .completeMode items'.flatten = .ok rows₁ ∧
      rows.Perm rows₁ := by
    rcases hexact with heq | ⟨havg, s, rfl, hexact⟩
    · have hread : (rowsOf batches).mapM (agg.readItem types) = .ok items.flatten := hread
      rw [heq] at hread
      have hitems : items.flatten = items'.flatten := Except.ok.inj (hread.symm.trans hread')
      exact ⟨rows, hitems ▸ hrows₀, .refl rows⟩
    · obtain ⟨items₁, hitems₁, hitemsperm⟩ := Outcome.mapM_perm hperm hread
      obtain rfl : items₁ = items'.flatten := Except.ok.inj (hitems₁.symm.trans hread')
      refine HashAggregate.outputRows_perm hitemsperm
        (fun x hx => (HashAggregate.readBatches_lengths hitems x hx).2) ?_ havg hrows₀
      intro x hx
      obtain ⟨xs, hxs, hx⟩ := List.mem_flatten.mp hx
      obtain ⟨b, hb, hbx⟩ := Outcome.mapM_mem hitems hxs
      exact HashAggregate.readBatch_exact hexact (ht b hb) hbx x hx
  obtain ⟨rows₁, hrows₁, hperm₁⟩ := hsame
  obtain rfl : rows₁ = rows' := Except.ok.inj (hrows₁.symm.trans hgroups')
  -- Rows in one order, rows in the other, and the rows of the map between them.
  rw [(buildRows_rows hout).2, (buildRows_rows hout').2]
  exact (hrowsperm.trans (hperm₁.trans hrowsperm'.symm)).filter _

/-- An operator that works row by row, pulled to its end, has pulled its input to its end. -/
theorem rowsOf_of_traverses {f : Row → Result (List Row)} {t : BatchStream}
    {bs : List RecordBatch} (h : Chunks.Traverses f (rowChunks t) (rowChunks (bs.map .ok))) :
    ∃ (cs : List RecordBatch) (yss : List (List Row)), t = cs.map .ok ∧
      (rowsOf cs).mapM f = .ok yss ∧ rowsOf bs = yss.flatten := by
  rw [rowChunks_map_ok] at h
  obtain ⟨xss, yss, hxss, hyss, hflat⟩ := h.of_map_ok
  obtain ⟨cs, rfl, hcs⟩ := of_rowChunks_eq_map_ok hxss
  exact ⟨cs, yss, rfl, hcs ▸ hyss, by rw [rowsOf, List.flatMap_def, hflat]⟩

/-- An operator that works row by row permutes its rows as its input is permuted. -/
theorem perm_of_traverses {f : Row → Result (List Row)} {t t' : BatchStream}
    {bs bs' : List RecordBatch} (hbs : Chunks.Traverses f (rowChunks t) (rowChunks (bs.map .ok)))
    (hbs' : Chunks.Traverses f (rowChunks t') (rowChunks (bs'.map .ok)))
    (hperm : ∀ cs cs' : List RecordBatch, t = cs.map .ok → t' = cs'.map .ok →
      (rowsOf cs).Perm (rowsOf cs')) : (rowsOf bs).Perm (rowsOf bs') := by
  obtain ⟨cs, yss, hcs, hyss, hrows⟩ := rowsOf_of_traverses hbs
  obtain ⟨cs', yss', hcs', hyss', hrows'⟩ := rowsOf_of_traverses hbs'
  obtain ⟨zss, hzss, hperm'⟩ := Outcome.mapM_perm (hperm cs cs' hcs hcs') hyss
  rw [hyss', Except.ok.injEq] at hzss
  rw [hrows, hrows', hzss]
  exact hperm'.flatten

/-- Plans that replay the same rows have aggregates at the same places. -/
theorem SameReplayedRows.hasAggregate_iff {P P' : PhysicalPlan} (hP : SameReplayedRows P P') :
    P'.HasAggregate ↔ P.HasAggregate := by
  induction hP with
  | projection _ _ _ ih => exact ih
  | selection _ _ ih => exact ih
  | limit _ _ ih => exact ih
  | hashJoin _ _ _ _ ihl ihr => exact or_congr ihl ihr
  | _ => exact Iff.rfl

variable [Readers]

/-- The two executions agree up to the order of rows, on streams that are pulled to their ends. -/
def AgreeUpToOrder (P : PhysicalPlan) (s s' : BatchStream) : Prop :=
  ∃ types, OfTypes types s ∧ OfTypes types s' ∧
    (P.HasAggregate → ∃ schema, P.schema = .ok schema ∧ types = schema.types) ∧
    ∀ bs bs' : List RecordBatch, s = bs.map .ok → s' = bs'.map .ok →
      (rowsOf bs).Perm (rowsOf bs')

/-- Without an aggregate two runs agree up to the order of their rows. -/
theorem agreeUpToOrder_of_not_hasAggregate {P P' : PhysicalPlan} (hP : SameReplayedRows P P')
    (hagg : ¬ P.HasAggregate) {ctx : ExecutorContext} {s s' : BatchStream}
    (hs : P.execute ctx = .ok s)
    (hs' : @PhysicalPlan.execute _ _ (R.withMapOrder order h) ctx P' = .ok s') :
    AgreeUpToOrder P s s' := by
  rw [execute_withMapOrder hP (hP.hasAggregate_iff.not.mpr hagg)] at hs'
  obtain ⟨types, ht, ht', hagree⟩ := execute_agree hP hs hs'
  refine ⟨types, ht, ht', fun h => absurd h hagg, ?_⟩
  rintro bs bs' rfl rfl
  exact .of_eq (rowsOf_eq_of_agree hagree)

/-- Two runs under different orders of maps agree up to the order of their rows. -/
theorem execute_agreeUpToOrder {P P' : PhysicalPlan} (hP : SameReplayedRows P P')
    (hlimit : P.NoLimitAboveAggregate) (hfloat : P.NoFloatSums) {ctx : ExecutorContext}
    {s s' : BatchStream} (hs : P.execute ctx = .ok s)
    (hs' : @PhysicalPlan.execute _ _ (R.withMapOrder order h) ctx P' = .ok s') :
    AgreeUpToOrder P s s' := by
  -- On the plans; where no aggregate is below, the two runs agree row by row already.
  induction hP generalizing s s' with
  | inMemory hb hb' hrows =>
    exact agreeUpToOrder_of_not_hasAggregate (.inMemory hb hb' hrows) (fun h => h) hs hs'
  | scan columns hschema hrows =>
    exact agreeUpToOrder_of_not_hasAggregate (.scan columns hschema hrows) (fun h => h) hs hs'
  | limit n hinput _ => exact agreeUpToOrder_of_not_hasAggregate (hinput.limit n) hlimit hs hs'
  | @projection input input' schema expr hinput ih =>
    obtain ⟨t, ht, rfl⟩ := Outcome.bind_pure_eq_ok_iff.mp hs
    obtain ⟨t', ht', rfl⟩ := Outcome.bind_pure_eq_ok_iff.mp hs'
    obtain ⟨types, htypes, htypes', -, hperm⟩ := ih hlimit hfloat ht ht'
    simp only [projectBatch_withMapOrder]
    refine ⟨schema.types, projection_ofTypes schema expr t, projection_ofTypes schema expr t',
      fun _ => ⟨schema, rfl, rfl⟩, fun bs bs' hbs hbs' => ?_⟩
    exact perm_of_traverses (hbs ▸ traverses_map (fun b out => projectBatch_traverses) htypes)
      (hbs' ▸ traverses_map (fun b out => projectBatch_traverses) htypes') hperm
  | @selection input input' expr hinput ih =>
    obtain ⟨schema, hschema, hs⟩ := Outcome.bind_eq_ok_iff.mp hs
    obtain ⟨schema', hschema', hs'⟩ := Outcome.bind_eq_ok_iff.mp hs'
    obtain rfl : schema = schema' := by simpa [hinput.schema_eq, hschema] using hschema'
    obtain ⟨t, ht, rfl⟩ := Outcome.bind_pure_eq_ok_iff.mp hs
    obtain ⟨t', ht', rfl⟩ := Outcome.bind_pure_eq_ok_iff.mp hs'
    obtain ⟨types, htypes, htypes', -, hperm⟩ := ih hlimit hfloat ht ht'
    simp only [filterBatch_withMapOrder]
    refine ⟨schema.types, selection_ofTypes schema expr t, selection_ofTypes schema expr t',
      fun _ => ⟨schema, hschema, rfl⟩, fun bs bs' hbs hbs' => ?_⟩
    exact perm_of_traverses (hbs ▸ traverses_map (fun b out => filterBatch_traverses) htypes)
      (hbs' ▸ traverses_map (fun b out => filterBatch_traverses) htypes') hperm
  | @hashAggregate input input' agg hinput ih =>
    obtain ⟨t, ht, hs⟩ := Outcome.bind_eq_ok_iff.mp hs
    obtain ⟨t', ht', hs'⟩ := Outcome.bind_eq_ok_iff.mp hs'
    obtain ⟨out, hout, rfl⟩ := Outcome.bind_pure_eq_ok_iff.mp hs
    obtain ⟨out', hout', rfl⟩ := Outcome.bind_pure_eq_ok_iff.mp hs'
    obtain ⟨batches, -, -, -, hbatches, -⟩ := HashAggregate.run_eq_ok_iff.mp hout
    obtain ⟨batches', -, -, -, hbatches', -⟩ :=
      (@HashAggregate.run_eq_ok_iff _ (R.withMapOrder order h) _ _ _ _).mp hout'
    obtain rfl := Outcome.mapM_id_eq_ok_iff.mp hbatches
    obtain rfl := Outcome.mapM_id_eq_ok_iff.mp hbatches'
    obtain ⟨types, htypes, htypes', hdeclared, hperm⟩ := ih hlimit hfloat.1 ht ht'
    -- Below an aggregate the rows may come reordered, so this one must not add up floats.
    have hexact : rowsOf batches = rowsOf batches' ∨
        (∀ a ∈ agg.aggregateExpr, a.function ≠ .avg) ∧
          ∃ s : Schema, types = s.types ∧ agg.ExactArguments s := by
      by_cases hagg : input.HasAggregate
      · obtain ⟨schema, hschema, rfl⟩ := hdeclared hagg
        exact .inr ⟨(hfloat.2 hagg).1, schema, rfl, (hfloat.2 hagg).2 schema hschema⟩
      · rw [execute_withMapOrder hinput (hinput.hasAggregate_iff.not.mpr hagg)] at ht'
        obtain ⟨-, -, -, hagree⟩ := execute_agree hinput ht ht'
        exact .inl (rowsOf_eq_of_agree hagree)
    have hrows : out.rows.Perm out'.rows := aggregate_run_perm (ofTypes_map_ok.mp htypes)
      (ofTypes_map_ok.mp htypes') hout hout' (hperm _ _ rfl rfl) hexact
    have hdeclared : out.schema = agg.schema ∧ out'.schema = agg.schema := by
      obtain ⟨_, _, _, _, -, -, -, -, hbuild⟩ := HashAggregate.run_eq_ok_iff.mp hout
      obtain ⟨_, _, _, _, -, -, -, -, hbuild'⟩ :=
        (@HashAggregate.run_eq_ok_iff _ (R.withMapOrder order h) _ _ _ _).mp hout'
      exact ⟨(buildRows_rows hbuild).1, (buildRows_rows hbuild').1⟩
    have htypes : ∀ b : RecordBatch, b.schema = agg.schema → OfTypes agg.schema.types [.ok b] := by
      rintro b hb _ hmem
      obtain rfl := Except.ok.inj (List.mem_singleton.mp hmem)
      rw [RecordBatch.types_eq_schema, hb]
    refine ⟨agg.schema.types, htypes out hdeclared.1, htypes out' hdeclared.2,
      fun _ => ⟨agg.schema, rfl, rfl⟩, fun bs bs' hbs hbs' => ?_⟩
    obtain rfl : [out] = bs := Outcome.map_ok_injective hbs
    obtain rfl : [out'] = bs' := Outcome.map_ok_injective hbs'
    rw [rowsOf, rowsOf, List.flatMap_singleton, List.flatMap_singleton]
    exact hrows
  | @hashJoin left left' right right' join htype hleft hright ihl ihr =>
    obtain ⟨l, hl, hs⟩ := Outcome.bind_eq_ok_iff.mp hs
    obtain ⟨l', hl', hs'⟩ := Outcome.bind_eq_ok_iff.mp hs'
    obtain ⟨r, hr, hs⟩ := Outcome.bind_eq_ok_iff.mp hs
    obtain ⟨r', hr', hs'⟩ := Outcome.bind_eq_ok_iff.mp hs'
    obtain ⟨lb, rb, ob, schema, rfl, rfl, rfl, hschema, hdeclared, hrows⟩ := HashJoin.run_ok hs
    obtain ⟨lb', rb', ob', schema', rfl, rfl, rfl, hschema', hdeclared', hrows'⟩ :=
      @HashJoin.run_ok _ (R.withMapOrder order h) _ _ _ _ _ _ hs'
    obtain rfl : schema = schema' := by simpa [hright.schema_eq, hschema] using hschema'
    obtain ⟨-, -, -, -, hperml⟩ := ihl hlimit.1 hfloat.1 hl hl'
    obtain ⟨-, -, -, -, hpermr⟩ := ihr hlimit.2 hfloat.2 hr hr'
    refine ⟨join.schema.types, ofTypes_map_ok.mpr fun b hb => ?_,
      ofTypes_map_ok.mpr fun b hb => ?_, fun _ => ⟨join.schema, rfl, rfl⟩, ?_⟩
    · rw [b.types_eq_schema, hdeclared b hb]
    · rw [b.types_eq_schema, hdeclared' b hb]
    · intro bs bs' hbs hbs'
      obtain rfl := Outcome.map_ok_injective hbs
      obtain rfl := Outcome.map_ok_injective hbs'
      unfold HashJoin.outputRows at hrows hrows'
      rw [hrows, hrows', if_neg htype, if_neg htype, List.append_nil, List.append_nil]
      exact (HashJoin.probeRows_perm join _ (hperml _ _ rfl rfl) (hpermr _ _ rfl rfl)).filter _

/-- Two plans that differ only in how the rows of their sources are split into batches yield the
same rows when neither execution panics: the same list on the same platform, and also with another
map order when there is no aggregate; the same multiset with another map order when no limit cuts
the rows of an aggregate and none of them are summed in floating point. -/
theorem rows_of_sameReplayedRows {P P' : PhysicalPlan} (hP : SameReplayedRows P P')
    {ctx : ExecutorContext} {rows : List Row} (hrows : P.rows ctx = .ok rows) :
    (∀ rows', P'.rows ctx = .ok rows' → rows = rows') ∧
      ∀ (order : {α : Type} → List α → List α)
        (h : ∀ {α : Type} (entries : List α), (order entries).Perm entries) (rows' : List Row),
        @PhysicalPlan.rows _ _ (R.withMapOrder order h) ctx P' = .ok rows' →
          (¬ P.HasAggregate → rows = rows') ∧
            (P.NoLimitAboveAggregate → P.NoFloatSums → rows.Perm rows') := by
  refine ⟨fun rows' => rows_eq_of_sameReplayedRows hP hrows, fun order h rows' hrows' => ⟨?_, ?_⟩⟩
  · intro hagg
    unfold PhysicalPlan.rows at hrows'
    rw [execute_withMapOrder hP (hP.hasAggregate_iff.not.mpr hagg)] at hrows'
    exact rows_eq_of_sameReplayedRows hP hrows hrows'
  · intro hlimit hfloat
    obtain ⟨s, hs, hrows⟩ := Outcome.bind_eq_ok_iff.mp hrows
    obtain ⟨s', hs', hrows'⟩ := Outcome.bind_eq_ok_iff.mp hrows'
    obtain ⟨batches, hbatches, rfl⟩ := Outcome.bind_pure_eq_ok_iff.mp hrows
    obtain ⟨batches', hbatches', rfl⟩ := Outcome.bind_pure_eq_ok_iff.mp hrows'
    obtain ⟨-, -, -, -, hperm⟩ := execute_agreeUpToOrder hP hlimit hfloat hs hs'
    exact hperm _ _ (Outcome.mapM_id_eq_ok_iff.mp hbatches)
      (Outcome.mapM_id_eq_ok_iff.mp hbatches')

end

section SplitRows

attribute [local instance] integerFloats insertionOrderRuntime

local instance noTables : Readers := parquetDisk fun _ => none

/-- A batch of one Int32 column. -/
def numbers (ns : List Int32) : RecordBatch where
  schema := ⟨[⟨"n", .int32⟩]⟩
  columns := [Int32Array ns]
  numRows := ns.length
  types_eq := by rfl
  lengths := by simp [Int32Array]

/-- The first two numbers, from one batch or from three. -/
theorem rows_of_sameReplayedRows_numbers :
    (PhysicalPlan.limit (.inMemory ⟨[⟨"n", .int32⟩]⟩ [numbers [4, 5, 6]]) 2).rows
        ⟨"", "", 0, ⟨[]⟩⟩ = .ok [[.int32 4], [.int32 5]] ∧
      ∀ rows', (PhysicalPlan.limit (.inMemory ⟨[⟨"n", .int32⟩]⟩
        [numbers [4], numbers [], numbers [5, 6]]) 2).rows ⟨"", "", 0, ⟨[]⟩⟩ = .ok rows' →
          [[.int32 4], [.int32 5]] = rows' := by
  have hrows : (PhysicalPlan.limit (.inMemory ⟨[⟨"n", .int32⟩]⟩ [numbers [4, 5, 6]]) 2).rows
      ⟨"", "", 0, ⟨[]⟩⟩ = .ok [[.int32 4], [.int32 5]] := by decide
  have hsplit : SameReplayedRows (.inMemory ⟨[⟨"n", .int32⟩]⟩ [numbers [4, 5, 6]])
      (.inMemory ⟨[⟨"n", .int32⟩]⟩ [numbers [4], numbers [], numbers [5, 6]]) :=
    .inMemory (by decide) (by decide) (by decide)
  exact ⟨hrows, (rows_of_sameReplayedRows (hsplit.limit 2) hrows).1⟩

end SplitRows

end RQuery
