import RQuery.Distributed.DistributedPlanner

/-!
# The expressions of the two stages

`planAggregate` gives the aggregate's expressions, whose columns are positions in the input of the
aggregation, to operators that read the partial output: the group expressions to the shuffle
writer, and all of them to the final stage. They address the right columns where the positions
happen to coincide.

`partialColumns` says what the partial output has at each position. `StageExpressionsAddress` is
the coincidence, a condition on the expressions alone: what an expression makes of the columns of
the partial output is what the partial output has at the expression's own position. In every run
it is enough for all of them to address the partial output (`planAggregate_addresses`).
-/

namespace RQuery

section

variable [FloatModel]

namespace Expression

/-- The expression with its columns replaced, if there is a replacement for each. -/
def substitute (σ : ℕ → Option Expression) : Expression → Option Expression
  | column i => σ i
  | literalLong n => some (literalLong n)
  | literalDouble f => some (literalDouble f)
  | literalString s => some (literalString s)
  | literalDate d => some (literalDate d)
  | literalIntervalDays n => some (literalIntervalDays n)
  | boolean op l r => do return boolean op (← l.substitute σ) (← r.substitute σ)
  | math op l r => do return math op (← l.substitute σ) (← r.substitute σ)
  | cast e t => do return cast (← e.substitute σ) t
  | dateInterval op d i => do return dateInterval op (← d.substitute σ) (← i.substitute σ)

/-- Whether the expression is made of the keys and of literals. -/
def madeOf (keys : List Expression) (e : Expression) : Bool :=
  e ∈ keys || match e with
    | column _ => false
    | literalLong _ | literalDouble _ | literalString _ | literalDate _
    | literalIntervalDays _ => true
    | boolean _ l r => l.madeOf keys && r.madeOf keys
    | math _ l r => l.madeOf keys && r.madeOf keys
    | cast e _ => e.madeOf keys
    | dateInterval _ d i => d.madeOf keys && i.madeOf keys

variable [Runtime]

/-- An expression made of the keys has one value in all rows with the same keys. -/
theorem evalCell_madeOf {keys : List Expression} {types : List DataType} {x y : Row}
    (hkeys : ∀ e ∈ keys, e.evalCell types x = e.evalCell types y) {e : Expression}
    (h : e.madeOf keys) : e.evalCell types x = e.evalCell types y := by
  induction e with
  | column i =>
    rw [madeOf, Bool.or_false, decide_eq_true_eq] at h
    exact hkeys _ h
  | literalLong | literalDouble | literalString | literalDate | literalIntervalDays => rfl
  | boolean op l r ihl ihr | math op l r ihl ihr | dateInterval op l r ihl ihr =>
    rw [madeOf, Bool.or_eq_true, decide_eq_true_eq, Bool.and_eq_true] at h
    rcases h with h | ⟨hl, hr⟩
    · exact hkeys _ h
    · simp only [evalCell, ihl hl, ihr hr]
  | cast e t ih =>
    rw [madeOf, Bool.or_eq_true, decide_eq_true_eq] at h
    rcases h with h | h
    · exact hkeys _ h
    · simp only [evalCell, ih h]

/-- Evaluating an expression on a row is evaluating it with its columns replaced on another row, if
this is so for every column. -/
theorem evalCell_substitute {σ : ℕ → Option Expression} {types types' : List DataType} {x y : Row}
    (hσ : ∀ i e, σ i = some e → (column i).dataType types' = e.dataType types ∧
      (column i).evalCell types' y = e.evalCell types x) {e e' : Expression}
    (h : e.substitute σ = some e') :
    e.dataType types' = e'.dataType types ∧ e.evalCell types' y = e'.evalCell types x := by
  induction e generalizing e' with
  | column i => exact hσ i e' h
  | literalLong | literalDouble | literalString | literalDate | literalIntervalDays =>
    cases h
    exact ⟨rfl, rfl⟩
  | boolean op l r ihl ihr | math op l r ihl ihr | dateInterval op l r ihl ihr =>
    obtain ⟨l', hl, h⟩ := Option.bind_eq_some_iff.mp h
    obtain ⟨r', hr, h⟩ := Option.bind_eq_some_iff.mp h
    cases h
    obtain ⟨htl, hvl⟩ := ihl hl
    obtain ⟨htr, hvr⟩ := ihr hr
    constructor
    · simp only [dataType, htl, htr]
    · simp only [evalCell, htl, htr, hvl, hvr]
  | cast e t ih =>
    obtain ⟨e₁, he, h⟩ := Option.bind_eq_some_iff.mp h
    cases h
    obtain ⟨ht, hv⟩ := ih he
    constructor
    · simp only [dataType, ht]
    · simp only [evalCell, hv]

end Expression

/-! ## What the partial output has -/

/-- What a partial aggregation has in one of its columns: the value of an expression, which is the
same in all rows of a group, or the result of an aggregate. -/
inductive PartialColumn
  | key (e : Expression)
  | result (a : AggregateExpression)
  deriving DecidableEq

namespace HashAggregate

/-- MIN and MAX of an expression made of the group expressions are the expression. -/
def resultColumn (agg : HashAggregate) (a : AggregateExpression) : PartialColumn :=
  if (a.function = .min ∨ a.function = .max) ∧ a.inputExpression.madeOf agg.groupExpr then
    .key a.inputExpression
  else .result a

/-- The columns of the partial output: the group values, then the aggregates. -/
def partialColumns (agg : HashAggregate) : List PartialColumn :=
  agg.groupExpr.map .key ++ agg.aggregateExpr.map agg.resultColumn

/-- The expression whose value the partial output has at a position, if the aggregate's schema
declares it with the type it has on the input. -/
def keyAt (agg : HashAggregate) (types : List DataType) (m : ℕ) : Option Expression :=
  match agg.partialColumns[m]?, agg.schema.types[m]? with
  | some (.key e), some t => if e.dataType types = .ok t then some e else none
  | _, _ => none

/-- What the expression makes of the partial output is what the partial output has at the position:
it is a column with the same content, or replacing its columns by what they have gives the content.
-/
def AddressesColumn (agg : HashAggregate) (types : List DataType) (e : Expression) (p : ℕ) : Prop :=
  (∃ m content, e = .column m ∧ agg.partialColumns[m]? = some content ∧
    agg.partialColumns[p]? = some content) ∨
  ∃ e', e.substitute (agg.keyAt types) = some e' ∧ agg.partialColumns[p]? = some (.key e')

/-- All expressions of the aggregate address the columns of their own positions. -/
structure StageExpressionsAddress (agg : HashAggregate) (types : List DataType) : Prop where
  group : ∀ i e, agg.groupExpr[i]? = some e → agg.AddressesColumn types e i
  aggregate : ∀ j a, agg.aggregateExpr[j]? = some a →
    agg.AddressesColumn types a.inputExpression (agg.groupExpr.length + j)

end HashAggregate

end

section

variable [FloatModel] [Runtime]

/-! ## The values of the columns -/

omit [Runtime] in
/-- An update by the value that MIN or MAX has keeps it. -/
theorem Accumulator.better_constant {o : Ordering} {current u r : ScalarValue}
    (hcurrent : current = .null ∨ current = u) (h : better o current u = .ok r) : r = u := by
  unfold better at h
  split at h
  · rename_i hnull
    rcases hcurrent with rfl | rfl
    · rw [ScalarValue.isNull_iff.mp hnull]
      exact (Except.ok.inj h).symm
    · exact (Except.ok.inj h).symm
  · split at h
    · exact (Except.ok.inj h).symm
    · rename_i hne hcur
      obtain ⟨b, -, rfl⟩ := Outcome.bind_pure_eq_ok_iff.mp h
      rcases hcurrent with rfl | rfl
      · exact absurd rfl hcur
      · simp

/-- MIN and MAX of one value, however often, are the value. -/
theorem aggregate_constant {f : AggregateFunction} (hf : f = .min ∨ f = .max)
    {vs : List ScalarValue} {u v : ScalarValue} (hne : vs ≠ []) (hall : ∀ w ∈ vs, w = u)
    (h : aggregate .partialMode f vs = .ok v) : v = u := by
  have hfold : ∀ (wrap : ScalarValue → Accumulator) (o : Ordering),
      Accumulator.create f = wrap .null →
      (∀ r w, (wrap r).step .partialMode w = do return wrap (← Accumulator.better o r w)) →
      (∀ r, (wrap r).output .partialMode = .ok r) → v = u := by
    intro wrap o hcreate hstep hout
    obtain ⟨acc, hacc, hv⟩ := Outcome.bind_eq_ok_iff.mp h
    obtain ⟨w, ws, rfl⟩ := List.exists_cons_of_ne_nil hne
    obtain ⟨rfl, hws⟩ := List.forall_mem_cons.mp hall
    rw [hcreate, List.foldlM_cons, hstep] at hacc
    obtain ⟨first, hfirst, hacc⟩ := Outcome.bind_eq_ok_iff.mp hacc
    obtain ⟨r, hr, rfl⟩ := Outcome.bind_pure_eq_ok_iff.mp hfirst
    have hfirst : wrap r = wrap w := by rw [Accumulator.better_constant (.inl rfl) hr]
    -- After the first value the accumulator does not change.
    have hlast : acc = wrap w := by
      refine Outcome.foldlM_invariant (· = wrap w) hfirst ?_ hacc
      rintro _ x c hx rfl hc
      rw [hws x hx, hstep] at hc
      obtain ⟨r', hr', rfl⟩ := Outcome.bind_pure_eq_ok_iff.mp hc
      rw [Accumulator.better_constant (.inr rfl) hr']
    rw [hlast, hout] at hv
    exact (Except.ok.inj hv).symm
  rcases hf with rfl | rfl
  · exact hfold .min .lt rfl (fun _ _ => rfl) fun _ => rfl
  · exact hfold .max .gt rfl (fun _ _ => rfl) fun _ => rfl

/-- What the row of a group has in a column of the partial output, given the input rows of the
group. -/
def PartialColumn.Yields (types : List DataType) (group : List Row) :
    PartialColumn → ScalarValue → Prop
  | key e, v => ∀ x ∈ group, e.evalCell types x = .ok v
  | result a, v => ∃ vs, group.mapM (fun x => a.inputExpression.evalCell types x) = .ok vs ∧
      aggregate .partialMode a.function vs = .ok v

/-- A column of a partial row holds one value for a group. -/
theorem PartialColumn.Yields.unique {types : List DataType} {group : List Row} (hne : group ≠ [])
    {content : PartialColumn} {v w : ScalarValue} (hv : content.Yields types group v)
    (hw : content.Yields types group w) : v = w := by
  cases content with
  | key e =>
    obtain ⟨x, hx⟩ := List.exists_mem_of_ne_nil _ hne
    exact Except.ok.inj ((hv x hx).symm.trans (hw x hx))
  | result a =>
    obtain ⟨vs, hvs, hv⟩ := hv
    obtain ⟨ws, hws, hw⟩ := hw
    obtain rfl : vs = ws := Except.ok.inj (hvs.symm.trans hws)
    exact Except.ok.inj (hv.symm.trans hw)

namespace HashAggregate

variable {agg : HashAggregate} {types : List DataType}

/-- A row that partial aggregation of some batches outputs. -/
def OutputsPartially (agg : HashAggregate) (types : List DataType) (r : Row) : Prop :=
  ∃ (batches : List RecordBatch) (out : RecordBatch), (∀ b ∈ batches, b.types = types) ∧
    agg.run .partialMode (batches.map .ok) = .ok out ∧ r ∈ out.rows

section Group

variable {group : List Row} {items : List Item} {key : GroupKey}

/-- In every row of a group the group expressions are the key. -/
theorem evalCell_of_key (hitems : group.mapM (agg.readItem types) = .ok items)
    (hkey : ∀ x ∈ items, x.1 = key) {x : Row} (hx : x ∈ group) {i : ℕ} {e : Expression}
    (he : agg.groupExpr[i]? = some e) : ∃ v, key[i]? = some v ∧ e.evalCell types x = .ok v := by
  obtain ⟨y, hy, hxy⟩ := Outcome.mapM_mem_left hitems hx
  obtain ⟨k, hk, h⟩ := Outcome.bind_eq_ok_iff.mp hxy
  obtain ⟨args, -, rfl⟩ := Outcome.bind_pure_eq_ok_iff.mp h
  rw [← hkey _ hy]
  exact Outcome.mapM_getElem? hk he

/-- The arguments of an aggregate in the rows of a group. -/
theorem mapM_inputExpression (hitems : group.mapM (agg.readItem types) = .ok items) {j : ℕ}
    {a : AggregateExpression} (ha : agg.aggregateExpr[j]? = some a) :
    group.mapM (fun x => a.inputExpression.evalCell types x) =
      .ok (Table.column (items.map Prod.snd) j) := by
  rw [Table.column, List.map_map]
  refine Outcome.mapM_eq_ok_map_of_forall₂ (Outcome.mapM_eq_ok_iff.mp hitems) ?_
  intro x y _ _ hxy
  obtain ⟨k, -, h⟩ := Outcome.bind_eq_ok_iff.mp hxy
  obtain ⟨args, hargs, rfl⟩ := Outcome.bind_pure_eq_ok_iff.mp h
  obtain ⟨w, hw, hxw⟩ := Outcome.mapM_getElem? hargs ha
  simp [hxw, hw]

/-- The column of an aggregate has its result. -/
theorem resultColumn_yields (hne : group ≠ [])
    (hkeys : ∀ x ∈ group, ∀ y ∈ group, ∀ e ∈ agg.groupExpr,
      e.evalCell types x = e.evalCell types y)
    {a : AggregateExpression} {vs : List ScalarValue} {v : ScalarValue}
    (hvs : group.mapM (fun x => a.inputExpression.evalCell types x) = .ok vs)
    (hv : aggregate .partialMode a.function vs = .ok v) :
    (agg.resultColumn a).Yields types group v := by
  unfold resultColumn
  split
  · rename_i hmade
    -- All rows of the group have the same argument, and MIN and MAX return it.
    have hsame : ∀ x ∈ group, ∀ y ∈ group,
        a.inputExpression.evalCell types x = a.inputExpression.evalCell types y :=
      fun x hx y hy => Expression.evalCell_madeOf (hkeys x hx y hy) hmade.2
    have hvsne : vs ≠ [] := by
      rintro rfl
      exact hne (List.length_eq_zero_iff.mp (Outcome.mapM_length hvs).symm)
    intro x hx
    obtain ⟨u, -, hu⟩ := Outcome.mapM_mem_left hvs hx
    have hall : ∀ w ∈ vs, w = u := by
      intro w hw
      obtain ⟨y, hy, hyw⟩ := Outcome.mapM_mem hvs hw
      rw [hsame y hy x hx, hu] at hyw
      exact (Except.ok.inj hyw).symm
    rw [hu, aggregate_constant hmade.1 hvsne hall hv]
  · exact ⟨vs, hvs, hv⟩

/-- The row of a group has the results of the aggregates behind the group values, and with them what
the columns of the partial output say. -/
theorem yields_of_groupRow {outs : Row} (hne : group ≠ [])
    (hitems : group.mapM (agg.readItem types) = .ok items) (hkey : ∀ x ∈ items, x.1 = key)
    (houts : ∀ j a, agg.aggregateExpr[j]? = some a → ∃ v, outs[j]? = some v ∧
      aggregate .partialMode a.function (Table.column (items.map Prod.snd) j) = .ok v)
    {p : ℕ} {content : PartialColumn} (hp : agg.partialColumns[p]? = some content) :
    ∃ v, (key ++ outs)[p]? = some v ∧ content.Yields types group v := by
  have hlen : key.length = agg.groupExpr.length := by
    obtain ⟨x, hx⟩ := List.exists_mem_of_ne_nil _ hne
    obtain ⟨y, hy, hxy⟩ := Outcome.mapM_mem_left hitems hx
    rw [← hkey y hy]
    exact (readItem_lengths hxy).1
  by_cases hlt : p < agg.groupExpr.length
  · rw [partialColumns, List.getElem?_append_left (by simpa using hlt), List.getElem?_map,
      Option.map_eq_some_iff] at hp
    obtain ⟨e, he, rfl⟩ := hp
    obtain ⟨v, hv⟩ : ∃ v, key[p]? = some v := ⟨_, List.getElem?_eq_getElem (hlen ▸ hlt)⟩
    refine ⟨v, by rwa [List.getElem?_append_left (hlen ▸ hlt)], fun x hx => ?_⟩
    obtain ⟨w, hw, hxw⟩ := evalCell_of_key hitems hkey hx he
    rw [hxw, Option.some.inj (hw.symm.trans hv)]
  -- Behind the keys stand the partial results, in the order of the aggregates.
  · obtain ⟨j, rfl⟩ := Nat.exists_eq_add_of_le (not_lt.mp hlt)
    rw [partialColumns, List.getElem?_append_right (by simp), List.length_map,
      Nat.add_sub_cancel_left, List.getElem?_map, Option.map_eq_some_iff] at hp
    obtain ⟨a, ha, rfl⟩ := hp
    obtain ⟨v, hv, hagg⟩ := houts j a ha
    refine ⟨v, ?_, resultColumn_yields hne ?_ (mapM_inputExpression hitems ha) hagg⟩
    · rwa [List.getElem?_append_right (by omega), hlen, Nat.add_sub_cancel_left]
    · intro x hx y hy e he
      obtain ⟨i, hi⟩ := List.getElem?_of_mem he
      obtain ⟨w, hw, hxw⟩ := evalCell_of_key hitems hkey hx hi
      obtain ⟨w', hw', hyw⟩ := evalCell_of_key hitems hkey hy hi
      rw [hxw, hyw, Option.some.inj (hw.symm.trans hw')]

end Group

/-- The row is the row of a group of input rows. -/
structure IsPartialRow (agg : HashAggregate) (types : List DataType) (group : List Row)
    (r : Row) : Prop where
  nonempty : group ≠ []
  typed : ∀ e ∈ agg.expressions, Outcome.Succeeds (e.dataType types)
  fits : RowFits agg.schema.types r
  hasBuilder : ∀ t ∈ agg.schema.types, t.hasBuilder
  yields : ∀ (p : ℕ) (content : PartialColumn), agg.partialColumns[p]? = some content →
    ∃ v, r[p]? = some v ∧ content.Yields types group v

/-- A row the partial stage puts out stands for a group. -/
theorem OutputsPartially.exists_group {r : Row} (h : agg.OutputsPartially types r) :
    ∃ group, agg.IsPartialRow types group r := by
  obtain ⟨batches, out, htypes, hrun, hr⟩ := h
  obtain ⟨batches', items, m, mrows, hbatches, hitems, hm, hmrows, hout⟩ := run_eq_ok_iff.mp hrun
  rw [Outcome.mapM_id_map_ok] at hbatches
  obtain rfl := Except.ok.inj hbatches
  obtain ⟨hschema, hrows⟩ := buildRows_rows hout
  have hfits : RowFits agg.schema.types r := hschema ▸ out.rows_fit r hr
  rw [hrows] at hr
  obtain ⟨rows, hrows', hperm⟩ := Outcome.mapM_perm (Runtime.mapOrder_perm m) hmrows
  rw [mapM_outputRow hm] at hrows'
  obtain ⟨key, hkey, hgroup⟩ := Outcome.mapM_mem hrows'
    (hperm.mem_iff.mp (List.mem_of_mem_filter hr))
  have hlens := readBatches_lengths hitems
  obtain ⟨outs, rfl, -, houts⟩ := (groupRow_eq_ok_iff fun x hx => (hlens x hx).2).mp hgroup
  obtain ⟨group, -, hread⟩ :=
    Outcome.mapM_filter (readBatches_of_types htypes hitems) fun x => x.1 = key
  obtain ⟨args, hargs⟩ := mem_groupKeys.mp hkey
  have hne : group ≠ [] := by
    rintro rfl
    have hmem : (key, args) ∈ items.flatten.filter fun x => x.1 = key :=
      List.mem_filter.mpr ⟨hargs, by simp⟩
    rw [← Except.ok.inj hread] at hmem
    cases hmem
  refine ⟨group, hne, ?_, hfits, ?_, ?_⟩
  · intro e he
    obtain ⟨xs, hxs, -⟩ := List.mem_flatten.mp hargs
    obtain ⟨b, hb, hbxs⟩ := Outcome.mapM_mem hitems hxs
    obtain ⟨ts, hts, -⟩ := Outcome.bind_eq_ok_iff.mp hbxs
    rw [htypes b hb] at hts
    exact Outcome.mapM_succeeds_iff.mp ⟨ts, hts⟩ e he
  · intro t ht
    obtain ⟨builders, hbuilders, -⟩ := Outcome.bind_eq_ok_iff.mp hout
    obtain ⟨b, -, hb⟩ := Outcome.mapM_mem_left hbuilders ht
    by_contra hsup
    rw [ArrowVectorBuilder.new, dif_neg hsup] at hb
    cases hb
  · intro p content hp
    refine yields_of_groupRow hne hread ?_ houts hp
    intro x hx
    simpa using (List.mem_filter.mp hx).2

/-! ## Addressing the partial output -/

omit [Runtime] in
/-- A column is a key exactly where the partial output has a group expression of its type there. -/
theorem keyAt_eq_some_iff {m : ℕ} {e : Expression} :
    agg.keyAt types m = some e ↔ agg.partialColumns[m]? = some (.key e) ∧
      ∃ t, agg.schema.types[m]? = some t ∧ e.dataType types = .ok t := by
  unfold keyAt
  constructor
  · intro h
    split at h
    · rename_i e' t hcol ht
      split at h
      · rename_i htype
        obtain rfl := Option.some.inj h
        exact ⟨hcol, t, ht, htype⟩
      · cases h
    · cases h
  · rintro ⟨hcol, t, ht, htype⟩
    rw [hcol, ht]
    exact if_pos htype

variable {group : List Row} {r : Row}

/-- Reading a column of a partial row. -/
theorem IsPartialRow.column (h : agg.IsPartialRow types group r) {m : ℕ} {content : PartialColumn}
    (hm : agg.partialColumns[m]? = some content) :
    ∃ t v, agg.schema.types[m]? = some t ∧ r[m]? = some v ∧ content.Yields types group v ∧
      (Expression.column m).evalCell agg.schema.types r = .ok v := by
  obtain ⟨v, hv, hyields⟩ := h.yields m content hm
  have hlt : m < agg.schema.types.length :=
    h.fits.length_eq ▸ (List.getElem?_eq_some_iff.mp hv).1
  refine ⟨agg.schema.types[m], v, List.getElem?_eq_getElem hlt, hv, hyields, ?_⟩
  have hsup := h.hasBuilder _ (List.getElem_mem hlt)
  simp only [Expression.evalCell, index_of_lt hlt, index_eq_ok_iff.mpr hv, Outcome.ok_bind]
  split
  · rename_i hnull
    rw [ScalarValue.isNull_iff.mp hnull]
    rfl
  · simp

/-- An expression that addresses a column reads it in every partial row. -/
theorem IsPartialRow.reads (h : agg.IsPartialRow types group r) {e : Expression} {p : ℕ}
    (he : agg.AddressesColumn types e p) :
    Outcome.Succeeds (e.dataType agg.schema.types) ∧
      ∃ v, r[p]? = some v ∧ e.evalCell agg.schema.types r = .ok v := by
  rcases he with ⟨m, content, rfl, hm, hp⟩ | ⟨e', he', hp⟩
  · obtain ⟨t, v, ht, -, hyields, hv⟩ := h.column hm
    obtain ⟨w, hw, hyields'⟩ := h.yields p content hp
    obtain rfl := hyields.unique h.nonempty hyields'
    exact ⟨⟨t, index_eq_ok_iff.mpr ht⟩, v, hw, hv⟩
  · obtain ⟨x, hx⟩ := List.exists_mem_of_ne_nil _ h.nonempty
    obtain ⟨v, hv, hyields⟩ := h.yields p _ hp
    -- The substitution is by position: each column of the row holds what its content evaluates to.
    have hσ : ∀ i key, agg.keyAt types i = some key →
        (Expression.column i).dataType agg.schema.types = key.dataType types ∧
          (Expression.column i).evalCell agg.schema.types r = key.evalCell types x := by
      intro i key hkey
      obtain ⟨hcol, t, ht, htype⟩ := keyAt_eq_some_iff.mp hkey
      obtain ⟨_, w, -, -, hw, hcell⟩ := h.column hcol
      exact ⟨(index_eq_ok_iff.mpr ht).trans htype.symm, hcell.trans (hw x hx).symm⟩
    obtain ⟨htype, hcell⟩ := Expression.evalCell_substitute hσ he'
    refine ⟨?_, v, hv, hcell.trans (hyields x hx)⟩
    rw [htype]
    refine h.typed e' ?_
    -- The column holds a key of the input, or the result of an aggregate that repeats its argument.
    obtain hmem | hmem := List.mem_append.mp (List.mem_of_getElem? hp)
    · obtain ⟨e'', he'', heq⟩ := List.mem_map.mp hmem
      cases heq
      exact List.mem_append_left _ he''
    · obtain ⟨a, ha, heq⟩ := List.mem_map.mp hmem
      unfold resultColumn at heq
      split at heq
      · cases heq
        exact List.mem_append_right _ (List.mem_map_of_mem ha)
      · cases heq

end HashAggregate

/-- In every row of the batch the expressions, evaluated on the batch, are the `n` cells from
position `p` on. -/
def ReadsCells (c : RecordBatch) (es : List Expression) (p n : ℕ) : Prop :=
  ∀ k < c.numRows, ∃ cols, es.mapM (fun e => e.evaluate c) = .ok cols ∧
    cols.mapM (fun col => col.value k) = .ok (((c.row k).drop p).take n)

/-- Expressions that address consecutive columns read the cells of these columns. -/
theorem readsCells_of_addresses {agg : HashAggregate} {types : List DataType} {c : RecordBatch}
    (hschema : c.schema = agg.schema) (hrows : ∀ r ∈ c.rows, agg.OutputsPartially types r)
    {es : List Expression} {p : ℕ}
    (h : ∀ i e, es[i]? = some e → agg.AddressesColumn types e (p + i)) :
    ReadsCells c es p es.length := by
  have hreads : ∀ k < c.numRows, ∀ i e, es[i]? = some e → Outcome.Succeeds (e.dataType c.types) ∧
      ∃ v, (c.row k)[p + i]? = some v ∧ e.evalCell c.types (c.row k) = .ok v := by
    intro k hk i e he
    obtain ⟨group, hgroup⟩ := (hrows _ (RecordBatch.mem_rows_iff.mpr ⟨k, hk, rfl⟩)).exists_group
    rw [c.types_eq_schema, hschema]
    exact hgroup.reads (h i e he)
  intro k hk
  have heval : ∀ i e, es[i]? = some e → ∃ col, e.evaluate c = .ok col ∧
      ∃ v, (c.row k)[p + i]? = some v ∧ col.value k = .ok v := by
    intro i e he
    obtain ⟨⟨t, ht⟩, v, hv, hcell⟩ := hreads k hk i e he
    obtain ⟨col, hcol, hcomputes⟩ := Expression.exists_computes ht
      (Expression.evaluate_succeeds ht fun l hl => by
        obtain ⟨-, w, -, hw⟩ := hreads l hl i e he
        exact ⟨w, hw⟩)
    exact ⟨col, hcol, v, hv, (hcomputes.value_eq k hk).trans hcell⟩
  obtain ⟨cols, hcols⟩ := Outcome.mapM_succeeds_iff.mpr fun e he => by
    obtain ⟨i, hi⟩ := List.getElem?_of_mem he
    obtain ⟨col, hcol, -⟩ := heval i e hi
    exact ⟨col, hcol⟩
  have hvalue : ∀ i e, es[i]? = some e → ∃ col v, cols[i]? = some col ∧
      (c.row k)[p + i]? = some v ∧ col.value k = .ok v := by
    intro i e he
    obtain ⟨col, hcol, v, hv, hval⟩ := heval i e he
    obtain ⟨col', hi, hcol'⟩ := Outcome.mapM_getElem? hcols he
    obtain rfl := Except.ok.inj (hcol'.symm.trans hcol)
    exact ⟨col', v, hi, hv, hval⟩
  have hlen := Outcome.mapM_length hcols
  obtain ⟨vs, hvs⟩ := Outcome.mapM_succeeds_iff.mpr fun col hcol => by
    obtain ⟨i, hi⟩ := List.getElem?_of_mem hcol
    have hlt : i < es.length := hlen ▸ (List.getElem?_eq_some_iff.mp hi).1
    obtain ⟨col', v, hi', -, hval⟩ := hvalue i es[i] (List.getElem?_eq_getElem hlt)
    obtain rfl := Option.some.inj (hi'.symm.trans hi)
    exact ⟨v, hval⟩
  refine ⟨cols, hcols, hvs.trans (congrArg _ (List.ext_getElem? fun i => ?_))⟩
  by_cases hlt : i < es.length
  · obtain ⟨col, v, hi, hv, hval⟩ := hvalue i es[i] (List.getElem?_eq_getElem hlt)
    obtain ⟨w, hw, hval'⟩ := Outcome.mapM_getElem? hvs hi
    obtain rfl := Except.ok.inj (hval'.symm.trans hval)
    rw [List.getElem?_take_of_lt hlt, List.getElem?_drop, hw, hv]
  · rw [List.getElem?_eq_none (by rw [Outcome.mapM_length hvs, hlen]; omega),
      List.getElem?_eq_none (by rw [List.length_take]; omega)]

/-- Rows with the same key get the same target, whichever batches they are in. -/
theorem ReadsCells.computeTargets_eq {c : RecordBatch} {es : List Expression} {g : ℕ}
    (h : ReadsCells c es 0 g) {keyColumns : List ColumnVector}
    (hkeys : es.mapM (fun e => e.evaluate c) = .ok keyColumns) (n : ℕ) :
    ShuffleWriter.computeTargets keyColumns c.numRows n =
      c.rows.mapM fun r => hashTarget (r.take g) n := by
  rw [ShuffleWriter.computeTargets, show c.rows = (List.range c.numRows).map c.row from rfl,
    List.mapM_map]
  refine Outcome.mapM_congr fun k hk => ?_
  obtain ⟨cols, hcols, hvalues⟩ := h k (List.mem_range.mp hk)
  obtain rfl := Except.ok.inj (hcols.symm.trans hkeys)
  rw [hvalues, Outcome.ok_bind, List.drop_zero]
  rfl

/-- The expressions of two stages address the partial output: in a batch of rows that partial
aggregation outputs, the partition expressions are the group values, so that they decide the target
of a row, and the expressions of the final aggregation are the columns of their own positions. -/
def AddressPartialOutput (types : List DataType) : List QueryStage → Prop
  | [stage0, stage1] =>
    match stage0.plan, stage1.plan with
    | .shuffleWriter (.hashAggregate _ part .partialMode) writer,
      .hashAggregate _ final .finalMode =>
      let g := part.groupExpr.length
      ∀ c : RecordBatch, c.schema = part.schema → (∀ r ∈ c.rows, part.OutputsPartially types r) →
        ReadsCells c writer.partitionExpr 0 g ∧
          (∀ keyColumns, writer.partitionExpr.mapM (fun e => e.evaluate c) = .ok keyColumns →
            ∀ n, ShuffleWriter.computeTargets keyColumns c.numRows n =
              c.rows.mapM fun r => hashTarget (r.take g) n) ∧
          ReadsCells c final.groupExpr 0 g ∧
          ReadsCells c (final.aggregateExpr.map AggregateExpression.inputExpression) g
            part.aggregateExpr.length
    | _, _ => False
  | _ => False

/-- The stages that `planAggregate` builds address the partial output in every run, if the positions
of the aggregate's expressions coincide. -/
theorem planAggregate_addresses {agg : HashAggregate} {types : List DataType}
    (h : agg.StageExpressionsAddress types) (planner : DistributedPlanner) (input : PhysicalPlan)
    (jobUuid : String) :
    AddressPartialOutput types (planner.planAggregate input agg jobUuid) := by
  show ∀ c : RecordBatch, c.schema = agg.schema → (∀ r ∈ c.rows, agg.OutputsPartially types r) → _
  intro c hschema hrows
  have hgroup : ReadsCells c agg.groupExpr 0 agg.groupExpr.length := by
    refine readsCells_of_addresses hschema hrows fun i e he => ?_
    rw [Nat.zero_add]
    exact h.group i e he
  refine ⟨hgroup, fun keyColumns hkeys n => hgroup.computeTargets_eq hkeys n, hgroup, ?_⟩
  have haddress : ∀ (j : ℕ) (e : Expression),
      (agg.aggregateExpr.map AggregateExpression.inputExpression)[j]? = some e →
        agg.AddressesColumn types e (agg.groupExpr.length + j) := by
    intro j e he
    rw [List.getElem?_map, Option.map_eq_some_iff] at he
    obtain ⟨a, ha, rfl⟩ := he
    exact h.aggregate j a ha
  have hinputs := readsCells_of_addresses hschema hrows haddress
  rwa [List.length_map] at hinputs

end

end RQuery
