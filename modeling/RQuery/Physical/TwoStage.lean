import RQuery.Physical.HashAggregate
import RQuery.Physical.AccumulatorMerge

/-!
# Aggregation in two stages

A partial stage aggregates parts of the input, a final stage the rows that the partial stages
output. The final stage evaluates the aggregate's own expressions, which were planned against the
input, on rows of the aggregate's schema. `ReadsBack` says that this makes of an output row what
it stands for; where it does, the final stage computes the aggregates of the whole input
(`outputRows_merge`).
-/

namespace RQuery

variable [FloatModel] [Runtime]

namespace HashAggregate

variable {agg : HashAggregate}

/-- The final stage makes of `copies` of the row `key ++ outs` what it stands for: the group
expressions, evaluated on it, return the key, and the arguments of the aggregates merge to
`outs`. -/
def ReadsBackAs (agg : HashAggregate) (copies : ℕ) (key : GroupKey) (outs : Row) : Prop :=
  ∃ args, agg.readItem agg.schema.types (key ++ outs) = .ok (key, args) ∧
    ∀ (i : ℕ) a, agg.aggregateExpr[i]? = some a → ∃ w v, args[i]? = some w ∧ outs[i]? = some v ∧
      aggregate .finalMode a.function (List.replicate copies w) = .ok v

/-- The row is a key and aggregates that it reads back as. -/
def ReadsBackRow (agg : HashAggregate) (copies : ℕ) (row : Row) : Prop :=
  ∃ key outs, row = key ++ outs ∧ agg.ReadsBackAs copies key outs

/-- Whatever an aggregation outputs reads back: the expressions accept the aggregate's own schema,
and every output row reads back. -/
def ReadsBack (agg : HashAggregate) (s : Schema) (copies : ℕ) : Prop :=
  ∀ b out, b.schema = s → agg.run .completeMode [.ok b] = .ok out →
    Outcome.Succeeds (agg.expressions.mapM fun e => e.dataType agg.schema.types) ∧
      ∀ row ∈ out.rows, agg.ReadsBackRow copies row

/-- AVG is applied only to nulls, wherever the aggregation succeeds. -/
def AveragesNull (agg : HashAggregate) (s : Schema) : Prop :=
  ∀ b items, b.schema = s → agg.readBatch b = .ok items →
    Outcome.Succeeds (agg.run .completeMode [.ok b]) →
    ∀ (i : ℕ) a, agg.aggregateExpr[i]? = some a → a.function = .avg →
      ∀ x ∈ items, x.2[i]? = some .null

/-- The arguments of the aggregates are not floats. -/
def ExactArguments (agg : HashAggregate) (s : Schema) : Prop :=
  ∀ a ∈ agg.aggregateExpr, ∀ t, a.inputExpression.dataType s.types = .ok t → t.isFloat = false

/-! ## Merging groups -/

/-- `F` consists of the keyed rows that the final stage makes of the partial rows of `J`, and these
read back. -/
structure Merges (agg : HashAggregate) (J F : List Item) : Prop where
  of_notMem : ∀ key, key ∉ groupKeys J → KeyedFold.valuesOf F key = []
  of_mem : ∀ key ∈ groupKeys J, ∃ args, KeyedFold.valuesOf F key = [args] ∧
    ∀ (i : ℕ) a, agg.aggregateExpr[i]? = some a → ∃ w v, args[i]? = some w ∧
      aggregate .partialMode a.function (Table.column (KeyedFold.valuesOf J key) i) = .ok v ∧
      aggregate .finalMode a.function [w] = .ok v

omit [Runtime] in
/-- A key without values is no key of the items. -/
theorem valuesOf_eq_nil_iff {items : List Item} {key : GroupKey} :
    KeyedFold.valuesOf items key = [] ↔ key ∉ groupKeys items := by
  rw [KeyedFold.valuesOf_eq_nil_iff, groupKeys, KeyedFold.mem_firstKeys]

/-- The merged groups are the groups of the parts. -/
theorem mem_groupKeys_of_merges {Js Fs : List (List Item)}
    (h : List.Forall₂ agg.Merges Js Fs) {key : GroupKey} :
    key ∈ groupKeys Fs.flatten ↔ key ∈ groupKeys Js.flatten := by
  rw [← not_iff_not, ← valuesOf_eq_nil_iff, ← valuesOf_eq_nil_iff]
  induction h with
  | nil => rfl
  | @cons J F Js Fs hJF _ ih =>
    rw [List.flatten_cons, List.flatten_cons, KeyedFold.valuesOf_append,
      KeyedFold.valuesOf_append, List.append_eq_nil_iff, List.append_eq_nil_iff, ih]
    refine and_congr_left fun _ => ?_
    by_cases hkey : key ∈ groupKeys J
    · obtain ⟨args, hargs, -⟩ := hJF.of_mem key hkey
      simp [hargs, valuesOf_eq_nil_iff, hkey]
    · simp [hJF.of_notMem key hkey, valuesOf_eq_nil_iff, hkey]

/-- The values merged into a group stand for chunks of the group's values. -/
theorem chunks_of_merges {Js Fs : List (List Item)} (h : List.Forall₂ agg.Merges Js Fs)
    (key : GroupKey) {i : ℕ} {a : AggregateExpression} (ha : agg.aggregateExpr[i]? = some a) :
    ∃ chunks, chunks.flatten = Table.column (KeyedFold.valuesOf Js.flatten key) i ∧
      List.Forall₂ (fun chunk w => ∃ v, aggregate .partialMode a.function chunk = .ok v ∧
        aggregate .finalMode a.function [w] = .ok v) chunks
        (Table.column (KeyedFold.valuesOf Fs.flatten key) i) := by
  induction h with
  | nil => exact ⟨[], rfl, .nil⟩
  | @cons J F Js Fs hJF _ ih =>
    obtain ⟨chunks, hflat, hchunks⟩ := ih
    simp only [List.flatten_cons, KeyedFold.valuesOf_append, Table.column, List.map_append]
    by_cases hkey : key ∈ groupKeys J
    · obtain ⟨args, hargs, hagg⟩ := hJF.of_mem key hkey
      obtain ⟨w, v, hw, hpart, hfin⟩ := hagg i a ha
      refine ⟨Table.column (KeyedFold.valuesOf J key) i :: chunks, ?_, ?_⟩
      · rw [List.flatten_cons, hflat]
        rfl
      · rw [hargs]
        refine .cons ⟨v, hpart, ?_⟩ hchunks
        simpa [hw] using hfin
    · have hJ := valuesOf_eq_nil_iff.mpr hkey
      rw [hJ, hJF.of_notMem key hkey]
      exact ⟨chunks, hflat, hchunks⟩

omit [Runtime] in
/-- What an aggregate folds in a group comes from a keyed row of the group. -/
theorem exists_item_of_mem_column {items : List Item} {key : GroupKey} {i : ℕ}
    {a : AggregateExpression} {c : ScalarValue}
    (hlen : ∀ x ∈ items, x.2.length = agg.aggregateExpr.length)
    (ha : agg.aggregateExpr[i]? = some a)
    (hc : c ∈ Table.column (KeyedFold.valuesOf items key) i) :
    ∃ x ∈ items, x.1 = key ∧ x.2[i]? = some c := by
  obtain ⟨args, hargs, rfl⟩ := List.mem_map.mp hc
  obtain ⟨x, hx, rfl⟩ := List.mem_map.mp hargs
  obtain ⟨hx, hkey⟩ := List.mem_filter.mp hx
  have hi : i < x.2.length := by
    rw [hlen x hx]
    exact (List.getElem?_eq_some_iff.mp ha).1
  exact ⟨x, hx, by simpa using hkey, by simp [hi]⟩

/-- Merging the groups of the parts computes the groups of the whole. -/
theorem outputRows_merge {Js Fs : List (List Item)} (h : List.Forall₂ agg.Merges Js Fs)
    {items : List Item} (hperm : items.Perm Js.flatten)
    (hlen : ∀ x ∈ items, x.2.length = agg.aggregateExpr.length)
    (hlenF : ∀ x ∈ Fs.flatten, x.2.length = agg.aggregateExpr.length)
    (hexact : ∀ x ∈ items, ∀ v ∈ x.2, v.IsExact)
    (havg : ∀ (i : ℕ) a, agg.aggregateExpr[i]? = some a → a.function = .avg →
      ∀ x ∈ items, x.2[i]? = some .null)
    {rows : List Row} (hrows : agg.outputRows .completeMode items = .ok rows) :
    ∃ rows', agg.outputRows .finalMode Fs.flatten = .ok rows' ∧ rows'.Perm rows := by
  -- Both runs see the same keys, each once.
  have hkeys : (groupKeys items).Perm (groupKeys Fs.flatten) := by
    refine (List.perm_ext_iff_of_nodup (KeyedFold.nodup_firstKeys _)
      (KeyedFold.nodup_firstKeys _)).mpr fun key => ?_
    change key ∈ groupKeys items ↔ key ∈ groupKeys Fs.flatten
    rw [mem_groupKeys_of_merges h, mem_groupKeys, mem_groupKeys]
    exact exists_congr fun args => hperm.mem_iff
  -- For each key the values of all chunks together are the values of the key.
  have hgroup : ∀ key ∈ groupKeys items,
      agg.groupRow .finalMode Fs.flatten key = agg.groupRow .completeMode items key := by
    intro key hkey
    obtain ⟨row, hrow⟩ := Outcome.mapM_succeeds_iff.mp ⟨rows, hrows⟩ key hkey
    obtain ⟨outs, rfl, houtslen, houts⟩ := (groupRow_eq_ok_iff hlen).mp hrow
    rw [hrow, groupRow_eq_ok_iff hlenF]
    refine ⟨outs, rfl, houtslen, fun i a ha => ?_⟩
    obtain ⟨v, hv, hagg⟩ := houts i a ha
    obtain ⟨chunks, hflat, hchunks⟩ := chunks_of_merges h key ha
    refine ⟨v, hv, aggregate_merge ?_ ?_ ?_ hchunks hagg⟩
    · rw [hflat]
      exact ((hperm.filter _).map _).map _
    · intro c hc
      obtain ⟨x, hx, -, hxc⟩ := exists_item_of_mem_column hlen ha hc
      exact hexact x hx c (List.mem_of_getElem? hxc)
    · intro hfun c hc
      obtain ⟨x, hx, -, hxc⟩ := exists_item_of_mem_column hlen ha hc
      simpa [hxc] using havg i a ha hfun x hx
  -- So both runs put out the same rows, in the order of their maps.
  have hfinal : (groupKeys items).mapM (agg.groupRow .finalMode Fs.flatten) = .ok rows := by
    rw [Outcome.mapM_congr hgroup]
    exact hrows
  obtain ⟨rows', hrows', hperm'⟩ := Outcome.mapM_perm hkeys hfinal
  exact ⟨rows', hrows', hperm'.symm⟩

/-! ## The order of the input -/

/-- The keyed rows in another order have the same groups, if the aggregates do not depend on the
order of a group. -/
theorem outputRows_perm_of {items items' : List Item} (hperm : items.Perm items')
    (hlen : ∀ x ∈ items, x.2.length = agg.aggregateExpr.length)
    (hagg : ∀ key ∈ groupKeys items, ∀ (i : ℕ) a, agg.aggregateExpr[i]? = some a → ∀ v,
      aggregate .completeMode a.function (Table.column (KeyedFold.valuesOf items key) i) = .ok v →
        aggregate .completeMode a.function (Table.column (KeyedFold.valuesOf items' key) i) = .ok v)
    {rows : List Row} (hrows : agg.outputRows .completeMode items = .ok rows) :
    ∃ rows', agg.outputRows .completeMode items' = .ok rows' ∧ rows.Perm rows' := by
  have hkeys : (groupKeys items).Perm (groupKeys items') := KeyedFold.firstKeys_perm (hperm.map _)
  have hgroup : ∀ key ∈ groupKeys items,
      agg.groupRow .completeMode items' key = agg.groupRow .completeMode items key := by
    intro key hkey
    obtain ⟨row, hrow⟩ := Outcome.mapM_succeeds_iff.mp ⟨rows, hrows⟩ key hkey
    obtain ⟨outs, rfl, houtslen, houts⟩ := (groupRow_eq_ok_iff hlen).mp hrow
    rw [hrow, groupRow_eq_ok_iff fun x hx => hlen x (hperm.mem_iff.mpr hx)]
    refine ⟨outs, rfl, houtslen, fun i a ha => ?_⟩
    obtain ⟨v, hv, hout⟩ := houts i a ha
    exact ⟨v, hv, hagg key hkey i a ha v hout⟩
  have hall : (groupKeys items).mapM (agg.groupRow .completeMode items') = .ok rows := by
    rw [Outcome.mapM_congr hgroup]
    exact hrows
  exact Outcome.mapM_perm hkeys hall

/-- The keyed rows in another order have the same groups. -/
theorem outputRows_perm {items items' : List Item} (hperm : items.Perm items')
    (hlen : ∀ x ∈ items, x.2.length = agg.aggregateExpr.length)
    (hexact : ∀ x ∈ items, ∀ v ∈ x.2, v.IsExact)
    (havg : ∀ a ∈ agg.aggregateExpr, a.function ≠ .avg)
    {rows : List Row} (hrows : agg.outputRows .completeMode items = .ok rows) :
    ∃ rows', agg.outputRows .completeMode items' = .ok rows' ∧ rows.Perm rows' := by
  refine outputRows_perm_of hperm hlen (fun key _ i a ha v hv => ?_) hrows
  refine aggregate_perm (((hperm.filter _).map _).map _) ?_ (havg a (List.mem_of_getElem? ha)) hv
  intro c hc
  obtain ⟨x, hx, -, hxc⟩ := exists_item_of_mem_column hlen ha hc
  exact hexact x hx c (List.mem_of_getElem? hxc)

/-! ## The groups of a part of the input -/

/-- The arguments that are read from batches are not floats. -/
theorem readBatch_exact {s : Schema} (hexact : agg.ExactArguments s) {b : RecordBatch}
    (hs : b.types = s.types) {items : List Item} (h : agg.readBatch b = .ok items) :
    ∀ x ∈ items, ∀ v ∈ x.2, v.IsExact := by
  obtain ⟨types, htypes, hitems⟩ := Outcome.bind_eq_ok_iff.mp h
  intro x hx v hv
  obtain ⟨row, hrow, hxrow⟩ := Outcome.mapM_mem hitems hx
  obtain ⟨key, -, hxrow⟩ := Outcome.bind_eq_ok_iff.mp hxrow
  obtain ⟨args, hargs, rfl⟩ := Outcome.bind_pure_eq_ok_iff.mp hxrow
  obtain ⟨a, ha, hav⟩ := Outcome.mapM_mem hargs hv
  obtain ⟨t, ht⟩ := Outcome.mapM_succeeds_iff.mp ⟨types, htypes⟩ a.inputExpression
    (List.mem_append_right _ (List.mem_map_of_mem ha))
  have hfits := b.rows_fit row hrow
  rw [← b.types_eq_schema] at hfits
  refine (Expression.evalCell_fitsIn hfits ht hav).isExact (hexact a ha t ?_)
  rw [← hs, ht]

/-- Reading a batch built from rows is reading the rows one by one. -/
theorem readBatch_ofRows {s : Schema} {rows : List Row}
    (htypes : Outcome.Succeeds (agg.expressions.mapM fun e => e.dataType s.types))
    (h : ∀ r ∈ rows, RowFits s.types r) :
    agg.readBatch (.ofRows s rows h) = rows.mapM (agg.readItem s.types) := by
  obtain ⟨types, htypes⟩ := htypes
  have htypes' : (RecordBatch.ofRows s rows h).types = s.types :=
    (RecordBatch.ofRows s rows h).types_eq_schema
  simp only [readBatch, htypes', htypes, Outcome.ok_bind, RecordBatch.ofRows_rows]

/-- The rows of one group make up a batch. -/
theorem exists_group_batch {s : Schema} {batches : List RecordBatch} {items : List (List Item)}
    (hs : ∀ b ∈ batches, b.schema = s) (h : batches.mapM agg.readBatch = .ok items)
    (hne : batches ≠ []) (key : GroupKey) :
    ∃ b, b.schema = s ∧ agg.readBatch b = .ok (items.flatten.filter fun x => x.1 = key) := by
  obtain ⟨rows, hsub, hrows⟩ := Outcome.mapM_filter (readBatches_rows hs h) fun x => x.1 = key
  have hfits : ∀ r ∈ rows, RowFits s.types r := by
    intro r hr
    obtain ⟨b, hb, hr⟩ := List.mem_flatMap.mp (hsub.subset hr)
    exact hs b hb ▸ b.rows_fit r hr
  obtain ⟨b, hb⟩ := List.exists_mem_of_ne_nil _ hne
  obtain ⟨x, -, hx⟩ := Outcome.mapM_mem_left h hb
  obtain ⟨types, htypes, -⟩ := Outcome.bind_eq_ok_iff.mp hx
  rw [b.types_eq_schema, hs b hb] at htypes
  exact ⟨.ofRows s rows hfits, rfl, (readBatch_ofRows ⟨types, htypes⟩ hfits).trans hrows⟩

omit [Runtime] in
/-- The items of one key have that key alone. -/
theorem groupKeys_filter {items : List Item} {key : GroupKey} (h : key ∈ groupKeys items) :
    groupKeys (items.filter fun x => x.1 = key) = [key] := by
  obtain ⟨args, hargs⟩ := mem_groupKeys.mp h
  refine KeyedFold.firstKeys_of_forall_eq ?_ ?_
  · intro k hk
    obtain ⟨x, hx, rfl⟩ := List.mem_map.mp hk
    simpa using (List.mem_filter.mp hx).2
  · exact List.ne_nil_of_mem (List.mem_map_of_mem (f := Prod.fst)
      (List.mem_filter.mpr ⟨hargs, by simp⟩))

/-- A part of a group that can be aggregated can be aggregated, and its row fits where the group's
row does. -/
theorem groupRow_part {items ps rs : List Item} (hperm : items.Perm (ps ++ rs))
    (hlen : ∀ x ∈ items, x.2.length = agg.aggregateExpr.length)
    (hexact : ∀ x ∈ items, ∀ v ∈ x.2, v.IsExact) {key : GroupKey}
    (havg : ∀ (i : ℕ) a, agg.aggregateExpr[i]? = some a → a.function = .avg →
      ∀ x ∈ items, x.1 = key → x.2[i]? = some .null) {row : Row}
    (hrow : agg.groupRow .completeMode items key = .ok row) :
    ∃ row', agg.groupRow .completeMode ps key = .ok row' ∧
      ∀ types, RowFits types row → RowFits types row' := by
  obtain ⟨outs, rfl, houtslen, houts⟩ := (groupRow_eq_ok_iff hlen).mp hrow
  have hlenp : ∀ x ∈ ps, x.2.length = agg.aggregateExpr.length := fun x hx =>
    hlen x (hperm.mem_iff.mpr (List.mem_append_left rs hx))
  have hpart : ∀ (i : ℕ) a, agg.aggregateExpr[i]? = some a → ∃ u, ∃ v, outs[i]? = some v ∧
      aggregate .completeMode a.function (Table.column (KeyedFold.valuesOf ps key) i) = .ok u ∧
      ∀ t, v.FitsIn t → u.FitsIn t := by
    intro i a ha
    obtain ⟨v, hv, hagg⟩ := houts i a ha
    have hvalues : (Table.column (KeyedFold.valuesOf items key) i).Perm
        (Table.column (KeyedFold.valuesOf ps key) i ++
          Table.column (KeyedFold.valuesOf rs key) i) := by
      unfold Table.column
      rw [← List.map_append, ← KeyedFold.valuesOf_append]
      exact ((hperm.filter _).map _).map _
    obtain ⟨u, hu, hfits⟩ := aggregate_part hvalues
      (fun c hc => by
        obtain ⟨x, hx, -, hxc⟩ := exists_item_of_mem_column hlen ha hc
        exact hexact x hx c (List.mem_of_getElem? hxc))
      (fun hfun c hc => by
        obtain ⟨x, hx, hkey, hxc⟩ := exists_item_of_mem_column hlen ha hc
        simpa [hxc] using havg i a ha hfun x hx hkey) hagg
    exact ⟨u, v, hv, hu, hfits⟩
  obtain ⟨outs', hlen', houts'⟩ := Outcome.exists_list _ hpart
  refine ⟨key ++ outs', (groupRow_eq_ok_iff hlenp).mpr ⟨outs', rfl, hlen', fun i a ha => ?_⟩, ?_⟩
  · obtain ⟨u, hu, v, -, hagg, -⟩ := houts' i a ha
    exact ⟨u, hu, hagg⟩
  · intro types hfits
    refine hfits.mono (by simp [hlen', houtslen]) fun i v v' hv hv' t hvt => ?_
    by_cases hi : i < key.length
    · rw [List.getElem?_append_left hi] at hv hv'
      obtain rfl : v = v' := by simpa [hv] using hv'
      exact hvt
    · have hi : key.length ≤ i := not_lt.mp hi
      rw [List.getElem?_append_right hi] at hv hv'
      have hia : i - key.length < agg.aggregateExpr.length := by
        rw [← houtslen]
        exact (List.getElem?_eq_some_iff.mp hv).1
      obtain ⟨u, hu, w, hw, -, hfits⟩ := houts' _ _ (List.getElem?_eq_getElem hia)
      obtain rfl : u = v' := by simpa [hu] using hv'
      obtain rfl : w = v := by simpa [hw] using hv
      exact hfits t hvt

/-- A batch of one group can be aggregated when the group can and its row can be built. -/
theorem run_group {b : RecordBatch} {items : List Item} {key : GroupKey} {row : Row}
    (hread : agg.readBatch b = .ok items) (hkeys : groupKeys items = [key])
    (hrow : agg.groupRow .completeMode items key = .ok row) (hbuild : Builds agg.schema [row]) :
    ∃ out, agg.run .completeMode [.ok b] = .ok out ∧ out.rows = [row] := by
  have hitems : [b].mapM agg.readBatch = .ok [items] := by simp [List.mapM_cons, hread]
  have hrows : agg.outputRows .completeMode [items].flatten = .ok [row] := by
    simp [outputRows, hkeys, List.mapM_cons, hrow]
  have hstream : [(.ok b : Result RecordBatch)].mapM id = .ok [b] := rfl
  obtain ⟨out, hout, -, hperm⟩ := run_succeeds hstream hitems hrows hbuild
  exact ⟨out, hout, List.perm_singleton.mp hperm⟩

section

variable {s : Schema} {batches : List RecordBatch} {its : List (List Item)} {rows : List Row}

/-- In an input that can be aggregated, AVG is applied to nulls only. -/
theorem averages_null (havg : agg.AveragesNull s) (hs : ∀ b ∈ batches, b.schema = s)
    (hits : batches.mapM agg.readBatch = .ok its)
    (hrows : agg.outputRows .completeMode its.flatten = .ok rows)
    (hbuild : Builds agg.schema rows) {i : ℕ} {a : AggregateExpression}
    (ha : agg.aggregateExpr[i]? = some a) (hfun : a.function = .avg) :
    ∀ x ∈ its.flatten, x.2[i]? = some .null := by
  intro x hx
  have hne : batches ≠ [] := by
    rintro rfl
    obtain rfl : [] = its := by simpa using hits
    simp at hx
  have hkey : x.1 ∈ groupKeys its.flatten := mem_groupKeys.mpr ⟨x.2, hx⟩
  obtain ⟨b, hb, hread⟩ := exists_group_batch hs hits hne x.1
  obtain ⟨row, hrow⟩ := Outcome.mapM_succeeds_iff.mp ⟨rows, hrows⟩ x.1 hkey
  have hmem : row ∈ rows := by
    obtain ⟨row', hmem, hrow'⟩ := Outcome.mapM_mem_left hrows hkey
    obtain rfl : row = row' := by simpa [hrow] using hrow'
    exact hmem
  obtain ⟨out, hout, -⟩ := run_group hread (groupKeys_filter hkey) (by rw [groupRow_filter, hrow])
    ⟨hbuild.fields_ne, hbuild.hasBuilder, by simpa using hbuild.fits row hmem⟩
  exact havg b _ hb hread ⟨out, hout⟩ i a ha hfun x
    (List.mem_filter.mpr ⟨hx, by simp⟩)

/-- Where groups read back, the expressions accept the aggregate's own schema. -/
theorem typed_of_readsBack {copies : ℕ} (hread : agg.ReadsBack s copies)
    (hs : ∀ b ∈ batches, b.schema = s) (hits : batches.mapM agg.readBatch = .ok its)
    (hne : batches ≠ []) (hbuild : Builds agg.schema rows) :
    Outcome.Succeeds (agg.expressions.mapM fun e => e.dataType agg.schema.types) := by
  obtain ⟨b, hb⟩ := List.exists_mem_of_ne_nil _ hne
  obtain ⟨x, -, hx⟩ := Outcome.mapM_mem_left hits hb
  obtain ⟨types, htypes, -⟩ := Outcome.bind_eq_ok_iff.mp hx
  rw [b.types_eq_schema, hs b hb] at htypes
  have hempty : agg.readBatch (.empty s) = .ok [] := by
    have htypes' : (RecordBatch.empty s).types = s.types := (RecordBatch.empty s).types_eq_schema
    simp only [readBatch, htypes', htypes, Outcome.ok_bind]
    rfl
  have hitems : [RecordBatch.empty s].mapM agg.readBatch = .ok [[]] := by
    simp [List.mapM_cons, hempty]
  have hrows : agg.outputRows .completeMode [[]].flatten = .ok [] := rfl
  have hstream : [(.ok (.empty s) : Result RecordBatch)].mapM id = .ok [.empty s] := rfl
  obtain ⟨out, hout, -⟩ := run_succeeds hstream hitems hrows
    ⟨hbuild.fields_ne, hbuild.hasBuilder, by simp⟩
  exact (hread (.empty s) out rfl hout).1

/-- What the partial stage outputs for a group is the complete row. -/
theorem groupRow_completeMode {items : List Item} {key : GroupKey} {row : Row}
    (hlen : ∀ x ∈ items, x.2.length = agg.aggregateExpr.length)
    (h : agg.groupRow .partialMode items key = .ok row) :
    agg.groupRow .completeMode items key = .ok row := by
  obtain ⟨outs, rfl, houtslen, houts⟩ := (groupRow_eq_ok_iff hlen).mp h
  refine (groupRow_eq_ok_iff hlen).mpr ⟨outs, rfl, houtslen, fun i a ha => ?_⟩
  obtain ⟨v, hv, hagg⟩ := houts i a ha
  exact ⟨v, hv, aggregate_completeMode hagg⟩

/-- The partial stage outputs the complete row, unless it has averaged a value. -/
theorem groupRow_partialMode {items : List Item} {key : GroupKey} {row : Row}
    (hlen : ∀ x ∈ items, x.2.length = agg.aggregateExpr.length)
    (havg : ∀ (i : ℕ) a, agg.aggregateExpr[i]? = some a → a.function = .avg →
      ∀ x ∈ items, x.1 = key → x.2[i]? = some .null) :
    agg.groupRow .partialMode items key = .ok row ↔
      agg.groupRow .completeMode items key = .ok row := by
  refine ⟨groupRow_completeMode hlen, fun h => ?_⟩
  obtain ⟨outs, rfl, houtslen, houts⟩ := (groupRow_eq_ok_iff hlen).mp h
  refine (groupRow_eq_ok_iff hlen).mpr ⟨outs, rfl, houtslen, fun i a ha => ?_⟩
  obtain ⟨v, hv, hagg⟩ := houts i a ha
  refine ⟨v, hv, (aggregate_partialMode fun hfun c hc => ?_).mpr hagg⟩
  obtain ⟨x, hx, hkey, hxc⟩ := exists_item_of_mem_column hlen ha hc
  simpa [hxc] using havg i a ha hfun x hx hkey

/-- Partial rows that read back are read as keyed rows that merge into their groups, in any
order. -/
theorem merges_of_rows {J F G : List Item} {prows : List Row} {types : List DataType}
    (hlen : ∀ x ∈ J, x.2.length = agg.aggregateExpr.length)
    (hprows : agg.outputRows .partialMode J = .ok prows)
    (hG : prows.mapM (agg.readItem types) = .ok G) (hperm : F.Perm G)
    (hback : ∀ key ∈ groupKeys J, ∀ outs, agg.groupRow .partialMode J key = .ok (key ++ outs) →
      ∃ args, agg.readItem types (key ++ outs) = .ok (key, args) ∧
        ∀ (i : ℕ) a, agg.aggregateExpr[i]? = some a → ∃ w v, args[i]? = some w ∧
          outs[i]? = some v ∧ aggregate .finalMode a.function [w] = .ok v) :
    agg.Merges J F := by
  have hcomp := Outcome.mapM_comp hprows hG
  have hkeys : G.map Prod.fst = groupKeys J := by
    refine Outcome.map_of_mapM hcomp fun key hkey x hx => ?_
    obtain ⟨row, hrow, hx⟩ := Outcome.bind_eq_ok_iff.mp hx
    obtain ⟨outs, rfl, -⟩ := (groupRow_eq_ok_iff hlen).mp hrow
    obtain ⟨args, hargs, -⟩ := hback key hkey outs hrow
    obtain rfl : (key, args) = x := by simpa [hargs] using hx
    rfl
  have hkeys' : (F.map Prod.fst).Perm (groupKeys J) := hkeys ▸ hperm.map Prod.fst
  constructor
  -- A key that the bucket lacks is in none of its partial rows,
  · intro key hkey
    rw [KeyedFold.valuesOf_eq_nil_iff, hkeys'.mem_iff]
    exact hkey
  -- and one that it has is in exactly one of them.
  · intro key hkey
    obtain ⟨x, hxG, hx⟩ := Outcome.mapM_mem_left hcomp hkey
    obtain ⟨row, hrow, hx⟩ := Outcome.bind_eq_ok_iff.mp hx
    obtain ⟨outs, rfl, -, houts⟩ := (groupRow_eq_ok_iff hlen).mp hrow
    obtain ⟨args, hargs, hback⟩ := hback key hkey outs hrow
    obtain rfl : (key, args) = x := by simpa [hargs] using hx
    refine ⟨args, KeyedFold.valuesOf_of_nodup (hkeys'.nodup_iff.mpr (KeyedFold.nodup_firstKeys _))
      (hperm.mem_iff.mpr hxG), fun i a ha => ?_⟩
    obtain ⟨w, v, hw, hv, hfin⟩ := hback i a ha
    obtain ⟨v', hv', hpart⟩ := houts i a ha
    obtain rfl : v' = v := by simpa [hv'] using hv
    exact ⟨w, v', hw, hpart, hfin⟩

/-- The partial stage runs on a part of an input that can be aggregated, and the final stage reads
its output as keyed rows that merge into the groups of the part. -/
theorem exists_partial_batch (hexact : agg.ExactArguments s)
    (hread : agg.ReadsBack s 1) (havg : agg.AveragesNull s) (hs : ∀ b ∈ batches, b.schema = s)
    (hits : batches.mapM agg.readBatch = .ok its)
    (hrows : agg.outputRows .completeMode its.flatten = .ok rows)
    (hbuild : Builds agg.schema rows) {bucket rest : List RecordBatch} (hne : bucket ≠ [])
    (hperm : batches.Perm (bucket ++ rest)) :
    ∃ J, bucket.mapM agg.readBatch = .ok J ∧
      ∃ p F, agg.run .partialMode (bucket.map .ok) = .ok p ∧ agg.readBatch p = .ok F ∧
        agg.Merges J.flatten F := by
  obtain ⟨its', hits', hperm'⟩ := Outcome.mapM_perm hperm hits
  obtain ⟨J, R, hJ, -, rfl⟩ := Outcome.mapM_append_eq_ok_iff.mp hits'
  have hitems : its.flatten.Perm (J.flatten ++ R.flatten) := by
    rw [← List.flatten_append]
    exact hperm'.flatten
  have hsb : ∀ b ∈ bucket, b.schema = s := fun b hb =>
    hs b (hperm.mem_iff.mpr (List.mem_append_left rest hb))
  have hlen := readBatches_lengths hits
  have hlenJ : ∀ x ∈ J.flatten, x.2.length = agg.aggregateExpr.length := fun x hx =>
    (readBatches_lengths hJ x hx).2
  have hex : ∀ x ∈ its.flatten, ∀ v ∈ x.2, v.IsExact := by
    intro x hx
    obtain ⟨xs, hxs, hx⟩ := List.mem_flatten.mp hx
    obtain ⟨b, hb, hbx⟩ := Outcome.mapM_mem hits hxs
    exact readBatch_exact hexact (hs b hb ▸ b.types_eq_schema) hbx x hx
  -- The partial row of every group of the part, and how it reads back.
  have hgroup : ∀ key ∈ groupKeys J.flatten, ∃ outs,
      agg.groupRow .partialMode J.flatten key = .ok (key ++ outs) ∧
        RowFits agg.schema.types (key ++ outs) ∧
        agg.ReadsBackAs 1 key outs := by
    intro key hkey
    have hkey' : key ∈ groupKeys its.flatten := by
      obtain ⟨args, hargs⟩ := mem_groupKeys.mp hkey
      exact mem_groupKeys.mpr ⟨args, hitems.mem_iff.mpr (List.mem_append_left _ hargs)⟩
    obtain ⟨row, hmem, hrow⟩ := Outcome.mapM_mem_left hrows hkey'
    obtain ⟨row', hrow', hfits⟩ := groupRow_part hitems (fun x hx => (hlen x hx).2) hex
      (fun i a ha hfun x hx _ => averages_null havg hs hits hrows hbuild ha hfun x hx) hrow
    have hnull : ∀ (i : ℕ) a, agg.aggregateExpr[i]? = some a → a.function = .avg →
        ∀ x ∈ J.flatten, x.2[i]? = some .null := fun i a ha hfun x hx =>
      averages_null havg hs hits hrows hbuild ha hfun x
        (hitems.mem_iff.mpr (List.mem_append_left _ hx))
    have hfits := hfits _ (hbuild.fits row hmem)
    obtain ⟨b, hb, hbread⟩ := exists_group_batch hsb hJ hne key
    obtain ⟨out, hout, hmem⟩ := run_group hbread (groupKeys_filter hkey)
      (by rw [groupRow_filter, hrow'])
      ⟨hbuild.fields_ne, hbuild.hasBuilder, by simpa using hfits⟩
    obtain ⟨key', outs, rfl, hback⟩ := (hread b out hb hout).2 row' (by simp [hmem])
    obtain ⟨args, hargs, -⟩ := id hback
    obtain ⟨outs', heq, -⟩ := (groupRow_eq_ok_iff hlenJ).mp hrow'
    obtain ⟨x, hx⟩ := mem_groupKeys.mp hkey
    obtain ⟨rfl, rfl⟩ := List.append_inj heq (by
      rw [(readItem_lengths hargs).1, (readBatches_lengths hJ _ hx).1])
    exact ⟨outs, (groupRow_partialMode hlenJ fun i a ha hfun x hx _ => hnull i a ha hfun x hx).mpr
      hrow', hfits, hback⟩
  obtain ⟨prows, hprows⟩ : Outcome.Succeeds (agg.outputRows .partialMode J.flatten) := by
    refine Outcome.mapM_succeeds_iff.mpr fun key hkey => ?_
    obtain ⟨outs, houts, -⟩ := hgroup key hkey
    exact ⟨_, houts⟩
  have hrow : ∀ r ∈ prows, ∃ key ∈ groupKeys J.flatten, ∃ outs, r = key ++ outs ∧
      RowFits agg.schema.types r ∧ agg.ReadsBackAs 1 key outs := by
    intro r hr
    obtain ⟨key, hkey, hkr⟩ := Outcome.mapM_mem hprows hr
    obtain ⟨outs, houts, hfits, hback⟩ := hgroup key hkey
    obtain rfl : key ++ outs = r := by simpa [houts] using hkr
    exact ⟨key, hkey, outs, rfl, hfits, hback⟩
  have hbuildJ : Builds agg.schema prows := by
    refine ⟨hbuild.fields_ne, hbuild.hasBuilder, fun r hr => ?_⟩
    obtain ⟨-, -, -, -, hfits, -⟩ := hrow r hr
    exact hfits
  obtain ⟨p, hp, hpschema, hprows'⟩ := run_succeeds (Outcome.mapM_id_map_ok bucket) hJ hprows hbuildJ
  obtain ⟨types, htypes⟩ := typed_of_readsBack hread hsb hJ hne hbuild
  obtain ⟨G, hG⟩ : Outcome.Succeeds (prows.mapM (agg.readItem agg.schema.types)) := by
    refine Outcome.mapM_succeeds_iff.mpr fun r hr => ?_
    obtain ⟨key, -, outs, rfl, -, args, hargs, -⟩ := hrow r hr
    exact ⟨_, hargs⟩
  obtain ⟨F, hF, hFG⟩ := Outcome.mapM_perm hprows'.symm hG
  have hptypes : p.types = agg.schema.types := hpschema ▸ p.types_eq_schema
  refine ⟨J, hJ, p, F, hp, ?_, merges_of_rows hlenJ hprows hG hFG.symm fun key hkey outs houts => ?_⟩
  · simp only [readBatch, hptypes, htypes, Outcome.ok_bind, hF]
  · obtain ⟨outs', houts', -, args, hargs, hback⟩ := hgroup key hkey
    obtain rfl : outs' = outs := by simpa [houts] using houts'.symm
    exact ⟨args, hargs, hback⟩

/-- Aggregating parts of the input and merging the results aggregates the input. -/
theorem run_twoStage (hagg : agg.WellFormed) (hexact : agg.ExactArguments s)
    (hread : agg.ReadsBack s 1) (havg : agg.AveragesNull s) (hs : ∀ b ∈ batches, b.schema = s)
    {out : RecordBatch} (hout : agg.run .completeMode (batches.map .ok) = .ok out)
    {buckets : List (List RecordBatch)} (hne : ∀ bucket ∈ buckets, bucket ≠ [])
    (hperm : batches.Perm buckets.flatten) :
    ∃ ps, List.Forall₂ (fun bucket p => agg.run .partialMode (bucket.map .ok) = .ok p) buckets ps ∧
      ∃ out', agg.run .finalMode (ps.map .ok) = .ok out' ∧ out'.rows.Perm out.rows := by
  obtain ⟨batches', its, rows, hbatches, hits, hrows, hbuild, -, hrowsout⟩ := run_ok hagg hout
  obtain rfl : batches = batches' := by
    rw [Outcome.mapM_id_map_ok, Except.ok.injEq] at hbatches
    exact hbatches
  obtain ⟨parts, hparts⟩ : ∃ parts : List (List (List Item) × RecordBatch × List Item),
      List.Forall₂ (fun bucket x => bucket.mapM agg.readBatch = .ok x.1 ∧
        agg.run .partialMode (bucket.map .ok) = .ok x.2.1 ∧ agg.readBatch x.2.1 = .ok x.2.2 ∧
        agg.Merges x.1.flatten x.2.2) buckets parts := by
    refine Outcome.exists_forall₂ fun bucket hbucket => ?_
    obtain ⟨before, after, rfl⟩ := List.append_of_mem hbucket
    have hpart : batches.Perm (bucket ++ (before ++ after).flatten) := by
      refine hperm.trans ?_
      simpa using List.perm_append_comm_assoc before.flatten bucket after.flatten
    obtain ⟨J, hJ, p, F, h⟩ := exists_partial_batch hexact hread havg hs hits hrows hbuild
      (hne bucket hbucket) hpart
    exact ⟨(J, p, F), hJ, h⟩
  refine ⟨parts.map fun x => x.2.1, ?_, ?_⟩
  · rw [List.forall₂_map_right_iff]
    exact hparts.imp fun _ _ h => h.2.1
  have hFs : (parts.map fun x => x.2.1).mapM agg.readBatch = .ok (parts.map fun x => x.2.2) := by
    rw [List.mapM_map]
    refine Outcome.mapM_eq_ok_map fun x hx => ?_
    obtain ⟨bucket, -, h⟩ := Outcome.forall₂_mem_right hparts hx
    exact h.2.2.1
  have hJs : buckets.flatten.mapM agg.readBatch = .ok (parts.map Prod.fst).flatten := by
    refine Outcome.mapM_flatten ?_
    rw [List.forall₂_map_right_iff]
    exact hparts.imp fun _ _ h => h.1
  obtain ⟨its', hits', hperm'⟩ := Outcome.mapM_perm hperm hits
  obtain rfl : its' = (parts.map Prod.fst).flatten := by simpa [hJs] using hits'.symm
  have hmerges : List.Forall₂ agg.Merges ((parts.map Prod.fst).map List.flatten)
      (parts.map fun x => x.2.2) := by
    rw [List.map_map, List.forall₂_map_left_iff, List.forall₂_map_right_iff, List.forall₂_same]
    intro x hx
    obtain ⟨bucket, -, h⟩ := Outcome.forall₂_mem_right hparts hx
    exact h.2.2.2
  obtain ⟨rows', hrows', hperm''⟩ := outputRows_merge hmerges
    (by simpa [List.flatten_flatten] using hperm'.flatten)
    (fun x hx => (readBatches_lengths hits x hx).2)
    (fun x hx => (readBatches_lengths hFs x hx).2)
    (by
      intro x hx
      obtain ⟨xs, hxs, hx⟩ := List.mem_flatten.mp hx
      obtain ⟨b, hb, hbx⟩ := Outcome.mapM_mem hits hxs
      exact readBatch_exact hexact (hs b hb ▸ b.types_eq_schema) hbx x hx)
    (fun i a ha hfun => averages_null havg hs hits hrows hbuild ha hfun) hrows
  obtain ⟨out', hout', -, hrowsout'⟩ := run_succeeds (Outcome.mapM_id_map_ok _) hFs hrows'
    (hbuild.perm hperm''.symm)
  exact ⟨out', hout', hrowsout'.trans (hperm''.trans hrowsout.symm)⟩

end

/-! ## What the final stage needs -/

omit [Runtime] in
/-- Copies of an item hold copies of its values. -/
theorem valuesOf_replicate (copies : ℕ) (x : Item) :
    KeyedFold.valuesOf (List.replicate copies x) x.1 = List.replicate copies x.2 := by
  simp [KeyedFold.valuesOf]

/-- If the final stage makes a row of copies of a batch with only this row, the row reads back. -/
theorem readsBackRow_of_final (hagg : agg.WellFormed) {p : RecordBatch} {row : Row} {copies : ℕ}
    (hschema : p.schema = agg.schema) (hp : p.rows = [row]) (hcopies : 0 < copies)
    {out : RecordBatch} (hout : agg.run .finalMode (List.replicate copies (.ok p)) = .ok out)
    (hrow : out.rows = [row]) : agg.ReadsBackRow copies row := by
  obtain ⟨batches, items, rows, hbatches, hitems, hrows, -, -, hperm⟩ := run_ok hagg hout
  rw [← List.map_replicate, Outcome.mapM_id_map_ok, Except.ok.injEq] at hbatches
  subst hbatches
  obtain ⟨F, hF⟩ : Outcome.Succeeds (agg.readBatch p) :=
    Outcome.mapM_succeeds_iff.mp ⟨items, hitems⟩ p (List.mem_replicate.mpr ⟨hcopies.ne', rfl⟩)
  obtain ⟨types, -, hFrows⟩ := Outcome.bind_eq_ok_iff.mp hF
  rw [hp, Outcome.mapM_singleton_eq_ok_iff] at hFrows
  obtain ⟨x, hx, rfl⟩ := hFrows
  -- Every copy is read as the same item.
  have hflat : items.flatten = List.replicate copies x := by
    have hread : (List.replicate copies p).mapM agg.readBatch =
        .ok ((List.replicate copies p).map fun _ => [x]) :=
      Outcome.mapM_eq_ok_map fun b hb => by rw [List.eq_of_mem_replicate hb, hF]
    rw [hitems, Except.ok.injEq, List.map_replicate] at hread
    rw [hread, List.flatten_replicate_singleton]
  rw [p.types_eq_schema, hschema] at hx
  have hlen := readItem_lengths hx
  have hkeys : groupKeys (List.replicate copies x) = [x.1] := by
    refine KeyedFold.firstKeys_of_forall_eq (fun k hk => ?_) ?_
    · rw [List.map_replicate] at hk
      exact List.eq_of_mem_replicate hk
    · simp [hcopies.ne']
  rw [hflat, outputRows, hkeys, Outcome.mapM_singleton_eq_ok_iff] at hrows
  obtain ⟨row', hrow', rfl⟩ := hrows
  obtain rfl : row = row' := by
    rw [hrow, List.singleton_perm, List.cons.injEq] at hperm
    exact hperm.1
  obtain ⟨outs, rfl, -, houts⟩ := (groupRow_eq_ok_iff fun y hy => by
    rw [List.eq_of_mem_replicate hy]
    exact hlen.2).mp hrow'
  refine ⟨x.1, outs, rfl, x.2, hx, fun i a ha => ?_⟩
  obtain ⟨v, hv, hfin⟩ := houts i a ha
  rw [valuesOf_replicate, Table.column, List.map_replicate] at hfin
  have hi : i < x.2.length := by
    rw [hlen.2]
    exact (List.getElem?_eq_some_iff.mp ha).1
  -- The fold of the copies is the value the row holds.
  refine ⟨x.2[i], v, List.getElem?_eq_getElem hi, hv, ?_⟩
  simpa [hi] using hfin

/-- The partial stage cannot output a row that averages a single value. -/
theorem averages_null_of_partialMode (hagg : agg.WellFormed) {b p : RecordBatch} {x : Item}
    (hp : agg.run .partialMode [.ok b] = .ok p) (hread : agg.readBatch b = .ok [x]) {i : ℕ}
    {a : AggregateExpression} (ha : agg.aggregateExpr[i]? = some a) (hfun : a.function = .avg) :
    x.2[i]? = some .null := by
  obtain ⟨batches, items, rows, hbatches, hitems, hrows, -⟩ := run_ok hagg hp
  obtain rfl : [b] = batches := by simpa using hbatches
  obtain rfl : items = [[x]] := by
    obtain ⟨y, hy, rfl⟩ := Outcome.mapM_singleton_eq_ok_iff.mp hitems
    rw [hread, Except.ok.injEq] at hy
    rw [hy]
  have hmem : x.1 ∈ groupKeys [x] := by simp
  obtain ⟨row, -, hrow⟩ := Outcome.mapM_mem_left hrows hmem
  have hlen : ∀ y ∈ [x], y.2.length = agg.aggregateExpr.length := fun y hy =>
    (readBatches_lengths hitems y (by simpa using hy)).2
  obtain ⟨outs, -, -, houts⟩ := (groupRow_eq_ok_iff hlen).mp hrow
  obtain ⟨u, -, hu⟩ := houts i a ha
  have hi : i < x.2.length := by
    rw [hlen x (by simp)]
    exact (List.getElem?_eq_some_iff.mp ha).1
  have hcolumn : Table.column (KeyedFold.valuesOf [x] x.1) i = [x.2[i]] := by
    simp [KeyedFold.valuesOf, Table.column, hi]
  rw [hcolumn, hfun] at hu
  rw [List.getElem?_eq_getElem hi, Option.some_inj]
  -- The partial mode of an average rejects any value but null.
  by_contra hnull
  exact aggregate_avg_partial hnull hu

/-- The partial stage outputs the rows of the complete one. -/
theorem run_partialMode_perm (hagg : agg.WellFormed) {stream : BatchStream}
    {p out : RecordBatch} (hp : agg.run .partialMode stream = .ok p)
    (hout : agg.run .completeMode stream = .ok out) : p.rows.Perm out.rows := by
  obtain ⟨batches, items, prows, hbatches, hitems, hprows, -, -, hperm⟩ := run_ok hagg hp
  obtain ⟨batches', items', rows, hbatches', hitems', hrows, -, -, hperm'⟩ := run_ok hagg hout
  obtain rfl : batches = batches' := by simpa [hbatches] using hbatches'
  obtain rfl : items = items' := by simpa [hitems] using hitems'
  have hsame : agg.outputRows .completeMode items.flatten = .ok prows := by
    rw [outputRows, Outcome.mapM_eq_ok_iff]
    exact (Outcome.mapM_eq_ok_iff.mp hprows).imp fun key row =>
      groupRow_completeMode fun x hx => (readBatches_lengths hitems x hx).2
  obtain rfl : prows = rows := by simpa [hsame] using hrows
  exact hperm.trans hperm'.symm

/-- Every output row is the only output row of a part of the input. -/
theorem exists_group_run (hagg : agg.WellFormed) {b out : RecordBatch} {row : Row}
    (hout : agg.run .completeMode [.ok b] = .ok out) (hrow : row ∈ out.rows) :
    ∃ b' out', b'.schema = b.schema ∧ agg.run .completeMode [.ok b'] = .ok out' ∧
      out'.rows = [row] := by
  obtain ⟨batches, items, rows, hbatches, hitems, hrows, hbuild, -, hperm⟩ := run_ok hagg hout
  obtain rfl : [b] = batches := by simpa using hbatches
  obtain ⟨key, hkey, hkeyrow⟩ := Outcome.mapM_mem hrows (hperm.mem_iff.mp hrow)
  obtain ⟨b', hb', hread⟩ := exists_group_batch (s := b.schema) (by simp) hitems (by simp) key
  obtain ⟨out', hout', hrows'⟩ := run_group hread (groupKeys_filter hkey)
    (by rw [groupRow_filter, hkeyrow])
    ⟨hbuild.fields_ne, hbuild.hasBuilder, by
      simpa using hbuild.fits row (hperm.mem_iff.mp hrow)⟩
  exact ⟨b', out', hb', hout', hrows'⟩

/-- A row of a batch can be aggregated apart from the rows before and after it. -/
theorem exists_split_batch (hagg : agg.WellFormed) {b out : RecordBatch} {items : List Item}
    (hread : agg.readBatch b = .ok items) (hout : agg.run .completeMode [.ok b] = .ok out)
    {x : Item} (hx : x ∈ items) :
    ∃ b₁ b₂ b₃ : RecordBatch, b₁.schema = b.schema ∧ b₂.schema = b.schema ∧
      b₃.schema = b.schema ∧ agg.readBatch b₂ = .ok [x] ∧
      Outcome.Succeeds (agg.run .completeMode [.ok b₁, .ok b₂, .ok b₃]) := by
  obtain ⟨batches, its, rows, hbatches, hits, hrows, hbuild, -⟩ := run_ok hagg hout
  obtain rfl : [b] = batches := by simpa using hbatches
  obtain rfl : its = [items] := by
    obtain ⟨y, hy, rfl⟩ := Outcome.mapM_singleton_eq_ok_iff.mp hits
    rw [hread, Except.ok.injEq] at hy
    rw [hy]
  obtain ⟨before, after, rfl⟩ := List.append_of_mem hx
  obtain ⟨types, htypes, hmap⟩ := Outcome.bind_eq_ok_iff.mp hread
  rw [b.types_eq_schema] at htypes hmap
  obtain ⟨r₁, rs, hrows₁, h₁, hrest⟩ := Outcome.mapM_eq_ok_append hmap
  rw [← List.singleton_append] at hrest
  obtain ⟨r₂, r₃, rfl, h₂, h₃⟩ := Outcome.mapM_eq_ok_append hrest
  have hfits : ∀ r ∈ r₁ ++ (r₂ ++ r₃), RowFits b.schema.types r := hrows₁ ▸ b.rows_fit
  have hf₁ : ∀ r ∈ r₁, RowFits b.schema.types r := fun r hr => hfits r (by simp [hr])
  have hf₂ : ∀ r ∈ r₂, RowFits b.schema.types r := fun r hr => hfits r (by simp [hr])
  have hf₃ : ∀ r ∈ r₃, RowFits b.schema.types r := fun r hr => hfits r (by simp [hr])
  have htypes' : Outcome.Succeeds (agg.expressions.mapM fun e => e.dataType b.schema.types) :=
    ⟨types, htypes⟩
  have hread₂ := (readBatch_ofRows htypes' hf₂).trans h₂
  refine ⟨.ofRows _ r₁ hf₁, .ofRows _ r₂ hf₂, .ofRows _ r₃ hf₃, rfl, rfl, rfl, hread₂, ?_⟩
  have hitems : [RecordBatch.ofRows _ r₁ hf₁, .ofRows _ r₂ hf₂, .ofRows _ r₃ hf₃].mapM
      agg.readBatch = .ok [before, [x], after] := by
    simp only [List.mapM_cons, List.mapM_nil, readBatch_ofRows htypes', h₁, h₂, h₃]
    rfl
  have hflat : [before, [x], after].flatten = [before ++ x :: after].flatten := by simp
  obtain ⟨out', hout', -⟩ := run_succeeds (Outcome.mapM_id_map_ok _) hitems
    (hflat ▸ hrows) hbuild
  exact ⟨out', hout'⟩

end HashAggregate

end RQuery
