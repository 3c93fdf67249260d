import RQuery.Common.HashedMap
import RQuery.Semantics.NestedLoop
import RQuery.Physical.Shuffle

/-!
# Hash keys

`RowKey` and `GroupKey` each come with an equality and a hash of their own, written out twice in the
source. Both equalities are that of the values, floats being their bit patterns, and both hashes are
injective on keys, so the maps of the join and of the aggregation are those of the model and a row
has one key everywhere (`hashKeys_agree`).
-/

namespace RQuery

section

variable [FloatModel]

/-! ## The group keys of `HashAggregateExec` -/

/-- `GroupKey::eq`. -/
def GroupKey.eq (a b : GroupKey) : Bool :=
  a.length = b.length && (a.zip b).all fun x => scalarKeyEq x.1 x.2

/-- `hash_scalar` of `hash_aggregate_exec.rs`: the variant, then the value. -/
def GroupKey.hashScalar (v : ScalarValue) : List HashWrite :=
  .discriminant v.discriminant ::
    match v with
    | .null => []
    | .boolean b => [.bool b]
    | .int8 n => [.int 8 n.toInt]
    | .int16 n => [.int 16 n.toInt]
    | .int32 n => [.int 32 n.toInt]
    | .int64 n => [.int 64 n.toInt]
    | .uint8 n => [.int 8 n.toNat]
    | .uint16 n => [.int 16 n.toNat]
    | .uint32 n => [.int 32 n.toNat]
    | .uint64 n => [.int 64 n.toNat]
    | .float32 f => [.int 32 (FloatModel.single.toBits f)]
    | .float64 f => [.int 64 (FloatModel.double.toBits f)]
    | .utf8 s => [.str s]
    | .binary b => [.bytes b]
    | .date32 d => [.int 32 d.toInt]

/-- `GroupKey::hash`. -/
def GroupKey.hash (key : GroupKey) : List HashWrite := key.flatMap GroupKey.hashScalar

/-- The two copies compare scalars alike. -/
theorem scalarKeyEq_eq_scalarEq (a b : ScalarValue) : scalarKeyEq a b = scalarEq a b := by
  rw [Bool.eq_iff_iff, scalarKeyEq_iff, scalarEq_iff]

/-- The two copies hash scalars alike. -/
theorem hashScalar_eq_hashWrites (v : ScalarValue) : GroupKey.hashScalar v = v.hashWrites := by
  cases v <;> rfl

/-- The two key types compare alike. -/
theorem GroupKey.eq_eq_rowKey (a b : List ScalarValue) : GroupKey.eq a b = RowKey.eq a b := by
  simp only [GroupKey.eq, RowKey.eq, scalarKeyEq_eq_scalarEq]

/-- And they hash alike. -/
theorem GroupKey.hash_eq_rowKey (a : List ScalarValue) : GroupKey.hash a = RowKey.hash a := by
  simp only [GroupKey.hash, RowKey.hash, funext hashScalar_eq_hashWrites]

/-- Two group keys are equal for the map exactly when they are the same list of values. -/
theorem GroupKey.eq_iff {a b : GroupKey} : GroupKey.eq a b = true ↔ a = b := by
  rw [GroupKey.eq_eq_rowKey, RowKey.eq_iff]

/-! ## What a key writes to the hasher -/

/-- The writes of a value tell it apart from every other value, whatever is written after it. -/
theorem hashWrites_append_inj {v w : ScalarValue} {s t : List HashWrite}
    (h : v.hashWrites ++ s = w.hashWrites ++ t) : v = w ∧ s = t := by
  have hvariant : v.discriminant = w.discriminant := by
    simp only [ScalarValue.hashWrites, List.cons_append, List.cons.injEq,
      HashWrite.discriminant.injEq] at h
    exact h.1
  cases v <;> cases w <;>
    simp_all [ScalarValue.discriminant, ScalarValue.hashWrites, Int8.toInt_inj, Int16.toInt_inj,
      Int32.toInt_inj, Int64.toInt_inj, UInt8.toNat_inj, UInt16.toNat_inj, UInt32.toNat_inj,
      UInt64.toNat_inj, FloatModel.single.toBits_injective.eq_iff,
      FloatModel.double.toBits_injective.eq_iff]

/-- Keys write the same exactly when they are equal. -/
theorem RowKey.hash_eq_iff {a b : RowKey} : RowKey.hash a = RowKey.hash b ↔ RowKey.eq a b = true := by
  rw [RowKey.eq_iff]
  refine ⟨fun h => ?_, congrArg RowKey.hash⟩
  unfold RowKey.hash at h
  induction a generalizing b with
  | nil =>
    cases b with
    | nil => rfl
    | cons w b => simp [ScalarValue.hashWrites] at h
  | cons v a ih =>
    cases b with
    | nil => simp [ScalarValue.hashWrites] at h
    | cons w b =>
      rw [List.flatMap_cons, List.flatMap_cons] at h
      obtain ⟨rfl, hrest⟩ := hashWrites_append_inj h
      rw [ih hrest]

/-! ## The maps -/

/-- `RowKey` as the key of a map. -/
def RowKey.ops : HashedMap.KeyOps RowKey (List HashWrite) := ⟨RowKey.eq, RowKey.hash⟩

/-- `GroupKey` as the key of a map. -/
def GroupKey.ops : HashedMap.KeyOps GroupKey (List HashWrite) := ⟨GroupKey.eq, GroupKey.hash⟩

/-- The join's keys are lawful keys of a hash map. -/
theorem RowKey.ops_lawful : RowKey.ops.Lawful := HashedMap.KeyOps.lawful_of_eq_iff RowKey.eq_iff

variable [Runtime]

/-- The map of an aggregation is a hash map of `GroupKey`s. -/
theorem fold_groupKey (agg : HashAggregate) (mode : AggregateMode)
    (items : List HashAggregate.Item) :
    HashedMap.fold GroupKey.ops Runtime.finish agg.createAccumulators (HashAggregate.stepAll mode)
      items [] = agg.groups mode items :=
  HashedMap.fold_eq_foldKeyed _ GroupKey.eq_iff _ _ _ _

/-- A lookup in the table of a join is one in a hash map of `RowKey`s. -/
theorem find?_rowKey (table : HashJoin.HashTable) (key : RowKey) :
    (HashedMap.find? RowKey.ops Runtime.finish table key).map Prod.snd =
      HashJoin.get? table key := by
  unfold HashedMap.find? HashJoin.get?
  have hanswers : ∀ a b, RowKey.ops.answers Runtime.finish a b = decide (a = b) :=
    HashedMap.answers_eq_decide Runtime.finish RowKey.eq_iff
  simp only [hanswers]

/-- The build side of a join finds, under any key, the rows whose key is equal to it. -/
theorem find?_insertBatches {join : HashJoin} {batches : List RecordBatch}
    {table : HashJoin.HashTable} (h : batches.foldlM join.insertBatch [] = .ok table)
    (key : RowKey) :
    ((HashedMap.find? RowKey.ops Runtime.finish table key).map Prod.snd).getD [] =
      (rowsOf batches).filter fun r => RowKey.eq (cellsAt join.rightKeys r) key := by
  have hstream : (batches.map .ok : BatchStream).foldlM
      (fun table item => do join.insertBatch table (← item)) [] = .ok table := by
    rw [List.foldlM_map]
    exact h
  obtain ⟨rb, hrb, rfl⟩ := HashJoin.insertBatches_ok hstream
  obtain rfl := Outcome.map_ok_injective hrb
  have hmatching : ((rowsOf batches).filter fun r => RowKey.eq (cellsAt join.rightKeys r) key) =
      Joins.matching (cellsAt join.rightKeys) (rowsOf batches) key := by
    refine List.filter_congr fun r _ => ?_
    rw [Bool.eq_iff_iff, RowKey.eq_iff, decide_eq_true_iff]
  rw [find?_rowKey, HashJoin.get?_tableOf, hmatching]
  split
  · rfl
  · rename_i hkey
    rw [← HashJoin.matching_isEmpty_iff, List.isEmpty_iff] at hkey
    rw [hkey]
    rfl

/-- Rows of equal keys are sent to the same partition. -/
theorem computeTargets_eq {keyColumns : List ColumnVector} {rowCount partitionCount : ℕ}
    {targets : List ℕ}
    (h : ShuffleWriter.computeTargets keyColumns rowCount partitionCount = .ok targets) {i j : ℕ}
    (hi : i < rowCount) (hj : j < rowCount) {a b : RowKey}
    (ha : keyColumns.mapM (fun c => c.value i) = .ok a)
    (hb : keyColumns.mapM (fun c => c.value j) = .ok b) (hab : RowKey.eq a b = true) :
    targets[i]? = targets[j]? := by
  obtain ⟨t, hti, ht⟩ := Outcome.mapM_getElem? h (List.getElem?_range hi)
  obtain ⟨u, huj, hu⟩ := Outcome.mapM_getElem? h (List.getElem?_range hj)
  rw [ha, Outcome.ok_bind] at ht
  rw [hb, Outcome.ok_bind, ← RowKey.eq_iff.mp hab, ht] at hu
  rw [hti, huj, Except.ok.inj hu]

/-- The keys of rows are lawful, the two copies of them agree, and one key means the same rows
everywhere: the rows of one group of an aggregation are those with equal `RowKey`s, the table of a
join finds the rows with equal `RowKey`s, and a shuffle hashes two rows alike exactly when their
`RowKey`s are equal and then sends both to one partition. -/
theorem hashKeys_agree :
    RowKey.ops.Lawful ∧
    (∀ a b, GroupKey.eq a b = RowKey.eq a b ∧ GroupKey.hash a = RowKey.hash a) ∧
    (∀ (agg : HashAggregate) (mode : AggregateMode) (batches : List RecordBatch)
      (items : List (List HashAggregate.Item)) (m : HashAggregate.GroupMap),
      batches.mapM agg.readBatch = .ok items → batches.foldlM (agg.processBatch mode) [] = .ok m →
      HashedMap.fold GroupKey.ops Runtime.finish agg.createAccumulators
        (HashAggregate.stepAll mode) items.flatten [] = .ok m ∧
      ∀ x ∈ items.flatten, ∀ y ∈ items.flatten,
        HashedMap.find? GroupKey.ops Runtime.finish m x.1 =
          HashedMap.find? GroupKey.ops Runtime.finish m y.1 ↔ RowKey.eq x.1 y.1 = true) ∧
    (∀ (join : HashJoin) (batches : List RecordBatch) (table : HashJoin.HashTable) (key : RowKey),
      batches.foldlM join.insertBatch [] = .ok table →
      ((HashedMap.find? RowKey.ops Runtime.finish table key).map Prod.snd).getD [] =
        (rowsOf batches).filter fun r => RowKey.eq (cellsAt join.rightKeys r) key) ∧
    (∀ a b, RowKey.hash a = RowKey.hash b ↔ RowKey.eq a b = true) ∧
    ∀ (keyColumns : List ColumnVector) (rowCount partitionCount : ℕ) (targets : List ℕ),
      ShuffleWriter.computeTargets keyColumns rowCount partitionCount = .ok targets →
      ∀ i < rowCount, ∀ j < rowCount, ∀ a b,
        keyColumns.mapM (fun c => c.value i) = .ok a →
        keyColumns.mapM (fun c => c.value j) = .ok b → RowKey.eq a b = true →
        targets[i]? = targets[j]? := by
  refine ⟨RowKey.ops_lawful, fun a b => ⟨GroupKey.eq_eq_rowKey a b, GroupKey.hash_eq_rowKey a⟩,
    fun agg mode batches items m hitems hm => ?_,
    fun join batches table key h => find?_insertBatches h key, fun a b => RowKey.hash_eq_iff,
    fun keyColumns rowCount partitionCount targets h i hi j hj a b ha hb hab =>
      computeTargets_eq h hi hj ha hb hab⟩
  obtain ⟨items', hitems', hfold⟩ := HashAggregate.foldlM_processBatch_eq_ok_iff.mp hm
  obtain rfl : items' = items := Except.ok.inj (hitems'.symm.trans hitems)
  have hmap := (fold_groupKey agg mode items'.flatten).trans hfold
  refine ⟨hmap, fun x hx y _ => ?_⟩
  rw [HashedMap.find?_fold_eq_iff (HashedMap.KeyOps.lawful_of_eq_iff GroupKey.eq_iff) hmap hx]
  exact Bool.eq_iff_iff.mp (GroupKey.eq_eq_rowKey x.1 y.1)

end

end RQuery
