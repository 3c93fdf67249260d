import RQuery.Semantics.HashJoinRows

/-!
# Hash joins against nested loops

The output of `HashJoinExec`, row for row, is that of two nested loops that compare the keys of
every left row with those of every right row by `RowKey::eq` (`hashJoin_eq_nestedLoop`). A `RowKey`
compares nulls as equal, which `EqExpression` does not: the join agrees with a filter on the cross
product exactly where no two rows share a key with a null (`hashJoin_sqlEquality_iff`).
-/

namespace RQuery

section

variable [FloatModel]

/-! ## Row keys -/

/-- `scalar_eq`: floats by bit pattern, everything else by the derived equality. -/
def scalarEq : ScalarValue → ScalarValue → Bool
  | .float32 x, .float32 y => FloatModel.single.toBits x == FloatModel.single.toBits y
  | .float64 x, .float64 y => FloatModel.double.toBits x == FloatModel.double.toBits y
  | a, b => a = b

/-- Keys are equal exactly if they are the same value. -/
theorem scalarEq_iff {a b : ScalarValue} : scalarEq a b = true ↔ a = b := by
  unfold scalarEq
  split
  · simpa using FloatModel.single.toBits_injective.eq_iff
  · simpa using FloatModel.double.toBits_injective.eq_iff
  · simp

/-- `RowKey::eq`. -/
def RowKey.eq (a b : RowKey) : Bool :=
  a.length = b.length && (a.zip b).all fun x => scalarEq x.1 x.2

/-- `RowKey::hash`: what is written to the hasher. -/
def RowKey.hash (key : RowKey) : List HashWrite := key.flatMap ScalarValue.hashWrites

/-- Keys are equal when they are the same values, so that equal keys have equal hashes. -/
theorem RowKey.eq_iff {a b : RowKey} : RowKey.eq a b = true ↔ a = b := by
  induction a generalizing b with
  | nil => cases b <;> simp [RowKey.eq]
  | cons v a ih =>
    cases b with
    | nil => simp [RowKey.eq]
    | cons w b =>
      rw [List.cons.injEq, ← ih]
      simp only [RowKey.eq, List.length_cons, Nat.add_right_cancel_iff, List.zip_cons_cons,
        List.all_cons, Bool.and_eq_true, decide_eq_true_eq, scalarEq_iff]
      tauto

namespace HashJoin

/-- The cells of the right columns that are kept. -/
def keptColumns {α : Type} (join : HashJoin) (cells : List α) : List α :=
  (cells.zipIdx.filter fun x => x.2 ∉ join.rightColumnsToExclude).map Prod.fst

/-- The join is one of inputs with these schemas: the keys are columns, the output columns are the
left ones followed by the right ones that are kept, and all types can be read. -/
structure FitsInputs (join : HashJoin) (ls rs : Schema) : Prop where
  leftKeys_lt : ∀ k ∈ join.leftKeys, k < ls.fields.length
  rightKeys_lt : ∀ k ∈ join.rightKeys, k < rs.fields.length
  left_hasBuilder : ∀ t ∈ ls.types, t.hasBuilder
  right_hasBuilder : ∀ t ∈ rs.types, t.hasBuilder
  schema_types : join.schema.types = ls.types ++ join.keptColumns rs.types
  fields_ne : join.schema.fields ≠ []

variable {join : HashJoin} {ls rs : Schema}

/-- A pair is the left row with the columns kept of the right one. -/
theorem combineRows_eq (l r : Row) : join.combineRows l r = l ++ join.keptColumns r := rfl

omit [FloatModel] in
/-- Dropping the same columns of two lists keeps what holds of their elements. -/
theorem forall₂_keptColumns {α β : Type} {R : α → β → Prop} {xs : List α} {ys : List β}
    (h : List.Forall₂ R xs ys) : List.Forall₂ R (join.keptColumns xs) (join.keptColumns ys) := by
  have hall : ∀ k, List.Forall₂ R
      (((xs.zipIdx k).filter fun x => x.2 ∉ join.rightColumnsToExclude).map Prod.fst)
      (((ys.zipIdx k).filter fun y => y.2 ∉ join.rightColumnsToExclude).map Prod.fst) := by
    induction h with
    | nil => exact fun _ => .nil
    | @cons x y xs ys hxy _ ih =>
      intro k
      rw [List.zipIdx_cons, List.zipIdx_cons, List.filter_cons, List.filter_cons]
      split
      · exact .cons hxy (ih (k + 1))
      · exact ih (k + 1)
  exact hall 0

/-- A pair of rows that fit the sides fits the schema of the join. -/
theorem FitsInputs.combineRows_fits (h : join.FitsInputs ls rs) {l r : Row}
    (hl : RowFits ls.types l) (hr : RowFits rs.types r) :
    RowFits join.schema.types (join.combineRows l r) := by
  rw [h.schema_types, combineRows_eq]
  exact List.rel_append hl (forall₂_keptColumns hr)

/-- Nulls fit every schema. -/
theorem replicate_null_fits (s : Schema) :
    RowFits s.types (List.replicate s.fields.length .null) :=
  List.forall₂_iff_get.mpr ⟨by simp [Schema.types], fun i hi hi' _ => by simp [ScalarValue.FitsIn]⟩

variable [Runtime]

/-- Every output row fits the schema of the join. -/
theorem FitsInputs.outputRows_builds (h : join.FitsInputs ls rs) {lrows rrows : List Row}
    (hl : ∀ l ∈ lrows, RowFits ls.types l) (hr : ∀ r ∈ rrows, RowFits rs.types r) :
    Builds join.schema
      (join.outputRows ls.fields.length rs.fields.length lrows rrows) := by
  refine ⟨h.fields_ne, ?_, fun o ho => ?_⟩
  · rw [h.schema_types]
    refine List.forall_mem_append.mpr ⟨h.left_hasBuilder, fun t ht => ?_⟩
    obtain ⟨x, hx, rfl⟩ := List.mem_map.mp ht
    exact h.right_hasBuilder _ (List.fst_mem_of_mem_zipIdx (List.mem_of_mem_filter hx))
  · have ho := (join.outputRows_perm_joins _ _ lrows rrows).mem_iff.mp ho
    have hpair : ∀ l ∈ lrows, ∀ r ∈ rrows, RowFits join.schema.types (join.combineRows l r) :=
      fun l hl' r hr' => h.combineRows_fits (hl l hl') (hr r hr')
    split at ho
    · exact Joins.forall_mem_inner hpair o ho
    · exact Joins.forall_mem_left hpair
        (fun l hl' => h.combineRows_fits (hl l hl') (replicate_null_fits rs)) o ho
    · exact Joins.forall_mem_right hpair
        (fun r hr' => h.combineRows_fits (replicate_null_fits ls) (hr r hr')) o ho

variable [Readers]

/-- A join returns batches of its schema, whose rows are those that it makes of the rows of its
inputs. Only a right join asks the left input for its schema. -/
theorem FitsInputs.execute_eq_ok (h : join.FitsInputs ls rs) {ctx : ExecutorContext}
    {left right : PhysicalPlan} {lb rb : List RecordBatch}
    (hleft : left.execute ctx = .ok (lb.map .ok)) (hlb : ∀ b ∈ lb, b.schema = ls)
    (hright : right.execute ctx = .ok (rb.map .ok)) (hrb : ∀ b ∈ rb, b.schema = rs)
    (hleftSchema : join.joinType = .right → left.schema = .ok ls)
    (hrightSchema : right.schema = .ok rs) :
    ∃ out : List RecordBatch,
      (PhysicalPlan.hashJoin left right join).execute ctx = .ok (out.map .ok) ∧
      (∀ b ∈ out, b.schema = join.schema) ∧
      rowsOf out = join.outputRows ls.fields.length rs.fields.length (rowsOf lb) (rowsOf rb) := by
  -- Only a right join reads the left input's schema, for the nulls of an unmatched row.
  have hcount : ∀ lrows rrows : List Row,
      join.outputRows (left.schema.toOption.getD ⟨[]⟩).fields.length rs.fields.length lrows rrows =
        join.outputRows ls.fields.length rs.fields.length lrows rrows := by
    intro lrows rrows
    by_cases htype : join.joinType = .right
    · rw [hleftSchema htype]
      rfl
    · rw [outputRows, outputRows, if_neg htype, if_neg htype]
  have hfits : ∀ (s : Schema) (batches : List RecordBatch), (∀ b ∈ batches, b.schema = s) →
      ∀ r ∈ rowsOf batches, RowFits s.types r := by
    intro s batches hs r hr
    obtain ⟨b, hb, hr⟩ := List.mem_flatMap.mp hr
    exact hs b hb ▸ b.rows_fit r hr
  -- Every output row fits the join's schema, so building the batches cannot panic.
  have hbuild := h.outputRows_builds (hfits ls lb hlb) (hfits rs rb hrb)
  rw [← hcount] at hbuild
  obtain ⟨out, hout⟩ := run_succeeds (fun b hb => ⟨hlb b hb, h.left_hasBuilder⟩)
    (fun b hb => ⟨hrb b hb, h.right_hasBuilder⟩) h.leftKeys_lt h.rightKeys_lt
    (fun htype => ⟨ls, hleftSchema htype⟩) hrightSchema hbuild
  obtain ⟨lb', rb', out', rs', hlb', hrb', hout', hrs', hschema, hrows⟩ := run_ok hout
  obtain rfl := Outcome.map_ok_injective hlb'
  obtain rfl := Outcome.map_ok_injective hrb'
  obtain rfl := Outcome.map_ok_injective hout'
  obtain rfl : rs = rs' := Except.ok.inj (hrightSchema.symm.trans hrs')
  refine ⟨out, ?_, hschema, ?_⟩
  · rw [PhysicalPlan.execute, hleft, hright, Outcome.ok_bind, Outcome.ok_bind, hout]
  · -- A batch counts its rows by its columns, but no output row is without cells.
    rw [hrows, ← hcount, List.filter_eq_self]
    intro r hr
    have hlen := (hbuild.fits r hr).length_eq
    rw [Schema.types, List.length_map] at hlen
    cases r with
    | nil => exact absurd (List.length_eq_zero_iff.mp hlen) h.fields_ne
    | cons v r => rfl

/-! ## Nested loops -/

omit [Runtime] [Readers] in
/-- Every left row is combined, in order, with every right row of the same `RowKey`; a left join keeps
a left row without such a right row, followed by nulls. -/
def nestedLoop (join : HashJoin) (lrows rrows : List Row) : List Row :=
  lrows.flatMap fun l =>
    let rows := rrows.filter fun r =>
      RowKey.eq (cellsAt join.leftKeys l) (cellsAt join.rightKeys r)
    if join.joinType = .left && rows.isEmpty then
      [l ++ List.replicate (join.schema.fields.length - l.length) .null]
    else rows.map (join.combineRows l)

omit [Runtime] [Readers] in
/-- A padded left row ends in nulls. -/
theorem FitsInputs.combineRows_null (h : join.FitsInputs ls rs) {l : Row}
    (hl : l.length = ls.fields.length) :
    join.combineRows l (List.replicate rs.fields.length .null) =
      l ++ List.replicate (join.schema.fields.length - l.length) .null := by
  have hkept : (join.keptColumns (List.replicate rs.fields.length ScalarValue.null)).length =
      (join.keptColumns rs.types).length :=
    (forall₂_keptColumns (R := fun _ _ => True) (List.forall₂_iff_get.mpr
      ⟨by simp [Schema.types], fun _ _ _ => trivial⟩)).length_eq
  have hlen : join.schema.fields.length = ls.fields.length + (join.keptColumns rs.types).length := by
    have := congrArg List.length h.schema_types
    simpa [Schema.types] using this
  rw [combineRows_eq, List.append_cancel_left_eq, List.eq_replicate_iff]
  refine ⟨by omega, fun v hv => ?_⟩
  obtain ⟨x, hx, rfl⟩ := List.mem_map.mp hv
  exact List.eq_of_mem_replicate (List.fst_mem_of_mem_zipIdx (List.mem_of_mem_filter hx))

omit [Readers] in
/-- The rows of an inner or left join are those of the nested loops. -/
theorem FitsInputs.outputRows_eq_nestedLoop (h : join.FitsInputs ls rs)
    (htype : join.joinType ≠ .right) {lrows rrows : List Row}
    (hl : ∀ l ∈ lrows, l.length = ls.fields.length) :
    join.outputRows ls.fields.length rs.fields.length lrows rrows =
      join.nestedLoop lrows rrows := by
  have hmatching : ∀ l : Row, (rrows.filter fun r =>
      RowKey.eq (cellsAt join.leftKeys l) (cellsAt join.rightKeys r)) =
        Joins.matching (cellsAt join.rightKeys) rrows (cellsAt join.leftKeys l) := fun l =>
    List.filter_congr fun r _ => by
      rw [Bool.eq_iff_iff, RowKey.eq_iff, decide_eq_true_iff, eq_comm]
  rw [outputRows, if_neg htype, List.append_nil, nestedLoop]
  simp only [hmatching]
  by_cases hleft : join.joinType = .left
  · rw [probeRows_left hleft, Joins.left]
    refine List.flatMap_congr fun l hl' => ?_
    rw [h.combineRows_null (hl l hl')]
    simp only [hleft, decide_true, Bool.true_and]
  · rw [probeRows_inner hleft, Joins.inner]
    simp only [hleft, decide_false, Bool.false_and, Bool.false_eq_true, if_false]

end HashJoin

/-- A hash join of type Inner or Left returns, as a list, the rows of the nested loops over the rows
of its inputs, however these are split into batches. -/
theorem hashJoin_eq_nestedLoop [Runtime] [Readers] {ctx : ExecutorContext}
    {left right : PhysicalPlan} {join : HashJoin} {ls rs : Schema} {lb rb : List RecordBatch}
    (htype : join.joinType ≠ .right) (hfits : join.FitsInputs ls rs)
    (hleft : left.execute ctx = .ok (lb.map .ok)) (hlb : ∀ b ∈ lb, b.schema = ls)
    (hright : right.execute ctx = .ok (rb.map .ok)) (hrb : ∀ b ∈ rb, b.schema = rs)
    (hrightSchema : right.schema = .ok rs) :
    ∃ out : List RecordBatch,
      (PhysicalPlan.hashJoin left right join).execute ctx = .ok (out.map .ok) ∧
      (∀ b ∈ out, b.schema = join.schema) ∧
      rowsOf out = join.nestedLoop (rowsOf lb) (rowsOf rb) := by
  obtain ⟨out, hout, hschema, hrows⟩ := hfits.execute_eq_ok hleft hlb hright hrb
    (fun h => absurd h htype) hrightSchema
  refine ⟨out, hout, hschema, hrows.trans (hfits.outputRows_eq_nestedLoop htype fun l hl => ?_)⟩
  obtain ⟨b, hb, hl⟩ := List.mem_flatMap.mp hl
  have hlen := (b.rows_fit l hl).length_eq
  rwa [hlb b hb, Schema.types, List.length_map, eq_comm] at hlen

/-! ## Keys compared as a filter does -/

/-- The signed integers, strings and dates. -/
def DataType.IsKeyType : DataType → Bool
  | .int8 | .int16 | .int32 | .int64 | .utf8 | .date32 => true
  | _ => false

/-- A comparison with null is unknown. -/
theorem compareValue_null {t : DataType} (ht : t.IsKeyType) {v : ScalarValue} (hv : v.FitsIn t) :
    ScalarValue.compareValue (.compare .eq) .null v t = .ok none ∧
      ScalarValue.compareValue (.compare .eq) v .null t = .ok none := by
  obtain rfl | rfl := hv
  · cases t <;> first | exact ⟨rfl, rfl⟩ | cases ht
  · cases v <;> first | exact ⟨rfl, rfl⟩ | cases ht

/-- Values of one type that are not null are compared by equality. -/
theorem compareValue_typed {v w : ScalarValue} (hv : v.dataType.IsKeyType)
    (hw : w.dataType = v.dataType) (hvnull : v ≠ .null) (hwnull : w ≠ .null) :
    ScalarValue.compareValue (.compare .eq) v w v.dataType = .ok (some (v = w)) := by
  have hcompare : ∀ {α : Type} [Ord α] [Std.LawfulEqOrd α] [DecidableEq α] (a b : α),
      CompareOp.eq.test (some (compare a b)) = decide (a = b) := by
    intro α _ _ _ a b
    rw [Bool.eq_iff_iff, decide_eq_true_iff, ← Std.LawfulEqOrd.compare_eq_iff_eq]
    simp [CompareOp.test]
  cases v
  case int8 a | int16 a | int32 a | int64 a | utf8 a | date32 a =>
    cases w
    case int8 b | int16 b | int32 b | int64 b | utf8 b | date32 b =>
      first
        | exact congrArg (fun c => (Except.ok (some c) : Result (Option Bool)))
            ((hcompare a b).trans (by simp))
        | cases hw
    case null => exact absurd rfl hwnull
    all_goals cases hw
  case null => exact absurd rfl hvnull
  all_goals cases hv

/-- Cells of one type compare as equal exactly when they are the same value and not null. -/
theorem compareValue_eq_iff {t : DataType} (ht : t.IsKeyType) {v w : ScalarValue}
    (hv : v.FitsIn t) (hw : w.FitsIn t) :
    ScalarValue.compareValue (.compare .eq) v w t = .ok (some true) ↔ v = w ∧ v ≠ .null := by
  by_cases hvnull : v = .null
  · rw [hvnull, (compareValue_null ht hw).1]
    simp
  by_cases hwnull : w = .null
  · rw [hwnull, (compareValue_null ht hv).2]
    simp [hvnull]
  obtain rfl := hv.dataType_eq hvnull
  rw [compareValue_typed ht (hw.dataType_eq hwnull) hvnull hwnull]
  simp [hvnull]
namespace HashJoin

variable {join : HashJoin} {ls rs : Schema}

/-- The key columns have, position by position, one type that keys are compared in. -/
def ComparableKeys (join : HashJoin) (ls rs : Schema) : Prop :=
  List.Forall₂ (fun i j => ∃ t : DataType, t.IsKeyType ∧ ls.types[i]? = some t ∧
    rs.types[j]? = some t) join.leftKeys join.rightKeys

/-- `EqExpression::compare_value` gives `Some(true)` on every key pair. -/
def sqlMatches (join : HashJoin) (ls : Schema) (l r : Row) : Bool :=
  (join.leftKeys.zip join.rightKeys).all fun k =>
    match ls.types[k.1]? with
    | some t => ScalarValue.compareValue (.compare .eq) (l.getD k.1 .null) (r.getD k.2 .null) t =
        .ok (some true)
    | none => false

/-- The rows that SQL equality joins. -/
def sqlJoin (join : HashJoin) (ls rs : Schema) (lrows rrows : List Row) : List Row :=
  match join.joinType with
  | .inner => Joins.innerOn (join.sqlMatches ls) join.combineRows lrows rrows
  | .left => Joins.leftOn (join.sqlMatches ls) join.combineRows
      (fun l => join.combineRows l (List.replicate rs.fields.length .null)) lrows rrows
  | .right => Joins.rightOn (join.sqlMatches ls) join.combineRows
      (join.combineRows (List.replicate ls.fields.length .null)) lrows rrows

/-- The build phase puts the right row where the probe phase finds it for the left row. -/
def JoinsRows (join : HashJoin) (rb : List RecordBatch) (l r : Row) : Prop :=
  ∃ table, rb.foldlM join.insertBatch [] = .ok table ∧
    r ∈ (get? table (cellsAt join.leftKeys l)).getD []

/-- Rows match in SQL when their keys are the same and hold no null. -/
theorem ComparableKeys.sqlMatches_iff (h : join.ComparableKeys ls rs) {l r : Row}
    (hl : RowFits ls.types l) (hr : RowFits rs.types r) :
    join.sqlMatches ls l r = true ↔
      cellsAt join.rightKeys r = cellsAt join.leftKeys l ∧ .null ∉ cellsAt join.leftKeys l := by
  -- A cell under a key column has that column's type, or is null.
  have hcell : ∀ {types : List DataType} {row : Row} {k : ℕ} {t : DataType},
      RowFits types row → t.IsKeyType → types[k]? = some t → (row.getD k .null).FitsIn t := by
    intro types row k t hrow ht hk
    obtain ⟨hlt, rfl⟩ := List.getElem?_eq_some_iff.mp hk
    have hlt' : k < row.length := hrow.length_eq ▸ hlt
    rw [List.getD_eq_getElem _ _ hlt']
    refine hrow.get hlt hlt' ?_
    revert ht
    simp only [List.get_eq_getElem]
    cases types[k] <;> simp [DataType.IsKeyType, DataType.hasBuilder]
  unfold sqlMatches
  unfold ComparableKeys at h
  generalize join.leftKeys = is, join.rightKeys = js at h ⊢
  -- Key by key: SQL's comparison of two cells of one type holds when they are equal and not null.
  induction h with
  | nil => simp [cellsAt]
  | @cons i j is js hij _ ih =>
    obtain ⟨t, ht, hi, hj⟩ := hij
    have hcompare := compareValue_eq_iff ht (hcell hl ht hi) (hcell hr ht hj)
    rw [List.zip_cons_cons, List.all_cons, Bool.and_eq_true, propext ih, hi, decide_eq_true_iff,
      hcompare]
    simp only [cellsAt, List.map_cons, List.cons.injEq, List.mem_cons, not_or]
    constructor
    · rintro ⟨⟨heq, hnull⟩, hkeys, hnulls⟩
      exact ⟨⟨heq.symm, hkeys⟩, Ne.symm hnull, hnulls⟩
    · rintro ⟨⟨heq, hkeys⟩, hnull, hnulls⟩
      exact ⟨⟨heq.symm, Ne.symm hnull⟩, hkeys, hnulls⟩

/-- The build phase makes the table of all right rows. -/
theorem FitsInputs.insertBatches_eq_ok (h : join.FitsInputs ls rs) {rb : List RecordBatch}
    (hrb : ∀ b ∈ rb, b.schema = rs) :
    rb.foldlM join.insertBatch [] = .ok (join.tableOf (rowsOf rb)) := by
  obtain ⟨table, htable⟩ : Outcome.Succeeds (rb.foldlM join.insertBatch []) :=
    Outcome.foldlM_succeeds (fun b hb table =>
      insertBatch_succeeds ⟨hrb b hb, h.right_hasBuilder⟩ h.rightKeys_lt table) []
  have hstream : (rb.map (.ok : RecordBatch → Result RecordBatch)).foldlM
      (fun table item => do join.insertBatch table (← item)) [] = .ok table := by
    rw [List.foldlM_map]
    exact htable
  obtain ⟨rb', hrb', rfl⟩ := insertBatches_ok hstream
  rw [htable, Outcome.map_ok_injective hrb']

/-- The join joins the rows whose keys are the same. -/
theorem FitsInputs.joinsRows_iff (h : join.FitsInputs ls rs) {rb : List RecordBatch}
    (hrb : ∀ b ∈ rb, b.schema = rs) {l r : Row} (hr : r ∈ rowsOf rb) :
    join.JoinsRows rb l r ↔ cellsAt join.rightKeys r = cellsAt join.leftKeys l := by
  have hlookup : ∀ key, (get? (join.tableOf (rowsOf rb)) key).getD [] =
      Joins.matching (cellsAt join.rightKeys) (rowsOf rb) key := by
    intro key
    rw [get?_tableOf]
    by_cases hkey : key ∈ (rowsOf rb).map (cellsAt join.rightKeys)
    · rw [if_pos hkey, Option.getD_some]
    · rw [if_neg hkey, Option.getD_none, List.isEmpty_iff.mp (matching_isEmpty_iff.mpr hkey)]
  rw [JoinsRows, h.insertBatches_eq_ok hrb]
  simp only [Except.ok.injEq, exists_eq_left', hlookup, Joins.matching, List.mem_filter, hr,
    true_and, decide_eq_true_eq]

variable [Runtime]

/-- Where no two rows share a key with a null, the rows are those that SQL equality joins. -/
theorem outputRows_perm_sqlJoin {lrows rrows : List Row}
    (hmatches : ∀ l ∈ lrows, ∀ r ∈ rrows,
      join.sqlMatches ls l r = decide (cellsAt join.rightKeys r = cellsAt join.leftKeys l)) :
    (join.outputRows ls.fields.length rs.fields.length lrows rrows).Perm
      (join.sqlJoin ls rs lrows rrows) := by
  refine (join.outputRows_perm_joins _ _ lrows rrows).trans ?_
  unfold sqlJoin
  cases join.joinType with
  | inner => rw [Joins.innerOn_congr hmatches, Joins.inner_eq_innerOn]
  | left => rw [Joins.leftOn_congr hmatches, Joins.left_eq_leftOn]
  | right =>
    rw [Joins.rightOn_congr hmatches]
    exact Joins.right_perm_rightOn

end HashJoin

/-- A hash join joins the pairs of rows whose keys `EqExpression` compares as true, and returns the
rows of that join, exactly when no left and right row have a key with a null in common. -/
theorem hashJoin_sqlEquality_iff [Runtime] [Readers] {ctx : ExecutorContext}
    {left right : PhysicalPlan} {join : HashJoin} {ls rs : Schema} {lb rb : List RecordBatch}
    (hfits : join.FitsInputs ls rs) (hkeys : join.ComparableKeys ls rs)
    (hleft : left.execute ctx = .ok (lb.map .ok)) (hlb : ∀ b ∈ lb, b.schema = ls)
    (hright : right.execute ctx = .ok (rb.map .ok)) (hrb : ∀ b ∈ rb, b.schema = rs)
    (hleftSchema : join.joinType = .right → left.schema = .ok ls)
    (hrightSchema : right.schema = .ok rs) :
    ((∀ l ∈ rowsOf lb, ∀ r ∈ rowsOf rb,
        (join.JoinsRows rb l r ↔ join.sqlMatches ls l r = true)) ∧
      ∃ out : List RecordBatch,
        (PhysicalPlan.hashJoin left right join).execute ctx = .ok (out.map .ok) ∧
        (rowsOf out).Perm (join.sqlJoin ls rs (rowsOf lb) (rowsOf rb))) ↔
      ∀ l ∈ rowsOf lb, ∀ r ∈ rowsOf rb,
        RowKey.eq (cellsAt join.leftKeys l) (cellsAt join.rightKeys r) = true →
          .null ∉ cellsAt join.leftKeys l := by
  have hrowfits : ∀ (s : Schema) (batches : List RecordBatch), (∀ b ∈ batches, b.schema = s) →
      ∀ r ∈ rowsOf batches, RowFits s.types r := by
    intro s batches hs r hr
    obtain ⟨b, hb, hr⟩ := List.mem_flatMap.mp hr
    exact hs b hb ▸ b.rows_fit r hr
  have hmatches : ∀ l ∈ rowsOf lb, ∀ r ∈ rowsOf rb, (join.sqlMatches ls l r = true ↔
      cellsAt join.rightKeys r = cellsAt join.leftKeys l ∧ .null ∉ cellsAt join.leftKeys l) :=
    fun l hl r hr => hkeys.sqlMatches_iff (hrowfits ls lb hlb l hl) (hrowfits rs rb hrb r hr)
  -- A null key that meets a null key is a pair the join makes and SQL does not.
  constructor
  · rintro ⟨hjoins, -⟩ l hl r hr heq
    have hkey := (RowKey.eq_iff.mp heq).symm
    exact ((hmatches l hl r hr).mp ((hjoins l hl r hr).mp
      ((hfits.joinsRows_iff hrb hr).mpr hkey))).2
  -- Without such a pair the two conditions agree on every pair of rows, and so do the joins.
  · intro hnull
    have hsame : ∀ l ∈ rowsOf lb, ∀ r ∈ rowsOf rb, (join.sqlMatches ls l r = true ↔
        cellsAt join.rightKeys r = cellsAt join.leftKeys l) := fun l hl r hr => by
      rw [hmatches l hl r hr, and_iff_left_of_imp]
      exact fun heq => hnull l hl r hr (RowKey.eq_iff.mpr heq.symm)
    obtain ⟨out, hout, -, hrows⟩ := hfits.execute_eq_ok hleft hlb hright hrb
      hleftSchema hrightSchema
    refine ⟨fun l hl r hr => ?_, out, hout, ?_⟩
    · rw [hfits.joinsRows_iff hrb hr, hsame l hl r hr]
    · rw [hrows]
      refine HashJoin.outputRows_perm_sqlJoin fun l hl r hr => ?_
      rw [Bool.eq_iff_iff, hsame l hl r hr, decide_eq_true_iff]

end

section JoinedRows

attribute [local instance] integerFloats insertionOrderRuntime

local instance noJoinedFiles : Readers := parquetDisk fun _ => none

/-- The column has its cells. -/
theorem nullableColumn_length (cells : List ScalarValue) (h : ∀ v ∈ cells, v.FitsIn .int32) :
    ∀ c ∈ [(⟨.int32, cells, ArrayRef.fits_of_forall h⟩ : ArrayRef)], c.cells.length = cells.length := by
  simp

/-- A nullable column `k`. -/
def nullableKeys (cells : List ScalarValue) (h : ∀ v ∈ cells, v.FitsIn .int32) : RecordBatch where
  schema := ⟨[⟨"k", .int32⟩]⟩
  columns := [⟨.int32, cells, ArrayRef.fits_of_forall h⟩]
  numRows := cells.length
  types_eq := rfl
  lengths := nullableColumn_length cells h

def someKeys : RecordBatch := nullableKeys [.int32 1, .null] (by decide)

def otherKeys : RecordBatch := nullableKeys [.int32 1, .int32 2, .int32 1] (by decide)

/-- The join of two columns `k`. -/
def keyJoin (joinType : JoinType) : HashJoin :=
  ⟨joinType, [0], [0], ⟨[⟨"k", .int32⟩, ⟨"k", .int32⟩]⟩, []⟩

/-- The join fits its sides. -/
theorem keyJoin_fitsInputs (joinType : JoinType) :
    (keyJoin joinType).FitsInputs someKeys.schema otherKeys.schema where
  leftKeys_lt := by simp [keyJoin, someKeys, nullableKeys]
  rightKeys_lt := by simp [keyJoin, otherKeys, nullableKeys]
  left_hasBuilder := by decide
  right_hasBuilder := by decide
  schema_types := rfl
  fields_ne := by simp [keyJoin]

/-- The left join of `1, null` with `1, 2, 1`. -/
theorem hashJoin_eq_nestedLoop_keys :
    ∃ out : List RecordBatch, (PhysicalPlan.hashJoin (.inMemory someKeys.schema [someKeys])
        (.inMemory otherKeys.schema [otherKeys]) (keyJoin .left)).execute ⟨"", "", 0, ⟨[]⟩⟩ =
        .ok (out.map .ok) ∧
      (∀ b ∈ out, b.schema = (keyJoin .left).schema) ∧
      rowsOf out = [[.int32 1, .int32 1], [.int32 1, .int32 1], [.null, .null]] := by
  have hleft : (PhysicalPlan.inMemory someKeys.schema [someKeys]).execute ⟨"", "", 0, ⟨[]⟩⟩ =
      .ok ([someKeys].map .ok) := rfl
  have hright : (PhysicalPlan.inMemory otherKeys.schema [otherKeys]).execute ⟨"", "", 0, ⟨[]⟩⟩ =
      .ok ([otherKeys].map .ok) := rfl
  exact hashJoin_eq_nestedLoop (by decide) (keyJoin_fitsInputs .left) hleft (by decide) hright
    (by decide) rfl

/-- A row with a null key is joined with a row with a null key. -/
theorem hashJoin_joins_nulls :
    ¬ ((∀ l ∈ rowsOf [someKeys], ∀ r ∈ rowsOf [someKeys],
        ((keyJoin .inner).JoinsRows [someKeys] l r ↔
          (keyJoin .inner).sqlMatches someKeys.schema l r = true)) ∧
      ∃ out : List RecordBatch,
        (PhysicalPlan.hashJoin (.inMemory someKeys.schema [someKeys])
          (.inMemory someKeys.schema [someKeys]) (keyJoin .inner)).execute ⟨"", "", 0, ⟨[]⟩⟩ =
            .ok (out.map .ok) ∧
        (rowsOf out).Perm ((keyJoin .inner).sqlJoin someKeys.schema someKeys.schema
          (rowsOf [someKeys]) (rowsOf [someKeys]))) ∧
      (PhysicalPlan.hashJoin (.inMemory someKeys.schema [someKeys])
        (.inMemory someKeys.schema [someKeys]) (keyJoin .inner)).rows ⟨"", "", 0, ⟨[]⟩⟩ =
          .ok [[.int32 1, .int32 1], [.null, .null]] := by
  refine ⟨fun ⟨hjoins, _⟩ => ?_, by decide⟩
  have hmatches := (hjoins [.null] (by decide) [.null] (by decide)).mp
    ⟨[([.int32 1], [[.int32 1]]), ([.null], [[.null]])], by decide, by decide⟩
  exact absurd hmatches (by decide)

/-- The condition where one side has a null key: it matches nothing and is padded. -/
theorem hashJoin_sqlEquality_iff_keys :
    ∃ out : List RecordBatch, (PhysicalPlan.hashJoin (.inMemory someKeys.schema [someKeys])
        (.inMemory otherKeys.schema [otherKeys]) (keyJoin .left)).execute ⟨"", "", 0, ⟨[]⟩⟩ =
        .ok (out.map .ok) ∧
      (rowsOf out).Perm [[.int32 1, .int32 1], [.int32 1, .int32 1], [.null, .null]] := by
  have hkeys : (keyJoin .left).ComparableKeys someKeys.schema otherKeys.schema :=
    .cons ⟨.int32, rfl, rfl, rfl⟩ .nil
  have hleft : (PhysicalPlan.inMemory someKeys.schema [someKeys]).execute ⟨"", "", 0, ⟨[]⟩⟩ =
      .ok ([someKeys].map .ok) := rfl
  have hright : (PhysicalPlan.inMemory otherKeys.schema [otherKeys]).execute ⟨"", "", 0, ⟨[]⟩⟩ =
      .ok ([otherKeys].map .ok) := rfl
  exact ((hashJoin_sqlEquality_iff (keyJoin_fitsInputs .left) hkeys hleft (by decide) hright
    (by decide) (fun _ => rfl) rfl).mpr (by decide)).2

end JoinedRows

end RQuery
