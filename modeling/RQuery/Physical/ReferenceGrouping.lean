import RQuery.Physical.MinMaxOrder
import RQuery.Physical.TwoStage
import RQuery.Physical.Plan

/-!
# Hash aggregation against grouping by value

What MIN, MAX, SUM and COUNT are of a group's values, without accumulators: the least or greatest of
the non-null values, their sum modulo the width of their type, and their number. A hash aggregation
in complete mode outputs one row for every distinct tuple of group values, with these aggregates of
the rows of the group (`hashAggregate_eq_reference`).
-/

namespace RQuery

section

variable [FloatModel]

/-! ## The aggregates of values -/

/-- The types that SUM adds up exactly. -/
def DataType.isInteger : DataType → Bool
  | int8 | int16 | int32 | int64 | uint8 | uint16 | uint32 | uint64 => true
  | _ => false

/-- The integer of a type that is `n` modulo the width of the type. -/
def ScalarValue.ofInteger : DataType → ℤ → ScalarValue
  | .int8, n => int8 (Int8.ofInt n)
  | .int16, n => int16 (Int16.ofInt n)
  | .int32, n => int32 (Int32.ofInt n)
  | .int64, n => int64 (Int64.ofInt n)
  | .uint8, n => uint8 (UInt8.ofInt n)
  | .uint16, n => uint16 (UInt16.ofInt n)
  | .uint32, n => uint32 (UInt32.ofInt n)
  | .uint64, n => uint64 (UInt64.ofInt n)
  | _, _ => null

/-- The sum of the non-null values modulo the width of their type; null of nulls. -/
def IsSum (t : DataType) (vs : List ScalarValue) (r : ScalarValue) : Prop :=
  if vs.filterMap ScalarValue.integer? = [] then r = .null
  else r = .ofInteger t (vs.filterMap ScalarValue.integer?).sum

/-- The number of non-null values. -/
def IsCount (vs : List ScalarValue) (r : ScalarValue) : Prop :=
  ∃ n : Int32, r = .int32 n ∧ n.toInt = vs.countP (!·.isNull)

namespace AggregateFunction

/-- The types that a function takes without rounding. -/
def Supports (f : AggregateFunction) (t : DataType) : Prop :=
  match f with
  | sum => t.isInteger
  | min | max => t.isOrdered ∧ t.isFloat = false
  | count => True
  | avg => False

/-- The type of the outcome. -/
def resultType (f : AggregateFunction) (t : DataType) : DataType :=
  match f with
  | count => .int32
  | _ => t

/-- `r` is the aggregate of values of type `t`. -/
def IsAggregate (f : AggregateFunction) (t : DataType) (vs : List ScalarValue) (r : ScalarValue) :
    Prop :=
  match f with
  | sum => IsSum t vs r
  | min => Accumulator.IsBest .lt vs r
  | max => Accumulator.IsBest .gt vs r
  | count => IsCount vs r
  | avg => False

end AggregateFunction

/-! ## Sums -/

namespace ScalarValue

variable {t : DataType}

/-- An integer of a type is of the type. -/
theorem dataType_ofInteger (ht : t.isInteger) (n : ℤ) : (ofInteger t n).dataType = t := by
  cases t <;> first | rfl | cases ht

/-- An integer is not null. -/
theorem ofInteger_ne_null (ht : t.isInteger) (n : ℤ) : ofInteger t n ≠ null := by
  intro h
  have htype := dataType_ofInteger ht n
  rw [h] at htype
  subst htype
  cases ht

/-- Integers of a type are added as integers. -/
theorem scalarAdd_ofInteger (ht : t.isInteger) (m n : ℤ) :
    scalarAdd (ofInteger t m) (ofInteger t n) = .ok (ofInteger t (m + n)) := by
  cases t with
  | int8 => rw [ofInteger, ofInteger, scalarAdd, ofInteger, Int8.ofInt_add]
  | int16 => rw [ofInteger, ofInteger, scalarAdd, ofInteger, Int16.ofInt_add]
  | int32 => rw [ofInteger, ofInteger, scalarAdd, ofInteger, Int32.ofInt_add]
  | int64 => rw [ofInteger, ofInteger, scalarAdd, ofInteger, Int64.ofInt_add]
  | uint8 => rw [ofInteger, ofInteger, scalarAdd, ofInteger, UInt8.ofInt_add]
  | uint16 => rw [ofInteger, ofInteger, scalarAdd, ofInteger, UInt16.ofInt_add]
  | uint32 => rw [ofInteger, ofInteger, scalarAdd, ofInteger, UInt32.ofInt_add]
  | uint64 => rw [ofInteger, ofInteger, scalarAdd, ofInteger, UInt64.ofInt_add]
  | _ => cases ht

omit [FloatModel] in
/-- An unsigned number is that of its value, in 8 bits, -/
theorem uint8_ofInt_toNat (n : UInt8) : UInt8.ofInt n.toNat = n := by
  have hn : ((n.toNat : ℤ) % 2 ^ 8).toNat = n.toNat := by
    have := n.toNat_lt
    omega
  rw [UInt8.ofInt, hn, UInt8.ofNat_toNat]

omit [FloatModel] in
/-- in 16 bits, -/
theorem uint16_ofInt_toNat (n : UInt16) : UInt16.ofInt n.toNat = n := by
  have hn : ((n.toNat : ℤ) % 2 ^ 16).toNat = n.toNat := by
    have := n.toNat_lt
    omega
  rw [UInt16.ofInt, hn, UInt16.ofNat_toNat]

omit [FloatModel] in
/-- in 32 bits, -/
theorem uint32_ofInt_toNat (n : UInt32) : UInt32.ofInt n.toNat = n := by
  have hn : ((n.toNat : ℤ) % 2 ^ 32).toNat = n.toNat := by
    have := n.toNat_lt
    omega
  rw [UInt32.ofInt, hn, UInt32.ofNat_toNat]

omit [FloatModel] in
/-- and in 64 bits. -/
theorem uint64_ofInt_toNat (n : UInt64) : UInt64.ofInt n.toNat = n := by
  have hn : ((n.toNat : ℤ) % 2 ^ 64).toNat = n.toNat := by
    have := n.toNat_lt
    omega
  rw [UInt64.ofInt, hn, UInt64.ofNat_toNat]

/-- A cell of an integer type is an integer. -/
theorem exists_integer (ht : t.isInteger) {v : ScalarValue} (hv : v.dataType = t) :
    ∃ n, v.integer? = some n ∧ v = ofInteger t n := by
  subst hv
  cases v with
  | int8 n => exact ⟨n.toInt, rfl, by rw [dataType, ofInteger, Int8.ofInt_toInt]⟩
  | int16 n => exact ⟨n.toInt, rfl, by rw [dataType, ofInteger, Int16.ofInt_toInt]⟩
  | int32 n => exact ⟨n.toInt, rfl, by rw [dataType, ofInteger, Int32.ofInt_toInt]⟩
  | int64 n => exact ⟨n.toInt, rfl, by rw [dataType, ofInteger, Int64.ofInt_toInt]⟩
  | uint8 n => exact ⟨n.toNat, rfl, by rw [dataType, ofInteger, uint8_ofInt_toNat]⟩
  | uint16 n => exact ⟨n.toNat, rfl, by rw [dataType, ofInteger, uint16_ofInt_toNat]⟩
  | uint32 n => exact ⟨n.toNat, rfl, by rw [dataType, ofInteger, uint32_ofInt_toNat]⟩
  | uint64 n => exact ⟨n.toNat, rfl, by rw [dataType, ofInteger, uint64_ofInt_toNat]⟩
  | _ => cases ht

end ScalarValue

variable [Runtime] {t : DataType}

open Accumulator

/-- One more value. -/
theorem accumulate_isSum (ht : t.isInteger) {vs : List ScalarValue} {r v : ScalarValue}
    (hv : v.FitsIn t) (h : IsSum t vs r) :
    ∃ r', (Accumulator.sum r).accumulate v = .ok (.sum r') ∧ IsSum t (vs ++ [v]) r' := by
  rw [sum_accumulate_eq]
  unfold IsSum at h ⊢
  rw [List.filterMap_append]
  -- A null changes nothing; the first value is taken as it is, and a later one is added.
  by_cases hnull : v = .null
  · subst hnull
    have hnone : [ScalarValue.null].filterMap ScalarValue.integer? = [] := rfl
    rw [ScalarValue.withNull_null, hnone, List.append_nil]
    exact ⟨r, rfl, h⟩
  · obtain ⟨n, hn, hvn⟩ := ScalarValue.exists_integer ht (hv.dataType_eq hnull)
    have hone : [v].filterMap ScalarValue.integer? = [n] := by simp [hn]
    have hne : vs.filterMap ScalarValue.integer? ++ [n] ≠ [] := by simp
    simp only [hone, if_neg hne, List.sum_append, List.sum_singleton]
    by_cases hnil : vs.filterMap ScalarValue.integer? = []
    · rw [if_pos hnil] at h
      subst h
      rw [ScalarValue.null_withNull, hnil]
      exact ⟨v, rfl, by simpa using hvn⟩
    · rw [if_neg hnil] at h
      subst h
      rw [ScalarValue.withNull_of_ne (ScalarValue.ofInteger_ne_null ht _) hnull, hvn,
        ScalarValue.scalarAdd_ofInteger ht]
      exact ⟨_, rfl, rfl⟩

/-- The sum of a list. -/
theorem sum_isSum (ht : t.isInteger) {vs : List ScalarValue} (hvs : ∀ v ∈ vs, v.FitsIn t) :
    ∃ r, accumulateAll .sum vs = .ok (.sum r) ∧ IsSum t vs r := by
  induction vs using List.reverseRecOn with
  | nil => exact ⟨.null, rfl, rfl⟩
  | append_singleton vs v ih =>
    obtain ⟨r, hr, hsum⟩ := ih fun w hw => hvs w (List.mem_append_left _ hw)
    obtain ⟨r', hr', hsum'⟩ := accumulate_isSum ht (hvs v (by simp)) hsum
    refine ⟨r', ?_, hsum'⟩
    rw [accumulateAll] at hr ⊢
    rw [List.foldlM_append, hr, Outcome.ok_bind, List.foldlM_cons, hr']
    rfl

/-- The count of a list. -/
theorem count_isCount {vs : List ScalarValue} (hlt : vs.countP (!·.isNull) < 2 ^ 31) :
    ∃ acc, accumulateAll .count vs = .ok acc ∧
      HasCount .count acc (vs.countP (!·.isNull)) := by
  induction vs using List.reverseRecOn with
  | nil => exact ⟨_, rfl, hasCount_create (.inl rfl)⟩
  | append_singleton vs v ih =>
    have hone : [v].countP (!·.isNull) = if v.isNull then 0 else 1 := by
      cases hv : v.isNull <;> simp [hv]
    rw [List.countP_append, hone] at hlt ⊢
    obtain ⟨acc, hacc, hcount⟩ := ih (by omega)
    obtain ⟨acc', hacc', hcount'⟩ := hcount.accumulate (v := v) (.inr (.inl rfl)) (by omega)
    refine ⟨acc', ?_, hcount'⟩
    rw [accumulateAll] at hacc ⊢
    rw [List.foldlM_append, hacc, Outcome.ok_bind, List.foldlM_cons, hacc']
    rfl

/-- The complete stage computes the aggregate of a column. -/
theorem aggregate_isAggregate {f : AggregateFunction} (hf : f.Supports t) {vs : List ScalarValue}
    (hvs : ∀ v ∈ vs, v.FitsIn t) (hlt : vs.length < 2 ^ 31) :
    ∃ r, aggregate .completeMode f vs = .ok r ∧ f.IsAggregate t vs r ∧
      r.FitsIn (f.resultType t) := by
  have houtcome : aggregate .completeMode f vs = outcome f vs := rfl
  have hbest : ∀ {o : Ordering}, t.isOrdered ∧ t.isFloat = false → o ≠ .eq →
      ∃ r, extremum o vs = .ok r ∧ IsBest o vs r ∧ r.FitsIn t := by
    rintro o ⟨hord, hexact⟩ ho
    obtain ⟨L⟩ := ScalarValue.exists_typeLine_exact hord hexact
    obtain ⟨r, hr, h⟩ := extremum_isBest L ho hvs
    exact ⟨r, hr, h, h.fitsIn hvs⟩
  rw [houtcome]
  cases f with
  | sum =>
    obtain ⟨r, hr, hsum⟩ := sum_isSum hf hvs
    refine ⟨r, by rw [outcome, hr]; rfl, hsum, ?_⟩
    unfold IsSum at hsum
    split at hsum
    · exact .inl hsum
    · exact .inr (hsum ▸ ScalarValue.dataType_ofInteger hf _)
  | min =>
    rw [min_outcome.1]
    exact hbest hf (by decide)
  | max =>
    rw [max_outcome.1]
    exact hbest hf (by decide)
  | count =>
    obtain ⟨acc, hacc, hcount⟩ := count_isCount (List.countP_le_length.trans_lt hlt)
    cases acc with
    | count n => exact ⟨.int32 n, by rw [outcome, hacc]; rfl, ⟨n, rfl, hcount.2⟩, .inr rfl⟩
    | sum v => exact hcount.elim
    | min v => exact hcount.elim
    | max v => exact hcount.elim
    | avg s n => cases hcount.1
  | avg => exact hf.elim

/-- The aggregate of a column does not depend on the order of the rows. -/
theorem aggregate_perm_supported {f : AggregateFunction} (hf : f.Supports t)
    {vs vs' : List ScalarValue} (hperm : vs.Perm vs') (hvs : ∀ v ∈ vs, v.FitsIn t)
    (hlt : vs.length < 2 ^ 31) {v : ScalarValue} (h : aggregate .completeMode f vs = .ok v) :
    aggregate .completeMode f vs' = .ok v := by
  have hexact : t.isFloat = false → f ≠ .avg → aggregate .completeMode f vs' = .ok v :=
    fun ht havg => aggregate_perm hperm (fun w hw => (hvs w hw).isExact ht) havg h
  cases f with
  | sum =>
    refine hexact ?_ (by decide)
    cases t <;> first | rfl | cases hf
  | min => exact hexact hf.2 (by decide)
  | max => exact hexact hf.2 (by decide)
  | avg => exact hf.elim
  | count =>
    obtain ⟨r, hr, ⟨n, rfl, hn⟩, -⟩ := aggregate_isAggregate (f := .count) hf hvs hlt
    have hvs' : ∀ v ∈ vs', v.FitsIn t := fun w hw => hvs w (hperm.mem_iff.mpr hw)
    obtain ⟨r', hr', ⟨n', rfl, hn'⟩, -⟩ := aggregate_isAggregate (f := .count) hf hvs'
      (hperm.length_eq ▸ hlt)
    rw [← hperm.countP_eq, ← hn, Int32.toInt_inj] at hn'
    rw [hr', hn', ← h, hr]

/-! ## The rows of the groups -/

namespace HashAggregate

/-- The group and input expressions have these types over rows of `types`, the functions support
them, and the schema is made of the types of the group and aggregate values. -/
structure TypedOver (agg : HashAggregate) (types groupTypes inputTypes : List DataType) : Prop where
  group_types : agg.groupExpr.mapM (fun e => e.dataType types) = .ok groupTypes
  input_types : agg.aggregateExpr.mapM (fun a => a.inputExpression.dataType types) = .ok inputTypes
  hasBuilder : ∀ t ∈ groupTypes, t.hasBuilder
  supports : List.Forall₂ (fun a t => a.function.Supports t) agg.aggregateExpr inputTypes
  schema_types : agg.schema.types =
    groupTypes ++ List.zipWith (fun a t => a.function.resultType t) agg.aggregateExpr inputTypes

/-- The row of one group: its values, then for every aggregate the one of the group's rows. -/
def IsReferenceRow (agg : HashAggregate) (inputTypes : List DataType) (items : List Item)
    (key : GroupKey) (row : Row) : Prop :=
  ∃ outs, row = key ++ outs ∧ outs.length = agg.aggregateExpr.length ∧
    ∀ (i : ℕ) a t, agg.aggregateExpr[i]? = some a → inputTypes[i]? = some t →
      ∃ v, outs[i]? = some v ∧
        a.function.IsAggregate t (Table.column (KeyedFold.valuesOf items key) i) v

variable {agg : HashAggregate} {types groupTypes inputTypes : List DataType}

/-- The cells are null or of these types, supported or not. -/
def CellsFit (types : List DataType) (row : Row) : Prop :=
  List.Forall₂ (fun t v => ScalarValue.FitsIn v t) types row

omit [Runtime] in
/-- A row of cells that fit fits. -/
theorem CellsFit.rowFits {types : List DataType} {row : Row} (h : CellsFit types row) :
    RowFits types row := by
  unfold CellsFit at h
  unfold RowFits
  refine List.Forall₂.imp (S := fun t v => t.hasBuilder → ScalarValue.FitsIn v t) ?_ h
  exact fun _ _ h _ => h

/-- The cells of expressions are of the types of the expressions. -/
theorem cellsFit_of_mapM {α : Type} (expr : α → Expression) {es : List α} {types ts : List DataType}
    {row : Row} (hrow : RowFits types row)
    (hts : es.mapM (fun e => (expr e).dataType types) = .ok ts) {vs : Row}
    (hvs : es.mapM (fun e => (expr e).evalCell types row) = .ok vs) : CellsFit ts vs := by
  unfold CellsFit
  induction es generalizing ts vs with
  | nil =>
    obtain rfl : [] = ts := by simpa using hts
    obtain rfl : [] = vs := by simpa using hvs
    exact .nil
  | cons e es ih =>
    obtain ⟨t, ts, ht, hts, rfl⟩ := Outcome.mapM_cons_eq_ok_iff.mp hts
    obtain ⟨v, vs, hv, hvs, rfl⟩ := Outcome.mapM_cons_eq_ok_iff.mp hvs
    exact .cons (Expression.evalCell_fitsIn hrow ht hv) (ih (by assumption) (by assumption))

/-- Keyed rows have values of the types of the expressions. -/
theorem TypedOver.item_fits (hagg : agg.TypedOver types groupTypes inputTypes) {rows : List Row}
    (hrows : ∀ r ∈ rows, RowFits types r) {items : List Item}
    (hitems : rows.mapM (agg.readItem types) = .ok items) :
    ∀ x ∈ items, CellsFit groupTypes x.1 ∧ CellsFit inputTypes x.2 := by
  intro x hx
  obtain ⟨row, hrow, hread⟩ := Outcome.mapM_mem hitems hx
  obtain ⟨key, hkey, hread⟩ := Outcome.bind_eq_ok_iff.mp hread
  obtain ⟨args, hargs, rfl⟩ := Outcome.bind_pure_eq_ok_iff.mp hread
  exact ⟨cellsFit_of_mapM id (hrows row hrow) hagg.group_types hkey,
    cellsFit_of_mapM _ (hrows row hrow) hagg.input_types hargs⟩

omit [Runtime] in
/-- The column of an input over the rows of a group. -/
theorem column_fits {items : List Item} (hitems : ∀ x ∈ items, CellsFit inputTypes x.2)
    (key : GroupKey) {i : ℕ} {t : DataType} (ht : inputTypes[i]? = some t) :
    ∀ v ∈ Table.column (KeyedFold.valuesOf items key) i, v.FitsIn t := by
  intro v hv
  obtain ⟨args, hargs, rfl⟩ := List.mem_map.mp hv
  obtain ⟨x, hx, rfl⟩ := List.mem_map.mp hargs
  have hfits := hitems x (List.mem_of_mem_filter hx)
  obtain ⟨hi, rfl⟩ := List.getElem?_eq_some_iff.mp ht
  have hi' : i < x.2.length := hfits.length_eq ▸ hi
  rw [List.getD_eq_getElem?_getD, List.getElem?_eq_getElem hi', Option.getD_some]
  exact hfits.get hi hi'

/-- Every group has a reference row, of the types of the schema. -/
theorem TypedOver.groupRow (hagg : agg.TypedOver types groupTypes inputTypes) {items : List Item}
    (hitems : ∀ x ∈ items, CellsFit groupTypes x.1 ∧ CellsFit inputTypes x.2)
    (hsmall : ∀ key, (KeyedFold.valuesOf items key).length < 2 ^ 31) {key : GroupKey}
    (hkey : key ∈ groupKeys items) :
    ∃ row, agg.groupRow .completeMode items key = .ok row ∧
      agg.IsReferenceRow inputTypes items key row ∧ RowFits agg.schema.types row := by
  obtain ⟨args, hargs⟩ := mem_groupKeys.mp hkey
  have hkeyfits := (hitems _ hargs).1
  have hinputs : inputTypes.length = agg.aggregateExpr.length := hagg.supports.length_eq.symm
  have hlen : ∀ x ∈ items, x.2.length = agg.aggregateExpr.length := fun x hx =>
    (hitems x hx).2.length_eq.symm.trans hinputs
  obtain ⟨outs, houtslen, houts⟩ := Outcome.exists_list (δ := ScalarValue)
    (P := fun i (x : AggregateExpression × DataType) v =>
      aggregate .completeMode x.1.function (Table.column (KeyedFold.valuesOf items key) i) = .ok v ∧
        x.1.function.IsAggregate x.2 (Table.column (KeyedFold.valuesOf items key) i) v ∧
        v.FitsIn (x.1.function.resultType x.2))
    (agg.aggregateExpr.zip inputTypes) fun i x hx => by
      obtain ⟨ha, ht⟩ := List.getElem?_zip_eq_some.mp hx
      refine aggregate_isAggregate
        ((List.forall₂_iff_zip.mp hagg.supports).2 (List.mem_of_getElem? hx))
        (column_fits (fun x hx => (hitems x hx).2) key ht) ?_
      rw [Table.column_length]
      exact hsmall key
  have hzip : ∀ {i : ℕ} {a : AggregateExpression}, agg.aggregateExpr[i]? = some a →
      ∃ t, inputTypes[i]? = some t ∧ (agg.aggregateExpr.zip inputTypes)[i]? = some (a, t) := by
    intro i a ha
    have hi : i < inputTypes.length := by
      rw [hinputs]
      exact (List.getElem?_eq_some_iff.mp ha).1
    exact ⟨inputTypes[i], List.getElem?_eq_getElem hi,
      List.getElem?_zip_eq_some.mpr ⟨ha, List.getElem?_eq_getElem hi⟩⟩
  rw [List.length_zip, hinputs, min_self] at houtslen
  refine ⟨key ++ outs, (groupRow_eq_ok_iff hlen).mpr ⟨outs, rfl, houtslen, fun i a ha => ?_⟩,
    ⟨outs, rfl, houtslen, fun i a t ha ht => ?_⟩, ?_⟩
  · obtain ⟨t, -, hx⟩ := hzip ha
    obtain ⟨v, hv, hout, -⟩ := houts i _ hx
    exact ⟨v, hv, hout⟩
  · obtain ⟨v, hv, -, hspec, -⟩ := houts i (a, t) (List.getElem?_zip_eq_some.mpr ⟨ha, ht⟩)
    exact ⟨v, hv, hspec⟩
  · rw [hagg.schema_types]
    refine List.rel_append hkeyfits.rowFits (List.forall₂_iff_get.mpr ⟨?_, ?_⟩)
    · rw [List.length_zipWith, hinputs, min_self, houtslen]
    · intro i hi hi' _
      rw [List.length_zipWith, hinputs, min_self] at hi
      obtain ⟨t, ht, hx⟩ := hzip (List.getElem?_eq_getElem hi)
      obtain ⟨v, hv, -, -, hfits⟩ := houts i _ hx
      obtain ⟨_, rfl⟩ := List.getElem?_eq_some_iff.mp hv
      obtain ⟨_, rfl⟩ := List.getElem?_eq_some_iff.mp ht
      simpa using hfits

omit [Runtime] in
/-- The types of the schema have builders. -/
theorem TypedOver.schema_hasBuilder (hagg : agg.TypedOver types groupTypes inputTypes) :
    ∀ t ∈ agg.schema.types, t.hasBuilder := by
  have hresult : ∀ (f : AggregateFunction) t, f.Supports t → (f.resultType t).hasBuilder := by
    intro f t hf
    cases f with
    | sum => cases t <;> first | rfl | cases hf
    | min => cases t <;> first | rfl | cases hf.1
    | max => cases t <;> first | rfl | cases hf.1
    | count => rfl
    | avg => exact hf.elim
  intro t ht
  rw [hagg.schema_types] at ht
  rcases List.mem_append.mp ht with ht | ht
  · exact hagg.hasBuilder t ht
  · rw [← List.map_uncurry_zip_eq_zipWith] at ht
    obtain ⟨x, hx, rfl⟩ := List.mem_map.mp ht
    exact hresult _ _ ((List.forall₂_iff_zip.mp hagg.supports).2 hx)

/-- The reference rows of all groups can be built into a batch. -/
theorem TypedOver.outputRows (hagg : agg.TypedOver types groupTypes inputTypes)
    (hgroup : agg.groupExpr ≠ []) {items : List Item}
    (hitems : ∀ x ∈ items, CellsFit groupTypes x.1 ∧ CellsFit inputTypes x.2)
    (hsmall : ∀ key, (KeyedFold.valuesOf items key).length < 2 ^ 31) :
    ∃ rows, agg.outputRows .completeMode items = .ok rows ∧
      List.Forall₂ (agg.IsReferenceRow inputTypes items) (groupKeys items) rows ∧
      Builds agg.schema rows := by
  have hrow := fun key (hkey : key ∈ groupKeys items) => hagg.groupRow hitems hsmall hkey
  obtain ⟨rows, hrows⟩ : Outcome.Succeeds (agg.outputRows .completeMode items) := by
    rw [HashAggregate.outputRows, Outcome.mapM_succeeds_iff]
    intro key hkey
    obtain ⟨row, hrow, -⟩ := hrow key hkey
    exact ⟨row, hrow⟩
  have hall := Outcome.mapM_eq_ok_iff.mp hrows
  have hreference : List.Forall₂ (fun key row => agg.IsReferenceRow inputTypes items key row ∧
      RowFits agg.schema.types row) (groupKeys items) rows := by
    rw [List.forall₂_iff_zip] at hall ⊢
    refine ⟨hall.1, fun {key row} hmem => ?_⟩
    obtain ⟨row', hrow', h⟩ := hrow key (List.of_mem_zip hmem).1
    obtain rfl : row' = row := Except.ok.inj (hrow'.symm.trans (hall.2 hmem))
    exact h
  refine ⟨rows, hrows, hreference.imp fun _ _ h => h.1, ?_, hagg.schema_hasBuilder, fun r hr => ?_⟩
  · intro hnil
    have htypes := hagg.schema_types
    rw [Schema.types, hnil, List.map_nil, eq_comm, List.append_eq_nil_iff] at htypes
    have hlen := Outcome.mapM_length hagg.group_types
    rw [htypes.1, List.length_nil] at hlen
    exact hgroup (List.length_eq_zero_iff.mp hlen.symm)
  · obtain ⟨key, -, -, h⟩ := Outcome.forall₂_mem_right hreference hr
    exact h

/-- The rows of batches of one schema are read as the batches are. -/
theorem TypedOver.readBatches {s : Schema} (hagg : agg.TypedOver s.types groupTypes inputTypes)
    {batches : List RecordBatch} (hs : ∀ b ∈ batches, b.schema = s) {items : List Item}
    (hitems : (rowsOf batches).mapM (agg.readItem s.types) = .ok items) :
    ∃ xs, batches.mapM agg.readBatch = .ok xs ∧ xs.flatten = items := by
  have htypes : Outcome.Succeeds (agg.expressions.mapM fun e => e.dataType s.types) := by
    refine ⟨groupTypes ++ inputTypes, ?_⟩
    rw [expressions, Outcome.mapM_append_eq_ok_iff]
    refine ⟨groupTypes, inputTypes, hagg.group_types, ?_, rfl⟩
    rw [List.mapM_map]
    exact hagg.input_types
  obtain ⟨ts, htypes⟩ := htypes
  rw [rowsOf, List.flatMap_def, Outcome.mapM_flatten_eq_ok_iff] at hitems
  obtain ⟨xs, hxs, rfl⟩ := hitems
  rw [List.mapM_map] at hxs
  refine ⟨xs, ?_, rfl⟩
  rw [← hxs]
  refine Outcome.mapM_congr fun b hb => ?_
  have hbt : b.types = s.types := hs b hb ▸ b.types_eq_schema
  rw [readBatch, hbt, htypes, Outcome.ok_bind]
  rfl

end HashAggregate

open HashAggregate

omit [Runtime] in
/-- The rows of batches of a schema fit it. -/
theorem rowsOf_fit {s : Schema} {batches : List RecordBatch} (hs : ∀ b ∈ batches, b.schema = s) :
    ∀ r ∈ rowsOf batches, RowFits s.types r := by
  intro r hr
  obtain ⟨b, hb, hr⟩ := List.mem_flatMap.mp hr
  exact hs b hb ▸ b.rows_fit r hr

/-- A hash aggregation in complete mode outputs one batch, with the reference row of every distinct
tuple of group values. Its rows are, up to their order, the same for every input with the same rows,
in any order and split into any batches. -/
theorem hashAggregate_eq_reference {ctx : ExecutorContext} [Readers] {input : PhysicalPlan}
    {agg : HashAggregate} {s : Schema} {groupTypes inputTypes : List DataType}
    (hagg : agg.TypedOver s.types groupTypes inputTypes) (hgroup : agg.groupExpr ≠ [])
    {batches : List RecordBatch} (hinput : input.execute ctx = .ok (batches.map .ok))
    (hs : ∀ b ∈ batches, b.schema = s) {items : List Item}
    (hitems : (rowsOf batches).mapM (agg.readItem s.types) = .ok items)
    (hsmall : ∀ key, (KeyedFold.valuesOf items key).length < 2 ^ 31) :
    ∃ out, (PhysicalPlan.hashAggregate input agg .completeMode).execute ctx = .ok [.ok out] ∧
      out.schema = agg.schema ∧
      (∃ keys : List GroupKey, keys.Nodup ∧ (∀ key, key ∈ keys ↔ key ∈ items.map Prod.fst) ∧
        List.Forall₂ (agg.IsReferenceRow inputTypes items) keys out.rows) ∧
      ∀ (input' : PhysicalPlan) (batches' : List RecordBatch),
        input'.execute ctx = .ok (batches'.map .ok) → (∀ b ∈ batches', b.schema = s) →
        (rowsOf batches').Perm (rowsOf batches) →
        ∃ out', (PhysicalPlan.hashAggregate input' agg .completeMode).execute ctx =
          .ok [.ok out'] ∧ out'.rows.Perm out.rows := by
  -- What any input with these rows, in some order, is aggregated to.
  have hrun : ∀ (input : PhysicalPlan) (batches : List RecordBatch) (items : List Item),
      input.execute ctx = .ok (batches.map .ok) → (∀ b ∈ batches, b.schema = s) →
      (rowsOf batches).mapM (agg.readItem s.types) = .ok items →
      (∀ key, (KeyedFold.valuesOf items key).length < 2 ^ 31) →
      ∃ out rows, (PhysicalPlan.hashAggregate input agg .completeMode).execute ctx =
          .ok [.ok out] ∧ out.schema = agg.schema ∧ out.rows.Perm rows ∧
        agg.outputRows .completeMode items = .ok rows ∧
        List.Forall₂ (agg.IsReferenceRow inputTypes items) (groupKeys items) rows := by
    intro input batches items hinput hs hitems hsmall
    have hfits := hagg.item_fits (rowsOf_fit hs) hitems
    obtain ⟨xs, hxs, rfl⟩ := hagg.readBatches hs hitems
    obtain ⟨rows, hrows, href, hbuild⟩ := hagg.outputRows hgroup hfits hsmall
    obtain ⟨out, hout, hschema, hperm⟩ :=
      run_succeeds (Outcome.mapM_id_map_ok batches) hxs hrows hbuild
    refine ⟨out, rows, ?_, hschema, hperm, hrows, href⟩
    rw [PhysicalPlan.execute, hinput, Outcome.ok_bind, hout]
    rfl
  obtain ⟨out, rows, hout, hschema, hperm, hrows, href⟩ :=
    hrun input batches items hinput hs hitems hsmall
  refine ⟨out, hout, hschema, ?_, ?_⟩
  · obtain ⟨keys, hkeys, hkeysperm⟩ := List.perm_comp_forall₂ hperm href.flip
    have hmem : ∀ key, key ∈ keys ↔ key ∈ items.map Prod.fst := fun key => by
      rw [hkeysperm.mem_iff, groupKeys, KeyedFold.mem_firstKeys]
    exact ⟨keys, hkeysperm.nodup_iff.mpr (KeyedFold.nodup_firstKeys _), hmem, hkeys.flip⟩
  · intro input' batches' hinput' hs' hperm'
    obtain ⟨items', hitems', hitemsperm⟩ := Outcome.mapM_perm hperm'.symm hitems
    have hvalues : ∀ key, (KeyedFold.valuesOf items key).Perm (KeyedFold.valuesOf items' key) :=
      fun key => (hitemsperm.filter _).map _
    obtain ⟨out', rows', hout', -, hpermout', hrows', -⟩ :=
      hrun input' batches' items' hinput' hs' hitems' fun key =>
        (hvalues key).length_eq ▸ hsmall key
    have hfits := hagg.item_fits (rowsOf_fit hs) hitems
    have hinputs : inputTypes.length = agg.aggregateExpr.length := hagg.supports.length_eq.symm
    obtain ⟨rows₁, hrows₁, hrowsperm⟩ := outputRows_perm_of hitemsperm
      (fun x hx => (hfits x hx).2.length_eq.symm.trans hinputs) (fun key _ i a ha v hv => by
        have hi : i < inputTypes.length := hinputs ▸ (List.getElem?_eq_some_iff.mp ha).1
        have ht := List.getElem?_eq_getElem hi
        refine aggregate_perm_supported
          ((List.forall₂_iff_zip.mp hagg.supports).2
            (List.mem_of_getElem? (List.getElem?_zip_eq_some.mpr ⟨ha, ht⟩)))
          ((hvalues key).map _) (column_fits (fun x hx => (hfits x hx).2) key ht) ?_ hv
        rw [List.length_map]
        exact hsmall key) hrows
    obtain rfl : rows₁ = rows' := Except.ok.inj (hrows₁.symm.trans hrows')
    exact ⟨out', hout', hpermout'.trans (hrowsperm.symm.trans hperm.symm)⟩

end

section GroupedRows

attribute [local instance] integerFloats insertionOrderRuntime

local instance noGroupedFiles : Readers := parquetDisk fun _ => none

/-- Rows of a group and a value that may be null. -/
def measures : RecordBatch where
  schema := ⟨[⟨"g", .utf8⟩, ⟨"x", .int32⟩]⟩
  columns := [⟨.utf8, [.utf8 "a", .utf8 "b", .utf8 "a"], by decide⟩,
    ⟨.int32, [.int32 7, .null, .int32 (-2)], by decide⟩]
  numRows := 3
  types_eq := by decide
  lengths := by decide

/-- `SELECT g, SUM(x), MAX(x), COUNT(x) … GROUP BY g`. -/
def statistics : HashAggregate where
  groupExpr := [.column 0]
  aggregateExpr := [SumExpression (.column 1), MaxExpression (.column 1),
    CountExpression (.column 1)]
  schema := ⟨[⟨"g", .utf8⟩, ⟨"SUM", .int32⟩, ⟨"MAX", .int32⟩, ⟨"COUNT", .int32⟩]⟩

/-- The statistics are typed over the measures. -/
theorem statistics_typedOver : statistics.TypedOver measures.schema.types [.utf8]
    [.int32, .int32, .int32] where
  group_types := by decide
  input_types := by decide
  hasBuilder := by decide
  supports := .cons rfl (.cons ⟨rfl, rfl⟩ (.cons trivial .nil))
  schema_types := by decide

/-- The groups of the measures. -/
def measuredItems : List HashAggregate.Item :=
  [([.utf8 "a"], [.int32 7, .int32 7, .int32 7]), ([.utf8 "b"], [.null, .null, .null]),
    ([.utf8 "a"], [.int32 (-2), .int32 (-2), .int32 (-2)])]

/-- The statistics of the groups, one row for each. -/
theorem hashAggregate_eq_reference_measures :
    ∃ out, (PhysicalPlan.hashAggregate (.inMemory measures.schema [measures]) statistics
        .completeMode).execute ⟨"", "", 0, ⟨[]⟩⟩ = .ok [.ok out] ∧
      ∃ keys : List GroupKey, keys.Nodup ∧
        (∀ key, key ∈ keys ↔ key ∈ measuredItems.map Prod.fst) ∧
        List.Forall₂ (statistics.IsReferenceRow [.int32, .int32, .int32] measuredItems) keys
          out.rows := by
  have hsmall : ∀ key, (KeyedFold.valuesOf measuredItems key).length < 2 ^ 31 := by
    intro key
    rw [KeyedFold.valuesOf, List.length_map]
    exact (List.length_filter_le _ _).trans_lt (by decide)
  have hinput : (PhysicalPlan.inMemory measures.schema [measures]).execute ⟨"", "", 0, ⟨[]⟩⟩ =
      .ok ([measures].map .ok) := rfl
  have hitems : (rowsOf [measures]).mapM (statistics.readItem measures.schema.types) =
      .ok measuredItems := by decide
  obtain ⟨out, hout, -, hkeys, -⟩ := hashAggregate_eq_reference statistics_typedOver (by decide)
    hinput (by decide) hitems hsmall
  exact ⟨out, hout, hkeys⟩

end GroupedRows

end RQuery
