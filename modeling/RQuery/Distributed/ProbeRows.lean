import RQuery.Distributed.StageExpressions
import RQuery.Physical.ReferenceGrouping

/-!
# Telling the columns of the partial output apart

For an aggregate over columns of the input, the positions of its expressions must coincide: if an
expression reads another column of the partial output than the one at its own position, there is a
group of input rows for which the two columns differ.

The rows that show this are null but for one column. A null there tells COUNT from everything else,
one value tells two columns of the input apart, a value twice tells SUM from the group value, MIN and
MAX, and two values tell MIN from MAX (`PartialColumn.eq_of_folds`). Each such group is the input of
a run with one partial row (`TypedOver.exists_partialRow`).
-/

namespace RQuery

section

variable [FloatModel]

/-! ## Two values of a type -/

/-- A value of a type with a builder. -/
def DataType.sample : DataType → ScalarValue
  | boolean => .boolean true
  | int8 => .int8 1
  | int16 => .int16 1
  | int32 => .int32 1
  | int64 => .int64 1
  | uint8 => .uint8 1
  | uint16 => .uint16 1
  | uint32 => .uint32 1
  | uint64 => .uint64 1
  | float32 => .float32 FloatModel.single.zero
  | float64 => .float64 FloatModel.double.zero
  | utf8 => .utf8 "a"
  | binary => .binary []
  | date32 => .date32 1
  | _ => .null

/-- A smaller value, of a type with exact comparisons. -/
def DataType.smaller : DataType → ScalarValue
  | int8 => .int8 0
  | int16 => .int16 0
  | int32 => .int32 0
  | int64 => .int64 0
  | uint8 => .uint8 0
  | uint16 => .uint16 0
  | uint32 => .uint32 0
  | uint64 => .uint64 0
  | utf8 => .utf8 ""
  | date32 => .date32 0
  | _ => .null

namespace DataType

variable {t : DataType}

/-- The sample of a type is of the type. -/
theorem dataType_sample (h : t.hasBuilder) : t.sample.dataType = t := by
  cases t <;> first | rfl | cases h

/-- The sample is not null. -/
theorem isNull_sample (h : t.hasBuilder) : t.sample.isNull = false := by
  cases t <;> first | rfl | cases h

/-- The sample is a value. -/
theorem sample_ne_null (h : t.hasBuilder) : t.sample ≠ .null := by
  intro heq
  have hnull := isNull_sample h
  rw [heq] at hnull
  cases hnull

/-- The smaller sample fits the type. -/
theorem fitsIn_smaller (t : DataType) : t.smaller.FitsIn t := by
  cases t <;> first | exact .inr rfl | exact .inl rfl

variable [Runtime]

/-- A value twice is not its own sum. -/
theorem sum_samples (ht : t.isInteger) :
    aggregate .partialMode .sum [t.sample, t.sample] ≠ .ok t.sample := by
  have hsum : aggregate .partialMode .sum [t.sample, t.sample] = .ok (.ofInteger t 2) := by
    cases t <;> first | rfl | cases ht
  have two_ne_one : some (2 : ℤ) ≠ some 1 := by decide
  have hne : (ScalarValue.ofInteger t 2).integer? ≠ t.sample.integer? := by
    cases t <;> first | exact two_ne_one | cases ht
  intro h
  rw [hsum] at h
  exact hne (congrArg ScalarValue.integer? (Except.ok.inj h))

/-- MIN picks the smaller sample. -/
theorem min_samples (ht : t.isOrdered) (hexact : t.isFloat = false) :
    aggregate .partialMode .min [t.sample, t.smaller] = .ok t.smaller := by
  cases t <;> first | rfl | exact absurd ht (by decide) | cases hexact

/-- MAX picks the greater sample. -/
theorem max_samples (t : DataType) :
    aggregate .partialMode .max [t.sample, t.smaller] = .ok t.sample := by
  cases t <;> rfl

omit [Runtime] in
/-- The samples differ. -/
theorem sample_ne_smaller (ht : t.isOrdered) (hexact : t.isFloat = false) :
    t.sample ≠ t.smaller := by
  cases t <;> simp_all [sample, smaller, isOrdered, isFloat]

end DataType

/-! ## Columns of the partial output -/

namespace PartialColumn

/-- The expression that the column is about. -/
def expression : PartialColumn → Expression
  | key e => e
  | result a => a.inputExpression

/-- The aggregate function of the column. -/
def function : PartialColumn → Option AggregateFunction
  | key _ => none
  | result a => some a.function

/-- A column is its expression and its function. -/
theorem eq_of_expression {c d : PartialColumn} (hexpression : c.expression = d.expression)
    (hfunction : c.function = d.function) : c = d := by
  cases c with
  | key e =>
    cases d with
    | key e' => exact congrArg key hexpression
    | result b => cases hfunction
  | result a =>
    cases d with
    | key e' => cases hfunction
    | result b =>
      obtain ⟨f, e⟩ := a
      obtain ⟨f', e'⟩ := b
      obtain rfl : e = e' := hexpression
      obtain rfl : f = f' := Option.some.inj hfunction
      rfl

/-- Over rows of the types, the column is a column of the input that is a group value, or an
aggregate of one; MIN and MAX are of columns that are no group values. -/
structure OverColumn (types : List DataType) (keys : List Expression) (content : PartialColumn)
    (i : ℕ) (t : DataType) : Prop where
  expression_eq : content.expression = .column i
  type : types[i]? = some t
  key : content.function = none → .column i ∈ keys
  supports : ∀ f, content.function = some f → f.Supports t
  extremum : content.function = some .min ∨ content.function = some .max → .column i ∉ keys

variable {types : List DataType} {keys : List Expression} {c d : PartialColumn} {i j : ℕ}
  {t u : DataType}

/-- A key that is a column is over that column. -/
theorem OverColumn.of_key {e : Expression} (he : e = .column i) (ht : types[i]? = some t)
    (hmem : .column i ∈ keys) : (PartialColumn.key e).OverColumn types keys i t where
  expression_eq := he
  type := ht
  key _ := hmem
  supports f hf := by cases hf
  extremum hf := by rcases hf with hf | hf <;> cases hf

/-- MIN and MAX of a group value are the group value. -/
theorem none_of_none (hc : c.OverColumn types keys i t) (hd : d.OverColumn types keys i u)
    (hsum : c.function = some .sum ↔ d.function = some .sum)
    (hcount : c.function = some .count ↔ d.function = some .count) (hnone : c.function = none) :
    d.function = none := by
  have hmem := hc.key hnone
  rw [hnone] at hsum hcount
  rcases hf : d.function with _ | _ | _ | _ | _ | _
  · rfl
  · exact absurd (hsum.mpr hf) nofun
  · exact absurd hmem (hd.extremum (.inl hf))
  · exact absurd hmem (hd.extremum (.inr hf))
  · exact (hd.supports _ hf).elim
  · exact absurd (hcount.mpr hf) nofun

variable [Runtime]

/-- The value of the column for a group in whose rows the expression has the values `vs`. -/
def Folds (content : PartialColumn) (vs : List ScalarValue) (v : ScalarValue) : Prop :=
  match content.function with
  | none => ∀ w ∈ vs, w = v
  | some f => aggregate .partialMode f vs = .ok v

/-- The partial count of one value. -/
theorem count_aggregate {w v : ScalarValue} (hv : aggregate .partialMode .count [w] = .ok v) :
    IsCount [w] v := by
  have hfits : ∀ x ∈ [w], x.FitsIn w.dataType := by simpa using w.fitsIn_dataType
  obtain ⟨r, hr, hcount, -⟩ := aggregate_isAggregate (f := .count) trivial hfits (by simp)
  rw [aggregate_partialMode (f := .count) nofun, hr] at hv
  rw [← Except.ok.inj hv]
  exact hcount

/-- One value: COUNT is the number of non-null ones, and everything else is the value. -/
theorem OverColumn.folds_singleton (h : c.OverColumn types keys i t) {w v : ScalarValue}
    (hv : c.Folds [w] v) :
    v = if c.function = some .count then .int32 (if w.isNull then 0 else 1) else w := by
  unfold Folds at hv
  split at hv
  · rename_i hkey
    rw [hkey, if_neg nofun]
    exact (hv w (by simp)).symm
  · rename_i f hf
    have hsupports := h.supports f hf
    rw [hf]
    -- All but a count leave a single value as it is.
    have hself : aggregate .partialMode f [w] = .ok w → f ≠ .count →
        v = if some f = some AggregateFunction.count then .int32 (if w.isNull then 0 else 1)
          else w := by
      intro hw hf
      rw [if_neg (by simpa using hf)]
      exact Except.ok.inj (hv.symm.trans hw)
    cases f with
    | count =>
      obtain ⟨n, hn, hcount⟩ := count_aggregate hv
      rw [if_pos rfl, hn]
      refine congrArg _ (Int32.toInt_inj.mp (hcount.trans ?_))
      cases hw : w.isNull <;> simp [hw]
    | sum => exact hself (by cases w <;> rfl) nofun
    | min => exact hself (by cases w <;> rfl) nofun
    | max => exact hself (by cases w <;> rfl) nofun
    | avg => exact hsupports.elim

/-- A value twice: only SUM and COUNT are something else. -/
theorem OverColumn.folds_twice (h : c.OverColumn types keys i t) (hsum : c.function ≠ some .sum)
    (hcount : c.function ≠ some .count) {w v : ScalarValue} (hv : c.Folds [w, w] v) : v = w := by
  have hall : ∀ x ∈ [w, w], x = w := by simp
  unfold Folds at hv
  split at hv
  · exact (hv w (by simp)).symm
  · rename_i f hf
    have hsupports := h.supports f hf
    cases f with
    | sum => exact absurd hf hsum
    | count => exact absurd hf hcount
    | min => exact aggregate_constant (.inl rfl) (by simp) hall hv
    | max => exact aggregate_constant (.inr rfl) (by simp) hall hv
    | avg => exact hsupports.elim

/-- The sum of two samples is no sample. -/
theorem OverColumn.folds_sum (h : c.OverColumn types keys i t) (hsum : c.function = some .sum) :
    ¬ c.Folds [t.sample, t.sample] t.sample := by
  unfold Folds
  rw [hsum]
  exact DataType.sum_samples (h.supports _ hsum)

/-- What the columns have for a group whose rows are null but for column `k`, where they have the
values `vs`, is the same. -/
def SameOn (c d : PartialColumn) (k : ℕ) (vs : List ScalarValue) : Prop :=
  ∃ v, c.Folds (if c.expression = .column k then vs else List.replicate vs.length .null) v ∧
    d.Folds (if d.expression = .column k then vs else List.replicate vs.length .null) v

/-- Columns that are the same on values are so in either order. -/
theorem SameOn.symm {k : ℕ} {vs : List ScalarValue} (h : c.SameOn d k vs) : d.SameOn c k vs := by
  obtain ⟨v, hc, hd⟩ := h
  exact ⟨v, hd, hc⟩

section Separation

variable (hc : c.OverColumn types keys i t) (hd : d.OverColumn types keys j u)

include hc hd

/-- A null tells COUNT from everything else. -/
theorem count_iff_of_sameOn (h : c.SameOn d i [.null]) :
    c.function = some .count ↔ d.function = some .count := by
  obtain ⟨v, hcv, hdv⟩ := h
  have hc' := hc.folds_singleton (w := .null) (by simpa using hcv)
  have hd' := hd.folds_singleton (w := .null) (by simpa using hdv)
  by_cases hcount : c.function = some .count
  · by_cases hcount' : d.function = some .count
    · exact iff_of_true hcount hcount'
    · rw [if_pos hcount] at hc'
      rw [if_neg hcount', hc'] at hd'
      cases hd'
  · by_cases hcount' : d.function = some .count
    · rw [if_neg hcount] at hc'
      rw [if_pos hcount', hc'] at hd'
      cases hd'
    · exact iff_of_false hcount hcount'

/-- One value tells the columns of the input apart. -/
theorem expression_eq_of_sameOn (hcount : c.function = some .count ↔ d.function = some .count)
    (hbuilder : t.hasBuilder) (h : c.SameOn d i [t.sample]) : c.expression = d.expression := by
  obtain ⟨v, hcv, hdv⟩ := h
  rw [if_pos hc.expression_eq] at hcv
  have hc' := hc.folds_singleton hcv
  by_contra hne
  have hne' : d.expression ≠ .column i := fun heq => hne (hc.expression_eq.trans heq.symm)
  rw [if_neg hne'] at hdv
  have hd' := hd.folds_singleton hdv
  by_cases hfun : c.function = some .count
  · rw [if_pos hfun, DataType.isNull_sample hbuilder] at hc'
    rw [if_pos (hcount.mp hfun), hc'] at hd'
    have hone : (1 : Int32) = 0 := ScalarValue.int32.inj hd'
    exact absurd hone (by decide)
  · rw [if_neg hfun] at hc'
    rw [if_neg (mt hcount.mpr hfun), hc'] at hd'
    exact DataType.sample_ne_null hbuilder hd'

/-- A value twice tells SUM from the group value, MIN and MAX. -/
theorem sum_of_sameOn (heq : c.expression = d.expression)
    (hcount : c.function = some .count ↔ d.function = some .count)
    (h : c.SameOn d i [t.sample, t.sample]) (hsum : c.function = some .sum) :
    d.function = some .sum := by
  by_contra hne
  have hne' : d.function ≠ some .count := by
    rw [ne_eq, ← hcount, hsum]
    exact nofun
  obtain ⟨v, hcv, hdv⟩ := h
  rw [if_pos hc.expression_eq] at hcv
  rw [if_pos (heq.symm.trans hc.expression_eq)] at hdv
  rw [hd.folds_twice hne hne' hdv] at hcv
  exact hc.folds_sum hsum hcv

omit hd in
/-- Two values tell MIN from MAX. -/
theorem not_min_max (heq : c.expression = d.expression) (hmin : c.function = some .min)
    (h : .column i ∉ keys → c.SameOn d i [t.sample, t.smaller]) : d.function ≠ some .max := by
  intro hmax
  obtain ⟨v, hcv, hdv⟩ := h (hc.extremum (.inl hmin))
  rw [if_pos hc.expression_eq] at hcv
  rw [if_pos (heq.symm.trans hc.expression_eq)] at hdv
  obtain ⟨hordered, hexact⟩ := hc.supports _ hmin
  have hcv : aggregate .partialMode .min [t.sample, t.smaller] = .ok v := by
    simpa only [Folds, hmin] using hcv
  have hdv : aggregate .partialMode .max [t.sample, t.smaller] = .ok v := by
    simpa only [Folds, hmax] using hdv
  rw [DataType.min_samples hordered hexact] at hcv
  rw [DataType.max_samples, ← hcv] at hdv
  exact DataType.sample_ne_smaller hordered hexact (Except.ok.inj hdv)

/-- Columns that are the same for all groups are the same. -/
theorem eq_of_sameOn (hbuilder : ∀ t ∈ types, t.hasBuilder)
    (h : ∀ k t vs, types[k]? = some t → (∀ v ∈ vs, v.FitsIn t) → vs ≠ [] → vs.length ≤ 2 →
      (.column k ∈ keys → ∀ v ∈ vs, ∀ w ∈ vs, v = w) → c.SameOn d k vs) : c = d := by
  -- One value, and the same value twice, tell counts, sums and the rest apart.
  have hsame : ∀ w, w.FitsIn t → c.SameOn d i [w] ∧ c.SameOn d i [w, w] := by
    intro w hw
    exact ⟨h i t _ hc.type (by simpa using hw) (by simp) (by simp) (by simp),
      h i t _ hc.type (by simpa using hw) (by simp) (by simp) (by simp)⟩
  have hone := hbuilder t (List.mem_of_getElem? hc.type)
  have hcount := count_iff_of_sameOn hc hd (hsame _ (.inl rfl)).1
  have hsample : t.sample.FitsIn t := .inr (DataType.dataType_sample hone)
  have hexpression := expression_eq_of_sameOn hc hd hcount hone (hsame _ hsample).1
  refine eq_of_expression hexpression ?_
  obtain rfl : i = j := Expression.column.inj
    (hc.expression_eq.symm.trans (hexpression.trans hd.expression_eq))
  obtain rfl : t = u := Option.some.inj (hc.type.symm.trans hd.type)
  have htwice := (hsame _ hsample).2
  have hsum : c.function = some .sum ↔ d.function = some .sum :=
    ⟨sum_of_sameOn hc hd hexpression hcount htwice,
      sum_of_sameOn hd hc hexpression.symm hcount.symm htwice.symm⟩
  -- Two different values tell the minimum from the maximum; a key has no two.
  have htwo : .column i ∉ keys → c.SameOn d i [t.sample, t.smaller] := fun hkeys =>
    h i t _ hc.type (by simpa using ⟨hsample, t.fitsIn_smaller⟩) (by simp) (by simp)
      fun hmem => absurd hmem hkeys
  have hmin := fun hf => not_min_max hc hexpression hf htwo
  have hmin' := fun hf => not_min_max hd hexpression.symm hf fun hkeys => (htwo hkeys).symm
  have hnone : c.function = none ↔ d.function = none :=
    ⟨none_of_none hc hd hsum hcount, none_of_none hd hc hsum.symm hcount.symm⟩
  have havg : c.function ≠ some .avg := fun hf => hc.supports _ hf
  have havg' : d.function ≠ some .avg := fun hf => hd.supports _ hf
  cases hf : c.function with
  | none => exact (hnone.mp hf).symm
  | some f =>
    cases hg : d.function with
    | none => exact absurd (hf.symm.trans (hnone.mpr hg)) nofun
    | some g =>
      simp only [hf, hg, Option.some.injEq, ne_eq] at hsum hcount hmin hmin' havg havg' ⊢
      cases f <;> cases g <;> simp_all only [reduceCtorEq, not_true, iff_true, iff_false, forall_true_left]

end Separation

end PartialColumn

/-! ## Rows that are null but for one column -/

section Probe

variable {types : List DataType} {i k : ℕ} {t : DataType} {v : ScalarValue}

/-- The row with `v` in column `k` and nulls elsewhere. -/
def probeRow (types : List DataType) (k : ℕ) (v : ScalarValue) : Row :=
  (List.replicate types.length .null).set k v

/-- The row that probes a column fits the schema. -/
theorem probeRow_fits (ht : types[k]? = some t) (hv : v.FitsIn t) :
    RowFits types (probeRow types k v) := by
  refine List.forall₂_iff_get.mpr ⟨by simp [probeRow], fun n hn hn' _ => ?_⟩
  by_cases hnk : n = k
  · subst hnk
    obtain ⟨_, rfl⟩ := List.getElem?_eq_some_iff.mp ht
    simpa [probeRow] using hv
  · simp [probeRow, List.getElem_set_ne (Ne.symm hnk)]

variable [Runtime]

/-- A column of the row. -/
theorem evalCell_probeRow (hbuilder : ∀ t ∈ types, t.hasBuilder) (hi : i < types.length) :
    (Expression.column i).evalCell types (probeRow types k v) =
      .ok (if i = k then v else .null) := by
  have hcell : (probeRow types k v)[i]? = some (if i = k then v else .null) := by
    rw [probeRow, List.getElem?_set]
    split <;> split <;> simp_all
  generalize (if i = k then v else ScalarValue.null) = w at hcell ⊢
  simp only [Expression.evalCell, index_of_lt hi, index_eq_ok_iff.mpr hcell, Outcome.ok_bind]
  rw [if_pos (hbuilder _ (List.getElem_mem hi))]
  split
  · rename_i hnull
    rw [ScalarValue.isNull_iff.mp hnull]
    rfl
  · rfl

/-- A column of a group of such rows. -/
theorem mapM_evalCell_probeRow (hbuilder : ∀ t ∈ types, t.hasBuilder) (hi : i < types.length)
    (vs : List ScalarValue) :
    (vs.map (probeRow types k)).mapM (fun x => (Expression.column i).evalCell types x) =
      .ok (if i = k then vs else List.replicate vs.length .null) := by
  rw [List.mapM_map]
  refine (Outcome.mapM_eq_ok_map fun v _ => evalCell_probeRow hbuilder hi).trans ?_
  split <;> simp

end Probe

/-! ## Runs with one partial row -/

namespace HashAggregate

/-- Every expression is a column of rows that have these types. The columns can be read, and the
functions support their types (AVG, which has no partial output, none). -/
structure OverColumns (agg : HashAggregate) (types : List DataType) : Prop where
  columns : ∀ e ∈ agg.expressions, ∃ i, e = .column i
  hasBuilder : ∀ t ∈ types, t.hasBuilder
  typed : ∃ groupTypes inputTypes, agg.TypedOver types groupTypes inputTypes

variable {agg : HashAggregate} {types : List DataType}

/-- The functions support the types of their expressions. -/
theorem TypedOver.exists_supports {groupTypes inputTypes : List DataType}
    (hagg : agg.TypedOver types groupTypes inputTypes) {a : AggregateExpression}
    (ha : a ∈ agg.aggregateExpr) :
    ∃ t, a.inputExpression.dataType types = .ok t ∧ a.function.Supports t := by
  obtain ⟨j, hj⟩ := List.getElem?_of_mem ha
  obtain ⟨t, ht, htype⟩ := Outcome.mapM_getElem? hagg.input_types hj
  exact ⟨t, htype, (List.forall₂_iff_zip.mp hagg.supports).2
    (List.mem_of_getElem? (List.getElem?_zip_eq_some.mpr ⟨hj, ht⟩))⟩

/-- The expressions are columns in range. -/
theorem OverColumns.exists_column (h : agg.OverColumns types) {e : Expression}
    (he : e ∈ agg.expressions) : ∃ i t, e = .column i ∧ types[i]? = some t := by
  obtain ⟨i, rfl⟩ := h.columns e he
  obtain ⟨groupTypes, inputTypes, htyped⟩ := h.typed
  have htype : Outcome.Succeeds ((Expression.column i).dataType types) := by
    rcases List.mem_append.mp he with he | he
    · exact Outcome.mapM_succeeds_iff.mp ⟨_, htyped.group_types⟩ _ he
    · obtain ⟨a, ha, heq⟩ := List.mem_map.mp he
      rw [← heq]
      exact Outcome.mapM_succeeds_iff.mp ⟨_, htyped.input_types⟩ a ha
  obtain ⟨t, ht⟩ := htype
  exact ⟨i, t, rfl, index_eq_ok_iff.mp ht⟩

/-- The columns of the partial output are group values and aggregates of columns. -/
theorem OverColumns.overColumn (h : agg.OverColumns types) {content : PartialColumn}
    (hcontent : content ∈ agg.partialColumns) :
    ∃ i t, content.OverColumn types agg.groupExpr i t := by
  obtain ⟨groupTypes, inputTypes, htyped⟩ := h.typed
  rcases List.mem_append.mp hcontent with hmem | hmem
  · obtain ⟨e, he, rfl⟩ := List.mem_map.mp hmem
    obtain ⟨i, t, rfl, ht⟩ := h.exists_column (List.mem_append_left _ he)
    exact ⟨i, t, PartialColumn.OverColumn.of_key rfl ht he⟩
  · obtain ⟨a, ha, rfl⟩ := List.mem_map.mp hmem
    obtain ⟨i, t, hi, ht⟩ := h.exists_column (List.mem_append_right _ (List.mem_map_of_mem ha))
    have hmade : (a.inputExpression.madeOf agg.groupExpr : Prop) ↔ .column i ∈ agg.groupExpr := by
      rw [hi, Expression.madeOf, Bool.or_false, decide_eq_true_eq]
    refine ⟨i, t, ?_⟩
    unfold resultColumn
    -- The minimum or maximum of a key is the key again.
    split
    · rename_i hkey
      exact PartialColumn.OverColumn.of_key hi ht (hmade.mp hkey.2)
    · rename_i hkey
      rw [hmade] at hkey
      refine ⟨hi, ht, (by intro hf; cases hf), ?_, ?_⟩
      · rintro f hf
        obtain rfl := Option.some.inj hf
        obtain ⟨u, hu, hsupports⟩ := htyped.exists_supports ha
        rw [hi] at hu
        rwa [Option.some.inj (ht.symm.trans (index_eq_ok_iff.mp hu))]
      · intro hf hmem
        exact hkey ⟨hf.imp Option.some.inj Option.some.inj, hmem⟩

variable [Runtime]

/-- A group of rows with one key is the input of a run with one partial row. -/
theorem TypedOver.exists_partialRow {s : Schema} {groupTypes inputTypes : List DataType}
    (hagg : agg.TypedOver s.types groupTypes inputTypes) (hfields : agg.schema.fields ≠ [])
    {group : List Row} (hfits : ∀ r ∈ group, RowFits s.types r) (hne : group ≠ [])
    (hsmall : group.length < 2 ^ 31) {items : List Item} {key : GroupKey}
    (hitems : group.mapM (agg.readItem s.types) = .ok items) (hkey : ∀ x ∈ items, x.1 = key) :
    ∃ (c : RecordBatch) (r : Row), c.schema = agg.schema ∧ c.rows = [r] ∧
      agg.OutputsPartially s.types r ∧
      ∀ (p : ℕ) (content : PartialColumn), agg.partialColumns[p]? = some content →
        ∃ v, r[p]? = some v ∧ content.Yields s.types group v := by
  have hlen : ∀ x ∈ items, x.2.length = agg.aggregateExpr.length := by
    intro x hx
    obtain ⟨row, -, hrow⟩ := Outcome.mapM_mem hitems hx
    exact (readItem_lengths hrow).2
  have hitemslen := Outcome.mapM_length hitems
  have hkeys : groupKeys items = [key] := by
    refine KeyedFold.firstKeys_of_forall_eq (by simpa using hkey) ?_
    rw [ne_eq, List.map_eq_nil_iff, ← List.length_eq_zero_iff, hitemslen, List.length_eq_zero_iff]
    exact hne
  have hvalues : KeyedFold.valuesOf items key = items.map Prod.snd := by
    rw [KeyedFold.valuesOf, List.filter_eq_self.mpr (by simpa using hkey)]
  have hsmall' : ∀ k, (KeyedFold.valuesOf items k).length < 2 ^ 31 := by
    intro k
    rw [KeyedFold.valuesOf, List.length_map]
    exact (List.length_filter_le _ _).trans_lt (hitemslen.trans_lt hsmall)
  obtain ⟨row, hcomplete, -, hrowfits⟩ := hagg.groupRow (hagg.item_fits hfits hitems) hsmall'
    (hkeys ▸ List.mem_singleton_self key)
  have hrow : agg.groupRow .partialMode items key = .ok row := by
    refine (groupRow_partialMode hlen fun i a ha havg => ?_).mpr hcomplete
    obtain ⟨t, -, ht⟩ := hagg.exists_supports (List.mem_of_getElem? ha)
    rw [havg] at ht
    exact ht.elim
  have hrows : agg.outputRows .partialMode items = .ok [row] := by
    rw [HashAggregate.outputRows, hkeys]
    exact Outcome.mapM_singleton_eq_ok_iff.mpr ⟨row, hrow, rfl⟩
  have hbuild : Builds agg.schema [row] :=
    ⟨hfields, hagg.schema_hasBuilder, by simpa using hrowfits⟩
  let b := RecordBatch.ofRows s group hfits
  have hb : rowsOf [b] = group := by
    rw [rowsOf, List.flatMap_singleton]
    exact RecordBatch.ofRows_rows s group hfits
  have hschemas : ∀ b' ∈ [b], b'.schema = s := by
    intro b' hb'
    rw [List.mem_singleton.mp hb']
    rfl
  obtain ⟨xs, hxs, rfl⟩ := hagg.readBatches hschemas (hb.symm ▸ hitems)
  obtain ⟨out, hout, hschema, hperm⟩ :=
    run_succeeds (Outcome.mapM_id_map_ok [b]) hxs hrows hbuild
  have houtrows := List.perm_singleton.mp hperm
  obtain ⟨outs, rfl, -, houts⟩ := (groupRow_eq_ok_iff hlen).mp hrow
  rw [hvalues] at houts
  refine ⟨out, key ++ outs, hschema, houtrows, ⟨[b], out, ?_, hout, ?_⟩, fun p content hp =>
    yields_of_groupRow hne hitems hkey houts hp⟩
  · intro b' hb'
    rw [b'.types_eq_schema, hschemas b' hb']
  · rw [houtrows]
    exact List.mem_singleton_self _

/-- What the column has for a group is the fold of its expression's values. -/
theorem folds_of_yields {group : List Row} {content : PartialColumn} {vs : List ScalarValue}
    {v : ScalarValue} (hvs : group.mapM (fun x => content.expression.evalCell types x) = .ok vs)
    (h : content.Yields types group v) : content.Folds vs v := by
  cases content with
  | key e =>
    intro w hw
    obtain ⟨x, hx, hxw⟩ := Outcome.mapM_mem hvs hw
    exact Except.ok.inj (hxw.symm.trans (h x hx))
  | result a =>
    obtain ⟨vs', hvs', hv⟩ := h
    obtain rfl : vs' = vs := Except.ok.inj (hvs'.symm.trans hvs)
    exact hv

/-- The rows that are null but for one column are read as keyed rows. They have one key if that
column is not a group value, or they are all the same. -/
theorem OverColumns.exists_items (h : agg.OverColumns types) {k : ℕ} {vs : List ScalarValue}
    (hkeys : .column k ∈ agg.groupExpr → ∀ v ∈ vs, ∀ w ∈ vs, v = w) :
    ∃ items : List Item, (vs.map (probeRow types k)).mapM (agg.readItem types) = .ok items ∧
      ∀ x ∈ items, ∀ y ∈ items, x.1 = y.1 := by
  have hcell : ∀ e ∈ agg.expressions, ∀ v,
      Outcome.Succeeds (e.evalCell types (probeRow types k v)) := by
    intro e he v
    obtain ⟨i, u, rfl, hu⟩ := h.exists_column he
    exact ⟨_, evalCell_probeRow h.hasBuilder (List.getElem?_eq_some_iff.mp hu).1⟩
  obtain ⟨items, hitems⟩ : Outcome.Succeeds
      ((vs.map (probeRow types k)).mapM (agg.readItem types)) := by
    refine Outcome.mapM_succeeds_iff.mpr fun x hx => ?_
    obtain ⟨v, -, rfl⟩ := List.mem_map.mp hx
    obtain ⟨key, hkey⟩ := Outcome.mapM_succeeds_iff.mpr fun e he =>
      hcell e (List.mem_append_left _ he) v
    obtain ⟨args, hargs⟩ := Outcome.mapM_succeeds_iff.mpr fun a ha =>
      hcell _ (List.mem_append_right _ (List.mem_map_of_mem ha)) v
    exact ⟨(key, args), by rw [readItem, hkey, Outcome.ok_bind, hargs]; rfl⟩
  have hrow : ∀ x ∈ items, ∃ v ∈ vs, agg.groupExpr.mapM
      (fun e => e.evalCell types (probeRow types k v)) = .ok x.1 := by
    intro x hx
    obtain ⟨row, hrow, hread⟩ := Outcome.mapM_mem hitems hx
    obtain ⟨v, hv, rfl⟩ := List.mem_map.mp hrow
    obtain ⟨key, hkey, hread⟩ := Outcome.bind_eq_ok_iff.mp hread
    obtain ⟨args, -, rfl⟩ := Outcome.bind_pure_eq_ok_iff.mp hread
    exact ⟨v, hv, hkey⟩
  refine ⟨items, hitems, ?_⟩
  intro x hx y hy
  obtain ⟨v, hv, hxv⟩ := hrow x hx
  obtain ⟨w, hw, hyw⟩ := hrow y hy
  rw [← Except.ok.injEq (ε := Panic), ← hxv, ← hyw]
  refine Outcome.mapM_congr fun e he => ?_
  obtain ⟨i, u, rfl, hu⟩ := h.exists_column (List.mem_append_left _ he)
  have hi := (List.getElem?_eq_some_iff.mp hu).1
  rw [evalCell_probeRow h.hasBuilder hi, evalCell_probeRow h.hasBuilder hi]
  by_cases hik : i = k
  · subst hik
    rw [hkeys he v hv w hw]
  · rw [if_neg hik, if_neg hik]

/-- The rows that are null but for one column are the group of a partial row. -/
theorem OverColumns.exists_partialRow (h : agg.OverColumns types)
    (hfields : agg.schema.fields ≠ []) {k : ℕ} {t : DataType} {vs : List ScalarValue}
    (ht : types[k]? = some t) (hfits : ∀ v ∈ vs, v.FitsIn t) (hne : vs ≠ []) (hlen : vs.length ≤ 2)
    (hkeys : .column k ∈ agg.groupExpr → ∀ v ∈ vs, ∀ w ∈ vs, v = w) :
    ∃ (c : RecordBatch) (r : Row), c.schema = agg.schema ∧ c.rows = [r] ∧
      agg.OutputsPartially types r ∧
      ∀ (p : ℕ) (content : PartialColumn), agg.partialColumns[p]? = some content →
        ∃ v, r[p]? = some v ∧ content.Folds
          (if content.expression = .column k then vs else List.replicate vs.length .null) v := by
  obtain ⟨s, rfl⟩ : ∃ s : Schema, s.types = types :=
    ⟨⟨types.map fun t => ⟨"", t⟩⟩, by simp [Schema.types, Function.comp_def]⟩
  obtain ⟨groupTypes, inputTypes, htyped⟩ := h.typed
  obtain ⟨items, hitems, hkey⟩ := h.exists_items hkeys
  have hgroup : vs.map (probeRow s.types k) ≠ [] := by simpa using hne
  obtain ⟨x₀, hx₀⟩ : ∃ x₀, x₀ ∈ items := by
    refine List.exists_mem_of_ne_nil _ fun hnil => hgroup (List.length_eq_zero_iff.mp ?_)
    rw [← Outcome.mapM_length hitems, hnil, List.length_nil]
  obtain ⟨c, r, hschema, hrows, hout, hyields⟩ := htyped.exists_partialRow hfields
    (fun row hrow => by
      obtain ⟨v, hv, rfl⟩ := List.mem_map.mp hrow
      exact probeRow_fits ht (hfits v hv))
    hgroup (by rw [List.length_map]; omega) hitems fun x hx => hkey x hx x₀ hx₀
  refine ⟨c, r, hschema, hrows, hout, fun p content hp => ?_⟩
  obtain ⟨v, hv, hyields⟩ := hyields p content hp
  refine ⟨v, hv, folds_of_yields ?_ hyields⟩
  -- The column holds the fold of the values its expression reads, which are the probed ones or
  -- nulls.
  obtain ⟨i, u, hcontent⟩ := h.overColumn (List.mem_of_getElem? hp)
  rw [hcontent.expression_eq, mapM_evalCell_probeRow h.hasBuilder
    (List.getElem?_eq_some_iff.mp hcontent.type).1]
  simp only [Expression.column.injEq]

end HashAggregate

/-- What a column reads in a row is the cell of the row. -/
theorem Expression.getElem?_of_evalCell [Runtime] {types : List DataType} {r : Row} {m : ℕ}
    {v : ScalarValue} (h : (Expression.column m).evalCell types r = .ok v) : r[m]? = some v := by
  obtain ⟨t, -, h⟩ := Outcome.bind_eq_ok_iff.mp h
  obtain ⟨w, hw, h⟩ := Outcome.bind_eq_ok_iff.mp h
  rw [index_eq_ok_iff.mp hw]
  split at h
  · rename_i hnull
    rw [ScalarValue.isNull_iff.mp hnull, Except.ok.inj h]
  · split at h
    · rw [Except.ok.inj h]
    · cases h

/-- A column that is read as the cell at position `p + i` of a row is the same as that cell. -/
theorem ReadsCells.getElem? [Runtime] {c : RecordBatch} {r : Row} {es : List Expression} {p n : ℕ}
    (h : ReadsCells c es p n) (hrows : c.rows = [r]) {i m : ℕ} (hi : es[i]? = some (.column m))
    (hn : i < n) : ∃ v, r[m]? = some v ∧ r[p + i]? = some v := by
  have hnum : c.numRows = 1 := by
    rw [← c.rows_length, hrows, List.length_singleton]
  have hr : c.row 0 = r := by
    have hrow := c.rows_getElem? (i := 0) (by omega)
    rw [hrows] at hrow
    exact (Option.some.inj hrow).symm
  obtain ⟨cols, hcols, hvalues⟩ := h 0 (by omega)
  rw [hr] at hvalues
  obtain ⟨col, hcol, hcolumn⟩ := Outcome.mapM_getElem? hcols hi
  obtain ⟨v, hv, hvalue⟩ := Outcome.mapM_getElem? hvalues hcol
  rw [List.getElem?_take_of_lt hn, List.getElem?_drop] at hv
  refine ⟨v, ?_, hv⟩
  obtain ⟨t, ht, hcomputes⟩ := Expression.evaluate_computes hcolumn
  rw [hcomputes.value_eq 0 (by omega), hr] at hvalue
  exact Expression.getElem?_of_evalCell hvalue

namespace HashAggregate

variable [Runtime] {agg : HashAggregate} {types : List DataType}

omit [Runtime] in
/-- The aggregate's schema has a field for each column of the partial output. -/
theorem OverColumns.schema_length (h : agg.OverColumns types) :
    agg.schema.types.length = agg.partialColumns.length := by
  obtain ⟨groupTypes, inputTypes, htyped⟩ := h.typed
  have hinputs : inputTypes.length = agg.aggregateExpr.length :=
    Outcome.mapM_length htyped.input_types
  rw [htyped.schema_types, partialColumns, List.length_append, List.length_append,
    List.length_zipWith, List.length_map, List.length_map, hinputs, min_self,
    Outcome.mapM_length htyped.group_types]

/-- An expression that is read as the cell of its position in every run with one partial row
addresses the column of its position. -/
theorem OverColumns.addressesColumn (h : agg.OverColumns types) {e : Expression} {p : ℕ}
    (he : e ∈ agg.expressions) (hp : p < agg.partialColumns.length)
    (hread : ∀ (c : RecordBatch) (r : Row), c.schema = agg.schema → c.rows = [r] →
      agg.OutputsPartially types r → ∀ m, e = .column m → ∃ v, r[m]? = some v ∧ r[p]? = some v) :
    agg.AddressesColumn types e p := by
  -- The expression reads a column of the partial output, since a probe row has a cell there.
  obtain ⟨m, t, rfl, ht⟩ := h.exists_column he
  have hfields : agg.schema.fields ≠ [] := by
    intro hnil
    rw [← h.schema_length, Schema.types, hnil] at hp
    cases hp
  have hm : m < agg.partialColumns.length := by
    have hnull : ∀ v ∈ [ScalarValue.null], v.FitsIn t := by simp
    obtain ⟨c, r, hschema, hrows, hout, -⟩ :=
      h.exists_partialRow hfields ht hnull (by simp) (by simp) (by simp)
    obtain ⟨v, hv, -⟩ := hread c r hschema hrows hout m rfl
    have hfits := c.rows_fit r (hrows ▸ List.mem_singleton_self r)
    rw [← h.schema_length, ← hschema, hfits.length_eq]
    exact (List.getElem?_eq_some_iff.mp hv).1
  refine .inl ⟨m, agg.partialColumns[m], rfl, List.getElem?_eq_getElem hm, ?_⟩
  rw [List.getElem?_eq_getElem hp]
  obtain ⟨i, u, hc⟩ := h.overColumn (List.getElem_mem hm)
  obtain ⟨j, u', hd⟩ := h.overColumn (List.getElem_mem hp)
  refine congrArg some (PartialColumn.eq_of_sameOn hc hd h.hasBuilder ?_).symm
  intro k t vs ht hfits hne hlen hkeys
  obtain ⟨c, r, hschema, hrows, hout, hfolds⟩ :=
    h.exists_partialRow hfields ht hfits hne hlen hkeys
  obtain ⟨v, hv, hv'⟩ := hread c r hschema hrows hout m rfl
  obtain ⟨w, hw, hfold⟩ := hfolds m _ (List.getElem?_eq_getElem hm)
  obtain ⟨w', hw', hfold'⟩ := hfolds p _ (List.getElem?_eq_getElem hp)
  rw [hv] at hw
  rw [hv'] at hw'
  obtain rfl := Option.some.inj hw
  obtain rfl := Option.some.inj hw'
  exact ⟨v, hfold, hfold'⟩

end HashAggregate

/-- The stages that `planAggregate` builds address the partial output in every run, if the positions
of the aggregate's expressions coincide. For an aggregate over columns this is the only case. -/
theorem planAggregate_addresses_iff [Runtime] (agg : HashAggregate) (types : List DataType)
    (planner : DistributedPlanner) (input : PhysicalPlan) (jobUuid : String) :
    (agg.StageExpressionsAddress types →
      AddressPartialOutput types (planner.planAggregate input agg jobUuid)) ∧
    (agg.OverColumns types →
      (AddressPartialOutput types (planner.planAggregate input agg jobUuid) ↔
        agg.StageExpressionsAddress types)) := by
  refine ⟨fun h => planAggregate_addresses h planner input jobUuid,
    fun hover => ⟨fun h => ?_, fun h => planAggregate_addresses h planner input jobUuid⟩⟩
  have hlen : agg.partialColumns.length = agg.groupExpr.length + agg.aggregateExpr.length := by
    simp [HashAggregate.partialColumns]
  -- A single partial row is enough: the stage reads its cells at the right places.
  have h : ∀ (c : RecordBatch) (r : Row), c.schema = agg.schema → c.rows = [r] →
      agg.OutputsPartially types r →
      ReadsCells c agg.groupExpr 0 agg.groupExpr.length ∧
        ReadsCells c (agg.aggregateExpr.map AggregateExpression.inputExpression)
          agg.groupExpr.length agg.aggregateExpr.length := by
    intro c r hschema hrows hout
    obtain ⟨hgroup, -, -, haggregate⟩ := h c hschema (by simpa [hrows] using hout)
    exact ⟨hgroup, haggregate⟩
  constructor
  · intro i e he
    have hi := (List.getElem?_eq_some_iff.mp he).1
    refine hover.addressesColumn (List.mem_append_left _ (List.mem_of_getElem? he)) (by omega) ?_
    rintro c r hschema hrows hout m rfl
    simpa using (h c r hschema hrows hout).1.getElem? hrows he hi
  · intro j a ha
    have hj := (List.getElem?_eq_some_iff.mp ha).1
    have hmem : a.inputExpression ∈ agg.expressions :=
      List.mem_append_right _ (List.mem_map_of_mem (List.mem_of_getElem? ha))
    refine hover.addressesColumn hmem (by omega) ?_
    intro c r hschema hrows hout m hm
    have hget : (agg.aggregateExpr.map AggregateExpression.inputExpression)[j]? =
        some (.column m) := by
      rw [List.getElem?_map, ha, Option.map_some, hm]
    exact (h c r hschema hrows hout).2.getElem? hrows hget hj

end

/-! ## Two aggregations of one table -/

section

attribute [local instance] integerFloats insertionOrderRuntime

/-- The columns `amount` and `region`. -/
def sales : RecordBatch where
  schema := ⟨[⟨"amount", .int64⟩, ⟨"region", .int64⟩]⟩
  columns := [⟨.int64, [.int64 10, .int64 20], by decide⟩, ⟨.int64, [.int64 1, .int64 2], by decide⟩]
  numRows := 2
  types_eq := by decide
  lengths := by decide

/-- `SUM(amount)` by region: the group column is the second one of the table and the first one of
the partial output. -/
def amountByRegion : HashAggregate where
  groupExpr := [.column 1]
  aggregateExpr := [SumExpression (.column 0)]
  schema := ⟨[⟨"region", .int64⟩, ⟨"SUM", .int64⟩]⟩

/-- The partial output of `amountByRegion`. -/
def regionAmounts : RecordBatch where
  schema := amountByRegion.schema
  columns := [⟨.int64, [.int64 1, .int64 2], by decide⟩, ⟨.int64, [.int64 10, .int64 20], by decide⟩]
  numRows := 2
  types_eq := by decide
  lengths := by decide

/-- `SUM(region)` and the largest amount by amount: all columns are where the table has them. -/
def regionsByAmount : HashAggregate where
  groupExpr := [.column 0]
  aggregateExpr := [SumExpression (.column 1), MaxExpression (.column 0)]
  schema := ⟨[⟨"amount", .int64⟩, ⟨"SUM", .int64⟩, ⟨"MAX", .int64⟩]⟩

/-- The condition for an aggregation by amounts. -/
theorem planAggregate_addresses_byAmount :
    AddressPartialOutput sales.types
      (DistributedPlanner.planAggregate ⟨⟨[⟨"executor-0", "localhost", 50051⟩], 0⟩⟩
        (.inMemory sales.schema [sales]) regionsByAmount "job") ∧
      regionsByAmount.StageExpressionsAddress sales.types := by
  have hover : regionsByAmount.OverColumns sales.types := by
    refine ⟨?_, by decide, [.int64], [.int64, .int64], rfl, rfl, by decide, ?_, rfl⟩
    · simp [regionsByAmount, HashAggregate.expressions]
    · exact .cons rfl (.cons ⟨rfl, rfl⟩ .nil)
  have haddress : regionsByAmount.StageExpressionsAddress sales.types := by
    refine ⟨?_, ?_⟩
    · rintro (_ | i) e he
      · obtain rfl := Option.some.inj he
        exact .inl ⟨0, _, rfl, rfl, rfl⟩
      · cases he
    · rintro (_ | _ | j) a ha
      · obtain rfl := Option.some.inj ha
        exact .inl ⟨1, _, rfl, rfl, rfl⟩
      · obtain rfl := Option.some.inj ha
        exact .inl ⟨0, _, rfl, rfl, rfl⟩
      · cases ha
  obtain ⟨hsufficient, hexact⟩ := planAggregate_addresses_iff regionsByAmount sales.types
    ⟨⟨[⟨"executor-0", "localhost", 50051⟩], 0⟩⟩ (.inMemory sales.schema [sales]) "job"
  exact ⟨hsufficient haddress, (hexact hover).mp (hsufficient haddress)⟩

/-- The rows of the regions are partitioned by their sums. -/
theorem amountByRegion_not_addresses :
    ¬ AddressPartialOutput sales.types
      (DistributedPlanner.planAggregate ⟨⟨[⟨"executor-0", "localhost", 50051⟩], 0⟩⟩
        (.inMemory sales.schema [sales]) amountByRegion "job") := by
  intro h
  have hrun : amountByRegion.run .partialMode ([sales].map .ok) = .ok regionAmounts := by decide
  have hsales : ∀ b ∈ [sales], b.types = sales.types := by simp
  obtain ⟨hgroup, -⟩ := h regionAmounts rfl fun r hr => ⟨[sales], regionAmounts, hsales, hrun, hr⟩
  obtain ⟨cols, hcols, hvalues⟩ := hgroup 0 (by decide)
  obtain rfl := Except.ok.inj hcols
  exact absurd hvalues (by decide)

end

end RQuery
