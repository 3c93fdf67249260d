import RQuery.Physical.Accumulator
import RQuery.Common.PartialFold

/-!
# Merging partial aggregates

Over values that are not floats SUM, MIN, MAX and COUNT are folds of a partial commutative monoid:
`Accumulates` names the monoid of each. So the values of a group may be cut into chunks, aggregated
chunk by chunk and merged (`aggregate_merge`). AVG takes part only where its values are all null:
its intermediate state cannot be output.
-/

namespace RQuery

/-! ## Choosing by an order -/

/-- The operand that compares to the other as `o`; the left one of equal operands. -/
def pickOf {α : Type} [Ord α] (o : Ordering) (x y : α) : α :=
  if compare y x = o then y else x

open Std in
/-- The better of two values is the same in either order. -/
theorem pickOf_comm {α : Type} [Ord α] [TransOrd α] [LawfulEqOrd α] {o : Ordering} (ho : o ≠ .eq)
    (x y : α) : pickOf o x y = pickOf o y x := by
  unfold pickOf
  rw [OrientedOrd.eq_swap (a := x) (b := y)]
  cases h : compare y x with
  | eq =>
    obtain rfl := compare_eq_iff_eq.mp h
    rfl
  | lt => cases o <;> simp_all
  | gt => cases o <;> simp_all

open Std in
/-- The best of three values is the same however they are paired. -/
theorem pickOf_assoc {α : Type} [Ord α] [TransOrd α] {o : Ordering} (ho : o ≠ .eq) (x y z : α) :
    pickOf o (pickOf o x y) z = pickOf o x (pickOf o y z) := by
  have htrans : compare z y = o → compare y x = o → compare z x = o := by
    cases o with
    | eq => exact absurd rfl ho
    | lt => exact TransCmp.lt_trans
    | gt => exact TransCmp.gt_trans
  have hntrans : compare z y ≠ o → compare y x ≠ o → compare z x ≠ o := by
    cases o with
    | eq => exact absurd rfl ho
    | lt => simpa only [ne_eq, ← Ordering.isGE_iff_ne_lt] using TransCmp.isGE_trans
    | gt => simpa only [ne_eq, ← Ordering.isLE_iff_ne_gt] using TransCmp.isLE_trans
  unfold pickOf
  by_cases hyx : compare y x = o <;> by_cases hzy : compare z y = o <;> simp [hyx, hzy]
  · exact fun h => absurd (htrans hzy hyx) h
  · exact fun h => absurd h (hntrans hzy hyx)

/-- The floating-point types, whose sums depend on the order of the summands. -/
def DataType.isFloat : DataType → Bool
  | float32 | float64 => true
  | _ => false

variable [FloatModel]

/-- A cell that is not a float. -/
def ScalarValue.IsExact (v : ScalarValue) : Prop := v.dataType.isFloat = false

/-- A value of a type without floats is exact. -/
theorem ScalarValue.FitsIn.isExact {v : ScalarValue} {t : DataType} (h : v.FitsIn t)
    (ht : t.isFloat = false) : v.IsExact := by
  rcases h with rfl | rfl
  · rfl
  · exact ht

/-! ## Operations that ignore null -/

namespace ScalarValue

/-- Null is the unit of the operation. -/
def withNull (f : ScalarValue → ScalarValue → Result ScalarValue) (a b : ScalarValue) :
    Result ScalarValue :=
  if b.isNull then .ok a else if a.isNull then .ok b else f a b

/-- The payloads of the values of one type. -/
structure Variant (t : DataType) (α : Type) where
  inj : α → ScalarValue
  dataType_inj : ∀ x, (inj x).dataType = t
  exists_inj : ∀ a, a.dataType = t → ∃ x, inj x = a

/-- The operation acts on the values of type `t` as a commutative semigroup. -/
def ActsOn (f : ScalarValue → ScalarValue → Result ScalarValue) (t : DataType) : Prop :=
  ∃ (α : Type) (V : Variant t α) (g : α → α → α),
    (∀ x y, f (V.inj x) (V.inj y) = .ok (V.inj (g x y))) ∧ (∀ x y, g x y = g y x) ∧
      ∀ x y z, g (g x y) z = g x (g y z)

/-- The operation is defined on pairs of values of one type only, on all of them or on none. -/
structure Typed (f : ScalarValue → ScalarValue → Result ScalarValue) : Prop where
  dataType_eq : ∀ {a b c}, f a b = .ok c → a.dataType = b.dataType
  not_null : ∀ {a b c}, f a b = .ok c → a ≠ null
  actsOn : ∀ {a b c}, f a b = .ok c → a.IsExact → ActsOn f a.dataType

variable {f : ScalarValue → ScalarValue → Result ScalarValue}

/-- A typed operation returns a value of the type of its operands. -/
theorem Typed.result_type (hf : Typed f) {a b c : ScalarValue} (ha : a.IsExact)
    (h : f a b = .ok c) : c.dataType = a.dataType := by
  obtain ⟨α, V, g, hg, -, -⟩ := hf.actsOn h ha
  obtain ⟨x, hx⟩ := V.exists_inj a rfl
  obtain ⟨y, hy⟩ := V.exists_inj b (hf.dataType_eq h).symm
  rw [← hx, ← hy, hg] at h
  cases h
  exact V.dataType_inj _

/-- Only null has the type of nulls. -/
theorem eq_null_of_dataType {v : ScalarValue} (h : v.dataType = .null) : v = null := by
  cases v <;> first | rfl | cases h

/-- Values that are not null are combined. -/
theorem withNull_of_ne {a b : ScalarValue} (ha : a ≠ null) (hb : b ≠ null) :
    withNull f a b = f a b := by
  simp [withNull, ha, hb]

/-- Null on the right changes nothing. -/
@[simp] theorem withNull_null (a : ScalarValue) : withNull f a null = .ok a := by
  simp [withNull]

/-- Nor does null on the left. -/
@[simp] theorem null_withNull (b : ScalarValue) : withNull f null b = .ok b := by
  cases b <;> rfl

/-- A combination fits only the types that its operands fit. -/
theorem Typed.withNull_fitsIn (hf : Typed f) {a b c : ScalarValue} (ha : a.IsExact)
    (h : withNull f a b = .ok c) {t : DataType} (hc : c.FitsIn t) : a.FitsIn t := by
  by_cases han : a = null
  · exact .inl han
  · by_cases hbn : b = null
    · obtain rfl : a = c := by simpa [hbn] using h
      exact hc
    · rw [withNull_of_ne han hbn] at h
      have htype := hf.result_type ha h
      refine .inr (htype ▸ hc.dataType_eq ?_)
      rintro rfl
      exact han (eq_null_of_dataType htype.symm)

/-- A typed operation does not return null. -/
theorem Typed.ne_null (hf : Typed f) {a b c : ScalarValue} (ha : a.IsExact)
    (h : f a b = .ok c) : c ≠ null := by
  rintro rfl
  exact hf.not_null h (eq_null_of_dataType (hf.result_type ha h).symm)

/-- A typed operation commutes where it is defined. -/
theorem Typed.comm (hf : Typed f) {a b c : ScalarValue} (ha : a.IsExact) (h : f a b = .ok c) :
    f b a = .ok c := by
  obtain ⟨α, V, g, hg, hcomm, -⟩ := hf.actsOn h ha
  obtain ⟨x, hx⟩ := V.exists_inj a rfl
  obtain ⟨y, hy⟩ := V.exists_inj b (hf.dataType_eq h).symm
  rw [← h, ← hx, ← hy, hg, hg, hcomm]

/-- A typed operation associates where it is defined. -/
theorem Typed.assoc (hf : Typed f) {a b c x d : ScalarValue} (ha : a.IsExact)
    (hx : f a b = .ok x) (hd : f x c = .ok d) : ∃ y, f b c = .ok y ∧ f a y = .ok d := by
  have htype := hf.result_type ha hx
  obtain ⟨α, V, g, hg, -, hassoc⟩ := hf.actsOn hx ha
  obtain ⟨a', ha'⟩ := V.exists_inj a rfl
  obtain ⟨b', hb'⟩ := V.exists_inj b (hf.dataType_eq hx).symm
  obtain ⟨c', hc'⟩ := V.exists_inj c (by rw [← hf.dataType_eq hd, htype])
  rw [← ha', ← hb', hg] at hx
  cases hx
  have h : f (V.inj a') (V.inj (g b' c')) = .ok d := by
    rw [hg, ← hassoc, ← hg, hc', hd]
  exact ⟨V.inj (g b' c'), by rw [← hb', ← hc', hg], by rwa [ha'] at h⟩

/-- With null as unit, a typed operation is a partial commutative monoid on exact values. -/
theorem Typed.commMonoidOn (hf : Typed f) :
    PartialFold.CommMonoidOn IsExact null (withNull f) where
  unit_mem := rfl
  closed {a b c} ha hb h := by
    unfold withNull at h
    split at h
    · cases h
      exact ha
    · split at h
      · cases h
        exact hb
      · exact (congrArg DataType.isFloat (hf.result_type ha h)).trans ha
  unit_op _ := null_withNull _
  -- A null is neutral, so only values on both sides have to commute.
  comm {a b c} ha hb h := by
    by_cases han : a = null
    · subst han
      simpa using h
    · by_cases hbn : b = null
      · subst hbn
        simpa using h
      · rw [withNull_of_ne han hbn] at h
        rw [withNull_of_ne hbn han]
        exact hf.comm ha h
  assoc {a b c x d} ha hb hc hx hd := by
    -- A null among the three leaves an operation on the other two.
    by_cases han : a = null
    · subst han
      obtain rfl : b = x := by simpa using hx
      exact ⟨d, hd, by simp⟩
    · by_cases hbn : b = null
      · subst hbn
        obtain rfl : a = x := by simpa using hx
        exact ⟨c, by simp, hd⟩
      · by_cases hcn : c = null
        · subst hcn
          obtain rfl : x = d := by simpa using hd
          exact ⟨b, by simp, hx⟩
        · rw [withNull_of_ne han hbn] at hx
          rw [withNull_of_ne (hf.ne_null ha hx) hcn] at hd
          obtain ⟨y, hy, hd⟩ := hf.assoc ha hx hd
          have hyn := hf.ne_null hb hy
          exact ⟨y, by rwa [withNull_of_ne hbn hcn], by rwa [withNull_of_ne han hyn]⟩

/-! ## Addition and order -/

def int8Variant : Variant .int8 Int8 :=
  ⟨int8, fun _ => rfl, fun a h => by cases a <;> first | exact ⟨_, rfl⟩ | cases h⟩

def int16Variant : Variant .int16 Int16 :=
  ⟨int16, fun _ => rfl, fun a h => by cases a <;> first | exact ⟨_, rfl⟩ | cases h⟩

def int32Variant : Variant .int32 Int32 :=
  ⟨int32, fun _ => rfl, fun a h => by cases a <;> first | exact ⟨_, rfl⟩ | cases h⟩

def int64Variant : Variant .int64 Int64 :=
  ⟨int64, fun _ => rfl, fun a h => by cases a <;> first | exact ⟨_, rfl⟩ | cases h⟩

def uint8Variant : Variant .uint8 UInt8 :=
  ⟨uint8, fun _ => rfl, fun a h => by cases a <;> first | exact ⟨_, rfl⟩ | cases h⟩

def uint16Variant : Variant .uint16 UInt16 :=
  ⟨uint16, fun _ => rfl, fun a h => by cases a <;> first | exact ⟨_, rfl⟩ | cases h⟩

def uint32Variant : Variant .uint32 UInt32 :=
  ⟨uint32, fun _ => rfl, fun a h => by cases a <;> first | exact ⟨_, rfl⟩ | cases h⟩

def uint64Variant : Variant .uint64 UInt64 :=
  ⟨uint64, fun _ => rfl, fun a h => by cases a <;> first | exact ⟨_, rfl⟩ | cases h⟩

def utf8Variant : Variant .utf8 String :=
  ⟨utf8, fun _ => rfl, fun a h => by cases a <;> first | exact ⟨_, rfl⟩ | cases h⟩

def date32Variant : Variant .date32 Int32 :=
  ⟨date32, fun _ => rfl, fun a h => by cases a <;> first | exact ⟨_, rfl⟩ | cases h⟩

/-- `scalar_add` adds integers of one width. -/
theorem scalarAdd_typed : Typed scalarAdd where
  dataType_eq {a b c} h := by
    unfold scalarAdd at h
    split at h <;> first | rfl | cases h
  not_null {a b c} h := by
    rintro rfl
    cases h
  actsOn {a b c} h ha := by
    unfold scalarAdd at h
    -- The arms of the source, one for each width; floats are excluded as inexact.
    split at h
    · exact ⟨_, int8Variant, (· + ·), fun _ _ => rfl, Int8.add_comm, Int8.add_assoc⟩
    · exact ⟨_, int16Variant, (· + ·), fun _ _ => rfl, Int16.add_comm, Int16.add_assoc⟩
    · exact ⟨_, int32Variant, (· + ·), fun _ _ => rfl, Int32.add_comm, Int32.add_assoc⟩
    · exact ⟨_, int64Variant, (· + ·), fun _ _ => rfl, Int64.add_comm, Int64.add_assoc⟩
    · exact ⟨_, uint8Variant, (· + ·), fun _ _ => rfl, UInt8.add_comm, UInt8.add_assoc⟩
    · exact ⟨_, uint16Variant, (· + ·), fun _ _ => rfl, UInt16.add_comm, UInt16.add_assoc⟩
    · exact ⟨_, uint32Variant, (· + ·), fun _ _ => rfl, UInt32.add_comm, UInt32.add_assoc⟩
    · exact ⟨_, uint64Variant, (· + ·), fun _ _ => rfl, UInt64.add_comm, UInt64.add_assoc⟩
    · cases ha
    · cases ha
    · cases h

/-- The value that replaces `current` in MIN (`o` is `lt`) and MAX (`o` is `gt`). -/
def pick (o : Ordering) (current v : ScalarValue) : Result ScalarValue := do
  return if ← v.comparesAs o current then v else current

/-- Picking the better of two values of a type is picking the better of what they hold. -/
theorem pick_inj {t : DataType} {α : Type} [Ord α] (V : Variant t α) (o : Ordering)
    (h : ∀ x y, cmpScalar (V.inj x) (V.inj y) = .ok (some (compare x y))) (x y : α) :
    pick o (V.inj x) (V.inj y) = .ok (V.inj (pickOf o x y)) := by
  unfold pick comparesAs pickOf
  rw [h]
  cases compare y x <;> cases o <;> rfl

/-- MIN and MAX compare values of one type. -/
theorem pick_typed {o : Ordering} (ho : o ≠ .eq) : Typed (pick o) where
  dataType_eq {a b c} h := by
    obtain ⟨_, h, -⟩ := Outcome.bind_eq_ok_iff.mp h
    obtain ⟨_, h, -⟩ := Outcome.bind_eq_ok_iff.mp h
    unfold cmpScalar at h
    split at h <;> first | rfl | cases h
  not_null {a b c} h := by
    rintro rfl
    obtain ⟨_, h, -⟩ := Outcome.bind_eq_ok_iff.mp h
    obtain ⟨_, h, -⟩ := Outcome.bind_eq_ok_iff.mp h
    unfold cmpScalar at h
    split at h <;> contradiction
  actsOn {a b c} h ha := by
    have hact : ∀ {t : DataType} {α : Type} [Ord α] [Std.TransOrd α] [Std.LawfulEqOrd α]
        (V : Variant t α), (∀ x y, cmpScalar (V.inj x) (V.inj y) = .ok (some (compare x y))) →
        ActsOn (pick o) t := fun V hV =>
      ⟨_, V, pickOf o, pick_inj V o hV, pickOf_comm ho, pickOf_assoc ho⟩
    obtain ⟨_, h, -⟩ := Outcome.bind_eq_ok_iff.mp h
    obtain ⟨_, h, -⟩ := Outcome.bind_eq_ok_iff.mp h
    unfold cmpScalar at h
    -- The types that compare by a total order; floats are excluded as inexact.
    split at h
    · exact hact int8Variant fun _ _ => rfl
    · exact hact int16Variant fun _ _ => rfl
    · exact hact int32Variant fun _ _ => rfl
    · exact hact int64Variant fun _ _ => rfl
    · exact hact uint8Variant fun _ _ => rfl
    · exact hact uint16Variant fun _ _ => rfl
    · exact hact uint32Variant fun _ _ => rfl
    · exact hact uint64Variant fun _ _ => rfl
    · cases ha
    · cases ha
    · exact hact utf8Variant fun _ _ => rfl
    · exact hact date32Variant fun _ _ => rfl
    · cases h

end ScalarValue

/-! ## Counters -/

variable [Runtime]

/-- The addition of counters. -/
def addCount (a b : Int32) : Result Int32 :=
  Runtime.checkedInt32 (a.toInt + b.toInt)

/-- A counter that has counted from zero. -/
def IsCounter (n : Int32) : Prop := Runtime.overflowChecks = true → 0 ≤ n.toInt

omit [FloatModel] in
/-- Counters are added where no check fails, and wrap otherwise. -/
theorem addCount_eq_ok_iff {a b c : Int32} :
    addCount a b = .ok c ↔
      (Runtime.overflowChecks = true → -2 ^ 31 ≤ a.toInt + b.toInt ∧ a.toInt + b.toInt < 2 ^ 31) ∧
        c = a + b := by
  rw [addCount, Runtime.checkedInt32_eq_ok_iff, Int32.ofInt_add, Int32.ofInt_toInt,
    Int32.ofInt_toInt]

omit [FloatModel] in
/-- With overflow checks, the sum of counters is their sum. -/
theorem addCount_toInt {a b c : Int32} (h : addCount a b = .ok c)
    (hc : Runtime.overflowChecks = true) : c.toInt = a.toInt + b.toInt := by
  obtain ⟨hrange, rfl⟩ := addCount_eq_ok_iff.mp h
  obtain ⟨h₁, h₂⟩ := hrange hc
  rw [← Int32.ofInt_toInt a, ← Int32.ofInt_toInt b, ← Int32.ofInt_add, Int32.ofInt_toInt,
    Int32.ofInt_toInt, Int32.toInt_ofInt_of_le h₁ h₂]

omit [FloatModel] in
/-- Adding nothing changes no counter. -/
theorem addCount_zero (n : Int32) : addCount n 0 = .ok n := by
  rw [addCount_eq_ok_iff, Int32.add_zero, and_iff_left rfl, Int32.toInt_zero]
  have h₁ := Int32.le_toInt n
  have h₂ := Int32.toInt_lt n
  omega

omit [FloatModel] in
/-- Counters are a partial commutative monoid. -/
theorem addCount_commMonoidOn : PartialFold.CommMonoidOn IsCounter 0 addCount where
  unit_mem _ := by decide
  closed {a b c} ha hb h hc := by
    have := addCount_toInt h hc
    have := ha hc
    have := hb hc
    -- Counters are not negative, and neither is their sum.
    omega
  unit_op {a} _ := by
    rw [addCount_eq_ok_iff]
    have h₁ := Int32.le_toInt a
    have h₂ := Int32.toInt_lt a
    simp only [Int32.zero_add, and_true, Int32.toInt_zero]
    omega
  comm {a b c} _ _ h := by
    rw [addCount_eq_ok_iff] at h ⊢
    rwa [Int.add_comm, Int32.add_comm]
  assoc {a b c x d} ha hb hc hx hd := by
    have hx' := addCount_toInt hx
    obtain ⟨-, rfl⟩ := addCount_eq_ok_iff.mp hx
    obtain ⟨hd', rfl⟩ := addCount_eq_ok_iff.mp hd
    -- Where overflow is checked, the inner sum is between the counters and the whole.
    have hrange : Runtime.overflowChecks = true →
        -2 ^ 31 ≤ b.toInt + c.toInt ∧ b.toInt + c.toInt < 2 ^ 31 := by
      intro h
      have := hx' h
      have := hd' h
      have := ha h
      have := hb h
      have := hc h
      omega
    have hy : addCount b c = .ok (b + c) := addCount_eq_ok_iff.mpr ⟨hrange, rfl⟩
    refine ⟨b + c, hy, addCount_eq_ok_iff.mpr ⟨fun h => ?_, Int32.add_assoc a b c⟩⟩
    have := addCount_toInt hy h
    have := hx' h
    have := hd' h
    omega

/-! ## Aggregates as folds -/

/-- The accumulator of `f` holds an element of a partial commutative monoid: a value adds its
`input` to it, and the outcome is its `out`. -/
structure Accumulates (f : AggregateFunction) {M : Type} (P : M → Prop) (e : M)
    (op : M → M → Result M) (wrap : M → Accumulator) (input : ScalarValue → M)
    (out : M → ScalarValue) : Prop where
  monoid : PartialFold.CommMonoidOn P e op
  create_eq : Accumulator.create f = wrap e
  input_mem : ∀ {v}, v.IsExact → P (input v)
  accumulate_eq : ∀ m v, (wrap m).accumulate v = wrap <$> op m (input v)
  finalValue_eq : ∀ m, (wrap m).finalValue = out m
  intermediateValue_eq : ∀ m, (wrap m).intermediateValue = .scalar (out m)
  /-- A value that merges into a new accumulator as `n` does so into every accumulator. -/
  merge_eq : ∀ {w a n}, (wrap e).merge (.scalar w) = .ok a → a.finalValue = out n →
    ∀ m, (wrap m).merge (.scalar w) = wrap <$> op m n
  fits : ∀ {m n d}, P m → op m n = .ok d → ∀ {t}, (out d).FitsIn t → (out m).FitsIn t

omit [Runtime] in
/-- A null operand leaves the other; both of SUM, MIN and MAX read their inputs so. -/
theorem map_withNull {f : ScalarValue → ScalarValue → Result ScalarValue}
    {wrap : ScalarValue → Accumulator} (c v : ScalarValue) :
    wrap <$> ScalarValue.withNull f c v =
      if v.isNull then .ok (wrap c) else if c.isNull then .ok (wrap v) else wrap <$> f c v := by
  unfold ScalarValue.withNull
  split <;> [rfl; (split <;> rfl)]

/-- SUM combines with wrapping addition. -/
theorem sum_accumulate_eq (c v : ScalarValue) :
    (Accumulator.sum c).accumulate v =
      Accumulator.sum <$> ScalarValue.withNull ScalarValue.scalarAdd c v := by
  rw [map_withNull]
  rfl

/-- MIN combines with the smaller value. -/
theorem min_accumulate_eq (c v : ScalarValue) :
    (Accumulator.min c).accumulate v =
      Accumulator.min <$> ScalarValue.withNull (ScalarValue.pick .lt) c v := rfl

/-- MAX combines with the greater value. -/
theorem max_accumulate_eq (c v : ScalarValue) :
    (Accumulator.max c).accumulate v =
      Accumulator.max <$> ScalarValue.withNull (ScalarValue.pick .gt) c v := rfl

/-- COUNT adds one for a value that is not null. -/
theorem count_accumulate_eq (n : Int32) (v : ScalarValue) :
    (Accumulator.count n).accumulate v =
      Accumulator.count <$> addCount n (if v.isNull then 0 else 1) := by
  simp only [Accumulator.accumulate]
  split
  · rw [addCount_zero]
    rfl
  · rfl

/-- SUM is the fold of a partial commutative monoid. -/
theorem sum_accumulates :
    Accumulates .sum ScalarValue.IsExact .null (ScalarValue.withNull ScalarValue.scalarAdd) .sum id
      id where
  monoid := ScalarValue.scalarAdd_typed.commMonoidOn
  create_eq := rfl
  input_mem := id
  accumulate_eq := sum_accumulate_eq
  finalValue_eq _ := rfl
  intermediateValue_eq _ := rfl
  merge_eq {w a n} h ha m := by
    change (Accumulator.sum .null).accumulate w = .ok a at h
    rw [sum_accumulate_eq, ScalarValue.null_withNull] at h
    cases h
    obtain rfl : w = n := ha
    exact sum_accumulate_eq m w
  fits hm h _ hd := ScalarValue.scalarAdd_typed.withNull_fitsIn hm h hd

/-- So is MIN. -/
theorem min_accumulates :
    Accumulates .min ScalarValue.IsExact .null (ScalarValue.withNull (ScalarValue.pick .lt)) .min id
      id where
  monoid := (ScalarValue.pick_typed (by decide)).commMonoidOn
  create_eq := rfl
  input_mem := id
  accumulate_eq := min_accumulate_eq
  finalValue_eq _ := rfl
  intermediateValue_eq _ := rfl
  merge_eq {w a n} h ha m := by
    change (Accumulator.min .null).accumulate w = .ok a at h
    rw [min_accumulate_eq, ScalarValue.null_withNull] at h
    cases h
    obtain rfl : w = n := ha
    exact min_accumulate_eq m w
  fits hm h _ hd := (ScalarValue.pick_typed (by decide)).withNull_fitsIn hm h hd

/-- So is MAX. -/
theorem max_accumulates :
    Accumulates .max ScalarValue.IsExact .null (ScalarValue.withNull (ScalarValue.pick .gt)) .max id
      id where
  monoid := (ScalarValue.pick_typed (by decide)).commMonoidOn
  create_eq := rfl
  input_mem := id
  accumulate_eq := max_accumulate_eq
  finalValue_eq _ := rfl
  intermediateValue_eq _ := rfl
  merge_eq {w a n} h ha m := by
    change (Accumulator.max .null).accumulate w = .ok a at h
    rw [max_accumulate_eq, ScalarValue.null_withNull] at h
    cases h
    obtain rfl : w = n := ha
    exact max_accumulate_eq m w
  fits hm h _ hd := (ScalarValue.pick_typed (by decide)).withNull_fitsIn hm h hd

/-- The number a counter gains from a partial counter. -/
theorem count_merge_eq_ok {w : ScalarValue} {a : Accumulator} {n : Int32}
    (h : (Accumulator.count 0).merge (.scalar w) = .ok a) (ha : a.finalValue = .int32 n) (m : Int32) :
    (Accumulator.count m).merge (.scalar w) = Accumulator.count <$> addCount m n := by
  simp only [Accumulator.merge] at h ⊢
  by_cases hw : w.isNull = true
  · rw [if_pos hw] at h ⊢
    cases h
    obtain rfl : 0 = n := by simpa [Accumulator.finalValue] using ha
    have hcount := count_accumulate_eq m .null
    simpa [Accumulator.accumulate, ScalarValue.isNull] using hcount
  · rw [if_neg hw] at h ⊢
    obtain ⟨k, hk, h⟩ := Outcome.bind_eq_ok_iff.mp h
    obtain ⟨c, hc, h⟩ := Outcome.bind_eq_ok_iff.mp h
    cases h
    obtain rfl : c = n := by simpa [Accumulator.finalValue] using ha
    have hck : c = k.toInt32 := by
      have := (Runtime.checkedInt32_eq_ok_iff.mp hc).2
      rwa [Int32.toInt_zero, Int.zero_add, Int32.ofInt_toInt] at this
    rw [hk, hck]
    rfl

/-- So is COUNT. -/
theorem count_accumulates :
    Accumulates .count IsCounter 0 addCount .count (fun v => if v.isNull then 0 else 1)
      .int32 where
  monoid := addCount_commMonoidOn
  create_eq := rfl
  input_mem {v} _ _ := by
    split <;> decide
  accumulate_eq := count_accumulate_eq
  finalValue_eq _ := rfl
  intermediateValue_eq _ := rfl
  merge_eq h ha m := count_merge_eq_ok h ha m
  fits {m n d} _ _ t hd := by
    have ht : DataType.int32 = t := hd.dataType_eq (by simp)
    exact .inr ht

namespace Accumulates

variable {f : AggregateFunction} {M : Type} {P : M → Prop} {e : M} {op : M → M → Result M}
  {wrap : M → Accumulator} {input : ScalarValue → M} {out : M → ScalarValue}

/-- The aggregate is the fold of the inputs. -/
theorem aggregate_eq_ok_iff (h : Accumulates f P e op wrap input out) {mode : AggregateMode}
    (hmode : mode ≠ .finalMode) {vs : List ScalarValue} {v : ScalarValue} :
    aggregate mode f vs = .ok v ↔ ∃ m, (vs.map input).foldlM op e = .ok m ∧ out m = v := by
  -- A step takes the value as input, in either mode that accumulates.
  have hstep : ∀ m, ∀ w ∈ vs, (wrap m).step mode w = wrap <$> op m (input w) := by
    intro m w _
    rw [← h.accumulate_eq]
    cases mode with
    | finalMode => exact absurd rfl hmode
    | completeMode => rfl
    | partialMode => rfl
  have hout : ∀ m, (wrap m).output mode = .ok (out m) := by
    intro m
    unfold Accumulator.output
    rw [h.intermediateValue_eq, h.finalValue_eq]
    cases mode <;> rfl
  unfold aggregate
  rw [h.create_eq, Outcome.foldlM_map (g := fun m w => op m (input w)) hstep, List.foldlM_map]
  simp only [Outcome.bind_eq_ok_iff, Outcome.map_eq_ok_iff]
  constructor
  · rintro ⟨_, ⟨m, hm, rfl⟩, hv⟩
    exact ⟨m, hm, by simpa [hout] using hv⟩
  · rintro ⟨m, hm, rfl⟩
    exact ⟨_, ⟨m, hm, rfl⟩, hout m⟩

/-- Exact values are folded as elements of the monoid. -/
theorem inputs_mem (h : Accumulates f P e op wrap input out) {vs : List ScalarValue}
    (hvs : ∀ v ∈ vs, v.IsExact) : ∀ m ∈ vs.map input, P m := by
  intro m hm
  obtain ⟨v, hv, rfl⟩ := List.mem_map.mp hm
  exact h.input_mem (hvs v hv)

/-- A part of the values has an aggregate that fits where the whole one does. -/
theorem part (h : Accumulates f P e op wrap input out) {vs ps rs : List ScalarValue}
    (hperm : vs.Perm (ps ++ rs)) (hvs : ∀ v ∈ vs, v.IsExact) {v : ScalarValue}
    (hv : aggregate .completeMode f vs = .ok v) :
    ∃ u, aggregate .completeMode f ps = .ok u ∧ ∀ t, v.FitsIn t → u.FitsIn t := by
  obtain ⟨m, hm, rfl⟩ := (h.aggregate_eq_ok_iff (by decide)).mp hv
  have hps : ∀ v ∈ ps, v.IsExact := fun v hv =>
    hvs v (hperm.mem_iff.mpr (List.mem_append_left rs hv))
  have hrs : ∀ v ∈ rs, v.IsExact := fun v hv =>
    hvs v (hperm.mem_iff.mpr (List.mem_append_right ps hv))
  have hm := h.monoid.foldlM_perm (hperm.map input) (h.inputs_mem hvs) hm
  rw [List.map_append, h.monoid.foldlM_append (h.inputs_mem hps) (h.inputs_mem hrs)] at hm
  obtain ⟨x, y, hx, -, hxy⟩ := hm
  refine ⟨out x, (h.aggregate_eq_ok_iff (by decide)).mpr ⟨x, hx, rfl⟩, fun t ht => ?_⟩
  exact h.fits (h.monoid.foldlM_mem (h.inputs_mem hps) h.monoid.unit_mem hx) hxy ht

/-- Merging values that read back as the aggregates of chunks aggregates the chunks. -/
theorem merge (h : Accumulates f P e op wrap input out) {vs ws : List ScalarValue}
    {chunks : List (List ScalarValue)} (hperm : vs.Perm chunks.flatten)
    (hvs : ∀ v ∈ vs, v.IsExact)
    (hread : List.Forall₂ (fun chunk w => ∃ u, aggregate .partialMode f chunk = .ok u ∧
      aggregate .finalMode f [w] = .ok u) chunks ws) {v : ScalarValue}
    (hv : aggregate .completeMode f vs = .ok v) : aggregate .finalMode f ws = .ok v := by
  obtain ⟨m, hm, rfl⟩ := (h.aggregate_eq_ok_iff (by decide)).mp hv
  have hm := h.monoid.foldlM_perm (hperm.map input) (h.inputs_mem hvs) hm
  -- The chunks' folds, and the merges that stand for them.
  obtain ⟨ns, hns, hmerge⟩ : ∃ ns, (chunks.map (List.map input)).mapM (fun xs => xs.foldlM op e) =
      .ok ns ∧ List.Forall₂ (fun w n => ∀ m, (wrap m).merge (.scalar w) = wrap <$> op m n) ws ns := by
    clear hperm hm hv
    induction hread with
    | nil => exact ⟨[], rfl, .nil⟩
    | @cons chunk w chunks ws hw _ ih =>
      obtain ⟨u, hu, hw⟩ := hw
      obtain ⟨ns, hns, hmerge⟩ := ih
      obtain ⟨n, hn, rfl⟩ := (h.aggregate_eq_ok_iff (by decide)).mp hu
      obtain ⟨a, ha, ha'⟩ := Outcome.bind_eq_ok_iff.mp hw
      simp only [List.foldlM_cons, List.foldlM_nil, bind_pure, h.create_eq] at ha
      refine ⟨n :: ns, ?_, .cons (h.merge_eq ha (by simpa [Accumulator.output] using ha')) hmerge⟩
      rw [List.map_cons, Outcome.mapM_cons_eq_ok_iff]
      exact ⟨n, ns, hn, hns, rfl⟩
  have hchunks : ∀ xs ∈ chunks.map (List.map input), ∀ x ∈ xs, P x := by
    intro xs hxs
    obtain ⟨chunk, hchunk, rfl⟩ := List.mem_map.mp hxs
    exact h.inputs_mem fun v hv =>
      hvs v (hperm.mem_iff.mpr (List.mem_flatten.mpr ⟨chunk, hchunk, hv⟩))
  rw [List.map_flatten, h.monoid.foldlM_flatten hchunks hns] at hm
  have hfold : ∀ m, ws.foldlM (Accumulator.step .finalMode) (wrap m) = wrap <$> ns.foldlM op m := by
    clear hm hns hread hv
    induction hmerge with
    | nil => exact fun m => rfl
    | @cons w n ws ns hw _ ih =>
      intro m
      rw [List.foldlM_cons, List.foldlM_cons]
      change (wrap m).merge (.scalar w) >>= _ = _
      rw [hw]
      cases op m n with
      | error err => rfl
      | ok m' => exact ih m'
  unfold aggregate
  rw [h.create_eq, hfold, hm]
  exact congrArg Except.ok (h.finalValue_eq m)

end Accumulates

/-! ## Chunks of values -/

/-- AVG of nulls is null, in every stage. -/
theorem aggregate_avg_null {mode : AggregateMode} {vs : List ScalarValue}
    (hvs : ∀ v ∈ vs, v = .null) : aggregate mode .avg vs = .ok .null := by
  have hfold : vs.foldlM (Accumulator.step mode) (Accumulator.create .avg) =
      .ok (Accumulator.create .avg) := by
    induction vs with
    | nil => rfl
    | cons v vs ih =>
      obtain rfl := hvs v List.mem_cons_self
      have hstep : (Accumulator.create .avg).step mode .null = .ok (.create .avg) := by
        cases mode <;> rfl
      rw [List.foldlM_cons, hstep, Outcome.ok_bind,
        ih fun v hv => hvs v (List.mem_cons_of_mem _ hv)]
  unfold aggregate
  rw [hfold]
  cases mode <;> rfl

/-- Only null merges into a new AVG. -/
theorem aggregate_avg_final {w v : ScalarValue} (h : aggregate .finalMode .avg [w] = .ok v) :
    w = .null := by
  obtain ⟨a, ha, -⟩ := Outcome.bind_eq_ok_iff.mp h
  simp only [List.foldlM_cons, List.foldlM_nil, bind_pure] at ha
  cases w <;> first | rfl | cases ha

/-- The functions other than AVG are folds of a partial commutative monoid. -/
theorem exists_accumulates {f : AggregateFunction} (hf : f ≠ .avg) :
    ∃ (M : Type) (P : M → Prop) (e : M) (op : M → M → Result M) (wrap : M → Accumulator)
      (input : ScalarValue → M) (out : M → ScalarValue), Accumulates f P e op wrap input out := by
  cases f with
  | sum => exact ⟨_, _, _, _, _, _, _, sum_accumulates⟩
  | min => exact ⟨_, _, _, _, _, _, _, min_accumulates⟩
  | max => exact ⟨_, _, _, _, _, _, _, max_accumulates⟩
  | avg => exact absurd rfl hf
  | count => exact ⟨_, _, _, _, _, _, _, count_accumulates⟩

variable {f : AggregateFunction} {vs : List ScalarValue}

/-- The partial stage outputs what the complete one does, unless it has averaged a value. -/
theorem aggregate_partialMode (havg : f = .avg → ∀ v ∈ vs, v = .null) {v : ScalarValue} :
    aggregate .partialMode f vs = .ok v ↔ aggregate .completeMode f vs = .ok v := by
  by_cases hf : f = .avg
  · subst hf
    rw [aggregate_avg_null (havg rfl), aggregate_avg_null (havg rfl)]
  · obtain ⟨_, _, _, _, _, _, _, h⟩ := exists_accumulates hf
    rw [h.aggregate_eq_ok_iff (by decide), h.aggregate_eq_ok_iff (by decide)]

/-- What the partial stage outputs is the aggregate. -/
theorem aggregate_completeMode {v : ScalarValue} (h : aggregate .partialMode f vs = .ok v) :
    aggregate .completeMode f vs = .ok v := by
  obtain ⟨acc, hacc, hout⟩ := Outcome.bind_eq_ok_iff.mp h
  refine Outcome.bind_eq_ok_iff.mpr ⟨acc, hacc, ?_⟩
  cases acc with
  | avg s n =>
    by_cases hn : n = 0
    · simpa [Accumulator.output, Accumulator.intermediateValue, Accumulator.finalValue, hn]
        using hout
    · simp [Accumulator.output, Accumulator.intermediateValue, hn] at hout
  | sum v => exact hout
  | min v => exact hout
  | max v => exact hout
  | count n => exact hout

/-- The partial stage cannot output the average of a value. -/
theorem aggregate_avg_partial {v u : ScalarValue} (hv : v ≠ .null) :
    aggregate .partialMode .avg [v] ≠ .ok u := by
  intro h
  obtain ⟨acc, hacc, hout⟩ := Outcome.bind_eq_ok_iff.mp h
  simp only [List.foldlM_cons, List.foldlM_nil, bind_pure] at hacc
  have hstep : (Accumulator.create .avg).step .partialMode v = (do
      let n ← Runtime.checkedInt32 1
      return .avg (FloatModel.double.add FloatModel.double.zero (← v.numberToF64)) n) := by
    simp only [Accumulator.create, Accumulator.step, Accumulator.accumulate,
      ScalarValue.isNull_iff, if_neg hv]
    rfl
  rw [hstep] at hacc
  obtain ⟨n, hn, hacc⟩ := Outcome.bind_eq_ok_iff.mp hacc
  obtain ⟨x, -, hacc⟩ := Outcome.bind_eq_ok_iff.mp hacc
  cases hacc
  have hn : n = 1 := (Runtime.checkedInt32_eq_ok_iff.mp hn).2
  subst hn
  cases hout

/-- The order of the values does not matter. -/
theorem aggregate_perm {vs' : List ScalarValue} (hperm : vs.Perm vs')
    (hvs : ∀ v ∈ vs, v.IsExact) (hf : f ≠ .avg) {v : ScalarValue}
    (hv : aggregate .completeMode f vs = .ok v) : aggregate .completeMode f vs' = .ok v := by
  obtain ⟨_, _, _, _, _, _, _, h⟩ := exists_accumulates hf
  obtain ⟨m, hm, rfl⟩ := (h.aggregate_eq_ok_iff (by decide)).mp hv
  exact (h.aggregate_eq_ok_iff (by decide)).mpr
    ⟨m, h.monoid.foldlM_perm (hperm.map _) (h.inputs_mem hvs) hm, rfl⟩

/-- A part of the values has an aggregate that fits where the whole one does. -/
theorem aggregate_part {ps rs : List ScalarValue} (hperm : vs.Perm (ps ++ rs))
    (hvs : ∀ v ∈ vs, v.IsExact) (havg : f = .avg → ∀ v ∈ vs, v = .null) {v : ScalarValue}
    (hv : aggregate .completeMode f vs = .ok v) :
    ∃ u, aggregate .completeMode f ps = .ok u ∧ ∀ t, v.FitsIn t → u.FitsIn t := by
  by_cases hf : f = .avg
  · subst hf
    refine ⟨.null, aggregate_avg_null fun v hv => ?_, fun t _ => .inl rfl⟩
    exact havg rfl v (hperm.mem_iff.mpr (List.mem_append_left rs hv))
  · obtain ⟨_, _, _, _, _, _, _, h⟩ := exists_accumulates hf
    exact h.part hperm hvs hv

/-- The values may be aggregated chunk by chunk, and the chunks' aggregates merged. -/
theorem aggregate_merge {ws : List ScalarValue} {chunks : List (List ScalarValue)}
    (hperm : vs.Perm chunks.flatten) (hvs : ∀ v ∈ vs, v.IsExact)
    (havg : f = .avg → ∀ v ∈ vs, v = .null)
    (hread : List.Forall₂ (fun chunk w => ∃ u, aggregate .partialMode f chunk = .ok u ∧
      aggregate .finalMode f [w] = .ok u) chunks ws) {v : ScalarValue}
    (hv : aggregate .completeMode f vs = .ok v) : aggregate .finalMode f ws = .ok v := by
  by_cases hf : f = .avg
  · subst hf
    have hws : ∀ w ∈ ws, w = .null := by
      intro w hw
      obtain ⟨_, _, u, -, hu⟩ := Outcome.forall₂_mem_right hread hw
      exact aggregate_avg_final hu
    rw [aggregate_avg_null hws]
    rwa [aggregate_avg_null (havg rfl)] at hv
  · obtain ⟨_, _, _, _, _, _, _, h⟩ := exists_accumulates hf
    exact h.merge hperm hvs hread hv

end RQuery
