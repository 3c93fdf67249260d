import RQuery.Physical.AccumulatorMerge
import RQuery.Physical.Counters
import Mathlib.Data.Rat.Encodable

/-!
# Merging is a homomorphism

Every accumulator is an element of a partial commutative monoid, to which a value adds an element of
its own. COUNT and AVG accumulate by counting up and merge by adding counters, and AVG also adds
sums; `Summarizes` states what both ways have in common, as long as the counters stay in range. So a
list of values may be distributed over any number of accumulators, in any order
(`merge_accumulateAll_iff`).
-/

namespace RQuery

section

variable [FloatModel]

/-- Addition of doubles without rounding. -/
structure ExactSums : Prop where
  add_comm : ∀ x y : F64, FloatModel.double.add x y = FloatModel.double.add y x
  add_assoc : ∀ x y z : F64, FloatModel.double.add (FloatModel.double.add x y) z =
    FloatModel.double.add x (FloatModel.double.add y z)
  zero_add : ∀ x : F64, FloatModel.double.add FloatModel.double.zero x = x

/-- Zero adds nothing. -/
theorem ExactSums.add_zero (h : ExactSums) (x : F64) :
    FloatModel.double.add x FloatModel.double.zero = x := by
  rw [h.add_comm, h.zero_add]

/-- The function of an accumulator. -/
def Accumulator.function : Accumulator → AggregateFunction
  | sum _ => .sum
  | min _ => .min
  | max _ => .max
  | avg _ _ => .avg
  | count _ => .count

variable [Runtime]

/-- A new accumulator after these values. -/
def accumulateAll (f : AggregateFunction) (vs : List ScalarValue) : Result Accumulator :=
  vs.foldlM Accumulator.accumulate (Accumulator.create f)

/-- A new accumulator after these partial results. -/
def mergeAll (f : AggregateFunction) (states : List AccumulatorValue) : Result Accumulator :=
  states.foldlM Accumulator.merge (Accumulator.create f)

/-! ## Accumulators as elements of a monoid -/

/-- The accumulators of `f` are the elements of a partial commutative monoid. A value of `D` adds
its `input`, and a partial result adds the element it is the state of. An element has counted up to
its `weight`, and stays in range below `2 ^ 31`. -/
structure Summarizes (f : AggregateFunction) {M : Type} (D : ScalarValue → Prop) (P : M → Prop)
    (e : M) (op : M → M → Result M) (weight : M → ℕ) (wrap : M → Accumulator)
    (input : ScalarValue → Result M) : Prop where
  monoid : PartialFold.CommMonoidOn P e op
  create_eq : Accumulator.create f = wrap e
  weight_unit : weight e = 0
  weight_op : ∀ {a b c}, op a b = .ok c → weight c = weight a + weight b
  weight_input : ∀ {v m}, input v = .ok m → weight m ≤ 1
  input_mem : ∀ {v m}, D v → input v = .ok m → P m
  accumulate_eq : ∀ {m v}, weight m + 1 < 2 ^ 31 →
    (wrap m).accumulate v = wrap <$> (do op m (← input v))
  merge_eq : ∀ {m n}, P n → weight m + weight n < 2 ^ 31 →
    (wrap m).merge (wrap n).intermediateValue = wrap <$> op m n

namespace Summarizes

variable {f : AggregateFunction} {M : Type} {D : ScalarValue → Prop} {P : M → Prop} {e : M}
  {op : M → M → Result M} {weight : M → ℕ} {wrap : M → Accumulator}
  {input : ScalarValue → Result M}

/-- A fold weighs what its elements weigh. -/
theorem weight_foldlM (h : Summarizes f D P e op weight wrap input) {ns : List M} {m n : M}
    (hn : ns.foldlM op m = .ok n) : weight n = weight m + (ns.map weight).sum := by
  induction ns generalizing m with
  | nil =>
    cases hn
    simp
  | cons x ns ih =>
    rw [List.foldlM_cons] at hn
    obtain ⟨m', hm', hn⟩ := Outcome.bind_eq_ok_iff.mp hn
    rw [ih hn, h.weight_op hm', List.map_cons, List.sum_cons]
    omega

/-- Values weigh one each at most. -/
theorem weight_inputs (h : Summarizes f D P e op weight wrap input) {vs : List ScalarValue}
    {ns : List M} (hns : vs.mapM input = .ok ns) : (ns.map weight).sum ≤ vs.length := by
  induction vs generalizing ns with
  | nil =>
    obtain rfl : [] = ns := by simpa using hns
    simp
  | cons v vs ih =>
    obtain ⟨n, ns, hn, hrest, rfl⟩ := Outcome.mapM_cons_eq_ok_iff.mp hns
    have hle := ih hrest
    have hone := h.weight_input hn
    simp only [List.map_cons, List.sum_cons, List.length_cons]
    omega

/-- Accumulating values folds their inputs. -/
theorem accumulate_foldlM (h : Summarizes f D P e op weight wrap input) {vs : List ScalarValue}
    {m : M} (hlt : weight m + vs.length < 2 ^ 31) {acc : Accumulator} :
    vs.foldlM Accumulator.accumulate (wrap m) = .ok acc ↔
      ∃ ns n, vs.mapM input = .ok ns ∧ ns.foldlM op m = .ok n ∧ acc = wrap n := by
  -- On the values; the accumulator stays a `wrap`, and its counter stays below the bound.
  induction vs generalizing m with
  | nil => simp [eq_comm]
  | cons v vs ih =>
    simp only [List.length_cons] at hlt
    rw [List.foldlM_cons, h.accumulate_eq (by omega)]
    constructor
    · intro hacc
      obtain ⟨_, hstep, hacc⟩ := Outcome.bind_eq_ok_iff.mp hacc
      obtain ⟨m', hm', rfl⟩ := Outcome.map_eq_ok_iff.mp hstep
      obtain ⟨k, hk, hm'⟩ := Outcome.bind_eq_ok_iff.mp hm'
      have hweight := h.weight_op hm'
      have hone := h.weight_input hk
      obtain ⟨ns, n, hns, hn, rfl⟩ := (ih (by omega)).mp hacc
      refine ⟨k :: ns, n, Outcome.mapM_cons_eq_ok_iff.mpr ⟨k, ns, hk, hns, rfl⟩, ?_, rfl⟩
      rw [List.foldlM_cons, hm', Outcome.ok_bind, hn]
    · rintro ⟨ns, n, hns, hn, rfl⟩
      obtain ⟨k, ns, hk, hrest, rfl⟩ := Outcome.mapM_cons_eq_ok_iff.mp hns
      rw [List.foldlM_cons] at hn
      obtain ⟨m', hm', hn⟩ := Outcome.bind_eq_ok_iff.mp hn
      have hweight := h.weight_op hm'
      have hone := h.weight_input hk
      rw [hk, Outcome.ok_bind, hm', Outcome.map_ok, Outcome.ok_bind]
      exact (ih (by omega)).mpr ⟨ns, n, hrest, hn, rfl⟩

/-- Merging partial results folds the elements they are the states of. -/
theorem merge_foldlM (h : Summarizes f D P e op weight wrap input) {ns : List M} {m : M}
    (hns : ∀ n ∈ ns, P n) (hlt : weight m + (ns.map weight).sum < 2 ^ 31) :
    (ns.map fun n => (wrap n).intermediateValue).foldlM Accumulator.merge (wrap m) =
      wrap <$> ns.foldlM op m := by
  induction ns generalizing m with
  | nil => rfl
  | cons n ns ih =>
    simp only [List.map_cons, List.sum_cons] at hlt
    rw [List.map_cons, List.foldlM_cons, List.foldlM_cons,
      h.merge_eq (hns n List.mem_cons_self) (by omega)]
    cases hm' : op m n with
    | error err => rfl
    | ok m' =>
      have hweight := h.weight_op hm'
      exact ih (fun n hn => hns n (List.mem_cons_of_mem _ hn)) (by omega)

/-- Values are folded as elements of the monoid. -/
theorem inputs_mem (h : Summarizes f D P e op weight wrap input) {vs : List ScalarValue}
    (hvs : ∀ v ∈ vs, D v) {ns : List M} (hns : vs.mapM input = .ok ns) : ∀ n ∈ ns, P n := by
  intro n hn
  obtain ⟨v, hv, hvn⟩ := Outcome.mapM_mem hns hn
  exact h.input_mem (hvs v hv) hvn

/-- Accumulating values is folding what they are read as. -/
theorem accumulateAll_eq_ok_iff (h : Summarizes f D P e op weight wrap input)
    {vs : List ScalarValue} (hlt : vs.length < 2 ^ 31) {acc : Accumulator} :
    accumulateAll f vs = .ok acc ↔
      ∃ ns n, vs.mapM input = .ok ns ∧ ns.foldlM op e = .ok n ∧ acc = wrap n := by
  rw [accumulateAll, h.create_eq]
  exact h.accumulate_foldlM (by rw [h.weight_unit]; omega)

/-- The accumulators of chunks hold the folds of the chunks. -/
theorem accumulateAll_mapM (h : Summarizes f D P e op weight wrap input)
    {chunks : List (List ScalarValue)} (hlt : chunks.flatten.length < 2 ^ 31)
    {accs : List Accumulator} :
    chunks.mapM (accumulateAll f) = .ok accs ↔
      ∃ nss ns, chunks.mapM (fun vs => vs.mapM input) = .ok nss ∧
        nss.mapM (fun ns => ns.foldlM op e) = .ok ns ∧ accs = ns.map wrap := by
  induction chunks generalizing accs with
  | nil => simp [eq_comm]
  | cons vs chunks ih =>
    simp only [List.flatten_cons, List.length_append] at hlt
    simp only [Outcome.mapM_cons_eq_ok_iff, ih (show chunks.flatten.length < 2 ^ 31 by omega),
      h.accumulateAll_eq_ok_iff (show vs.length < 2 ^ 31 by omega)]
    constructor
    · rintro ⟨_, _, ⟨ns, n, hns, hn, rfl⟩, ⟨nss, ms, hnss, hms, rfl⟩, rfl⟩
      exact ⟨ns :: nss, n :: ms, ⟨ns, nss, hns, hnss, rfl⟩,
        Outcome.mapM_cons_eq_ok_iff.mpr ⟨n, ms, hn, hms, rfl⟩, rfl⟩
    · rintro ⟨_, _, ⟨ns, nss, hns, hnss, rfl⟩, hms, rfl⟩
      obtain ⟨n, ms, hn, hrest, rfl⟩ := Outcome.mapM_cons_eq_ok_iff.mp hms
      exact ⟨wrap n, ms.map wrap, ⟨ns, n, hns, hn, rfl⟩, ⟨nss, ms, hnss, hrest, rfl⟩, rfl⟩

/-- The chunks weigh at most what their values do. -/
theorem weight_chunks (h : Summarizes f D P e op weight wrap input)
    {chunks : List (List ScalarValue)} {nss : List (List M)} {ns : List M}
    (hnss : chunks.mapM (fun vs => vs.mapM input) = .ok nss)
    (hns : nss.mapM (fun ns => ns.foldlM op e) = .ok ns) :
    (ns.map weight).sum ≤ chunks.flatten.length := by
  induction chunks generalizing nss ns with
  | nil =>
    obtain rfl : [] = nss := by simpa using hnss
    obtain rfl : [] = ns := by simpa using hns
    simp
  | cons vs chunks ih =>
    obtain ⟨ms, mss, hms, hmss, rfl⟩ := Outcome.mapM_cons_eq_ok_iff.mp hnss
    obtain ⟨n, ns, hn, hrest, rfl⟩ := Outcome.mapM_cons_eq_ok_iff.mp hns
    have hle := ih hmss hrest
    have hhead := h.weight_inputs hms
    have hfold := h.weight_foldlM hn
    rw [h.weight_unit] at hfold
    simp only [List.map_cons, List.sum_cons, List.flatten_cons, List.length_append]
    omega

/-- Merging the states of chunks in any order folds the elements of the chunks. -/
theorem mergeAll_order (h : Summarizes f D P e op weight wrap input)
    {chunks : List (List ScalarValue)} (hlt : chunks.flatten.length < 2 ^ 31)
    (hchunks : ∀ vs ∈ chunks, ∀ v ∈ vs, D v) {nss : List (List M)} {ns : List M}
    (hnss : chunks.mapM (fun vs => vs.mapM input) = .ok nss)
    (hns : nss.mapM (fun ns => ns.foldlM op e) = .ok ns) {order : List Accumulator}
    (horder : order.Perm (ns.map wrap)) {acc : Accumulator} :
    mergeAll f (order.map Accumulator.intermediateValue) = .ok acc ↔
      ∃ n, ns.foldlM op e = .ok n ∧ acc = wrap n := by
  have hmem : ∀ n ∈ ns, P n := by
    intro n hn
    obtain ⟨ms, hms, hn⟩ := Outcome.mapM_mem hns hn
    obtain ⟨vs, hvs, hms⟩ := Outcome.mapM_mem hnss hms
    exact h.monoid.foldlM_mem (h.inputs_mem (hchunks vs hvs) hms) h.monoid.unit_mem hn
  obtain ⟨ms, hwrap, hperm⟩ := List.perm_comp_forall₂ (r := fun a n => wrap n = a) horder
    (List.forall₂_map_left_iff.mpr (List.forall₂_same.mpr fun _ _ => rfl))
  obtain rfl : ms.map wrap = order := by
    simpa using (Outcome.forall₂_map_eq (f := id) (g := wrap) hwrap fun _ _ h => h.symm).symm
  have hms : ∀ n ∈ ms, P n := fun n hn => hmem n (hperm.mem_iff.mp hn)
  -- The counters of the chunks add up to at most the number of values, so the merge is exact too.
  have hweight : weight e + (ms.map weight).sum < 2 ^ 31 := by
    have := h.weight_chunks hnss hns
    rw [h.weight_unit, (hperm.map weight).sum_nat]
    omega
  rw [mergeAll, h.create_eq, List.map_map]
  have hfold : (ms.map (Accumulator.intermediateValue ∘ wrap)).foldlM Accumulator.merge (wrap e) =
      wrap <$> ms.foldlM op e := h.merge_foldlM hms hweight
  rw [hfold, Outcome.map_eq_ok_iff]
  constructor
  · rintro ⟨n, hn, rfl⟩
    exact ⟨n, h.monoid.foldlM_perm hperm hms hn, rfl⟩
  · rintro ⟨n, hn, rfl⟩
    exact ⟨n, h.monoid.foldlM_perm hperm.symm hmem hn, rfl⟩

/-- The merged states of chunks, in any order, are the state of all values. -/
theorem merge_iff (h : Summarizes f D P e op weight wrap input) {vs : List ScalarValue}
    {chunks : List (List ScalarValue)} (hperm : vs.Perm chunks.flatten) (hlt : vs.length < 2 ^ 31)
    (hvs : ∀ v ∈ vs, D v) {acc : Accumulator} :
    accumulateAll f vs = .ok acc ↔
      ∃ accs, chunks.mapM (accumulateAll f) = .ok accs ∧ ∀ order : List Accumulator,
        order.Perm accs → mergeAll f (order.map Accumulator.intermediateValue) = .ok acc := by
  have hlt' : chunks.flatten.length < 2 ^ 31 := hperm.length_eq ▸ hlt
  have hchunks : ∀ vs ∈ chunks, ∀ v ∈ vs, D v := fun us hus v hv =>
    hvs v (hperm.mem_iff.mpr (List.mem_flatten.mpr ⟨us, hus, hv⟩))
  have hmem : ∀ nss, chunks.mapM (fun vs => vs.mapM input) = .ok nss →
      ∀ ns ∈ nss, ∀ n ∈ ns, P n := by
    intro nss hnss ns hns
    obtain ⟨us, hus, hns⟩ := Outcome.mapM_mem hnss hns
    exact h.inputs_mem (hchunks us hus) hns
  rw [h.accumulateAll_eq_ok_iff hlt]
  constructor
  -- One pass to chunks: the summaries are reordered into the chunks, then folded chunk by chunk.
  · rintro ⟨ns, n, hns, hn, rfl⟩
    obtain ⟨ns', hns', hp⟩ := Outcome.mapM_perm hperm hns
    obtain ⟨nss, hnss, rfl⟩ := Outcome.mapM_flatten_eq_ok_iff.mp hns'
    have hn := h.monoid.foldlM_perm hp (h.inputs_mem hvs hns) hn
    obtain ⟨ms, hms, hn⟩ := (h.monoid.foldlM_flatten_eq_ok_iff (hmem nss hnss)).mp hn
    exact ⟨ms.map wrap, (h.accumulateAll_mapM hlt').mpr ⟨nss, ms, hnss, hms, rfl⟩,
      fun order horder => (h.mergeAll_order hlt' hchunks hnss hms horder).mpr ⟨n, hn, rfl⟩⟩
  -- Chunks to one pass: any order will do, the one of the chunks themselves among them.
  · rintro ⟨accs, haccs, horder⟩
    obtain ⟨nss, ms, hnss, hms, rfl⟩ := (h.accumulateAll_mapM hlt').mp haccs
    obtain ⟨n, hn, rfl⟩ := (h.mergeAll_order hlt' hchunks hnss hms (.refl _)).mp
      (horder _ (.refl _))
    have hn := (h.monoid.foldlM_flatten_eq_ok_iff (hmem nss hnss)).mpr ⟨ms, hms, hn⟩
    have hns := Outcome.mapM_flatten_eq_ok_iff.mpr ⟨nss, hnss, rfl⟩
    obtain ⟨ns, hns, hp⟩ := Outcome.mapM_perm hperm.symm hns
    have hflat : ∀ x ∈ nss.flatten, P x := by
      intro x hx
      obtain ⟨us, hus, hx⟩ := List.mem_flatten.mp hx
      exact hmem nss hnss us hus x hx
    exact ⟨ns, n, hns, h.monoid.foldlM_perm hp hflat hn, rfl⟩

end Summarizes

/-! ## The five functions -/

/-- SUM, MIN and MAX merge a state as they accumulate a value. -/
theorem Accumulates.summarizes {f : AggregateFunction}
    {op : ScalarValue → ScalarValue → Result ScalarValue} {wrap : ScalarValue → Accumulator}
    (h : Accumulates f ScalarValue.IsExact .null op wrap id id)
    (hmerge : ∀ m v, (wrap m).merge (.scalar v) = (wrap m).accumulate v) :
    Summarizes f ScalarValue.IsExact ScalarValue.IsExact .null op (fun _ => 0) wrap .ok where
  monoid := h.monoid
  create_eq := h.create_eq
  weight_unit := rfl
  weight_op _ := rfl
  weight_input _ := Nat.zero_le 1
  input_mem hv hm := Except.ok.inj hm ▸ hv
  accumulate_eq _ := h.accumulate_eq _ _
  merge_eq _ _ := by
    rw [h.intermediateValue_eq, hmerge, h.accumulate_eq]
    rfl

/-- COUNT summarizes by the number of values. -/
theorem count_summarizes :
    Summarizes .count (fun _ => True) (fun _ => True) 0 (fun a b => .ok (a + b)) id
      (fun n => .count (Int32.ofNat n)) (fun v => .ok (if v.isNull then 0 else 1)) where
  monoid :=
    { unit_mem := trivial
      closed := fun _ _ _ => trivial
      unit_op := fun _ => by rw [Nat.zero_add]
      comm := fun _ _ h => by rw [← h, Nat.add_comm]
      assoc := fun _ _ _ hx hd => by
        cases hx
        cases hd
        exact ⟨_, rfl, by rw [Nat.add_assoc]⟩ }
  create_eq := rfl
  weight_unit := rfl
  weight_op h := by
    cases h
    rfl
  weight_input h := by
    cases h
    show (if _ then 0 else 1) ≤ 1
    split <;> omega
  input_mem _ _ := trivial
  accumulate_eq {m v} hlt := by
    have hlt : m + 1 < 2 ^ 31 := hlt
    show (if v.isNull then _ else _) = _
    by_cases hv : v.isNull
    · rw [if_pos hv]
      simp only [hv]
      rfl
    · rw [if_neg hv, Int32.toInt_ofNat_of_lt (show m < 2 ^ 31 by omega), ← Int.natCast_one,
        ← Int.natCast_add, Accumulator.checkedInt32_ofNat hlt]
      simp only [hv]
      rfl
  merge_eq {m n} _ hlt := by
    have hlt : m + n < 2 ^ 31 := hlt
    have hm : (Int32.ofNat m).toInt = m := Int32.toInt_ofNat_of_lt (by omega)
    have hn : (Int32.ofNat n).toInt = n := Int32.toInt_ofNat_of_lt (by omega)
    show (do return Accumulator.count (← Runtime.checkedInt32 ((Int32.ofNat m).toInt +
      (Int32.ofNat n).toInt64.toInt32.toInt))) = _
    rw [Int32.toInt32_toInt64, hm, hn, ← Int.natCast_add, Accumulator.checkedInt32_ofNat hlt]
    rfl

/-- Sums that are exact may be added up in any order. -/
theorem avg_summarizes (hexact : ExactSums) :
    Summarizes .avg (fun _ => True) (fun m : F64 × ℕ => m.2 = 0 → m.1 = FloatModel.double.zero)
      (FloatModel.double.zero, 0)
      (fun a b => .ok (FloatModel.double.add a.1 b.1, a.2 + b.2)) Prod.snd
      (fun m => .avg m.1 (Int32.ofNat m.2))
      (fun v => if v.isNull then .ok (FloatModel.double.zero, 0)
        else do return (← v.numberToF64, 1)) where
  -- An average is a sum and a count; without a value the sum is the zero it starts from.
  monoid :=
    { unit_mem := fun _ => rfl
      closed := fun ha hb h hc => by
        cases h
        obtain ⟨ha', hb'⟩ := Nat.add_eq_zero_iff.mp hc
        rw [ha ha', hb hb', hexact.zero_add]
      unit_op := fun _ => by rw [hexact.zero_add, Nat.zero_add]
      comm := fun _ _ h => by rw [← h, hexact.add_comm, Nat.add_comm]
      assoc := fun _ _ _ hx hd => by
        cases hx
        cases hd
        exact ⟨_, rfl, by rw [hexact.add_assoc, Nat.add_assoc]⟩ }
  create_eq := rfl
  weight_unit := rfl
  weight_op h := by
    cases h
    rfl
  weight_input {v m} h := by
    split at h
    · cases h
      exact Nat.zero_le 1
    · obtain ⟨x, -, rfl⟩ := Outcome.bind_pure_eq_ok_iff.mp h
      exact le_refl 1
  input_mem {v m} _ h := by
    split at h
    · cases h
      exact fun _ => rfl
    · obtain ⟨x, -, rfl⟩ := Outcome.bind_pure_eq_ok_iff.mp h
      exact fun hm => absurd hm Nat.one_ne_zero
  accumulate_eq {m v} hlt := by
    have hm : (Int32.ofNat m.2).toInt = m.2 := Int32.toInt_ofNat_of_lt (by omega)
    show (if v.isNull then _ else _) = _
    by_cases hv : v.isNull
    · rw [if_pos hv, if_pos hv, Outcome.ok_bind, hexact.add_zero]
      rfl
    · rw [if_neg hv, if_neg hv, hm, ← Int.natCast_one, ← Int.natCast_add,
        Accumulator.checkedInt32_ofNat hlt, Outcome.ok_bind]
      cases v.numberToF64 <;> rfl
  merge_eq {m n} hn hlt := by
    have hm' : (Int32.ofNat m.2).toInt = m.2 := Int32.toInt_ofNat_of_lt (by omega)
    have hn' : (Int32.ofNat n.2).toInt = n.2 := Int32.toInt_ofNat_of_lt (by omega)
    have hzero : Int32.ofNat n.2 = 0 ↔ n.2 = 0 := by
      rw [← Int32.toInt_inj, hn', Int32.toInt_zero]
      omega
    show Accumulator.merge _ (if Int32.ofNat n.2 = 0 then _ else _) = _
    -- An average over no value is sent as a null, which a merge leaves out.
    by_cases hn0 : n.2 = 0
    · rw [if_pos (hzero.mpr hn0), hn hn0, hn0, hexact.add_zero]
      rfl
    · rw [if_neg (hzero.not.mpr hn0)]
      show (do return Accumulator.avg _ (← Runtime.checkedInt32 ((Int32.ofNat m.2).toInt +
        (Int32.ofNat n.2).toInt))) = _
      rw [hm', hn', ← Int.natCast_add, Accumulator.checkedInt32_ofNat hlt]
      rfl

/-- The values a function is over: SUM, MIN and MAX are not of floats. -/
def ExactInput (f : AggregateFunction) (v : ScalarValue) : Prop :=
  f = .sum ∨ f = .min ∨ f = .max → v.IsExact

/-- An accumulator without values adds nothing. -/
theorem merge_create (acc : Accumulator) :
    acc.merge (Accumulator.create acc.function).intermediateValue = .ok acc := by
  cases acc with
  | sum v => rfl
  | min v => rfl
  | max v => rfl
  | avg s n => rfl
  | count n =>
    show Accumulator.count <$> addCount n 0 = _
    rw [addCount_zero]
    rfl

/-- The states of accumulators over which a list of values is distributed, merged in any order into
a new one, make it what accumulating the list does; states without values add nothing. -/
theorem merge_accumulateAll_iff {f : AggregateFunction} {vs : List ScalarValue}
    {chunks : List (List ScalarValue)} (hperm : vs.Perm chunks.flatten) (hlt : vs.length < 2 ^ 31)
    (hvs : ∀ v ∈ vs, ExactInput f v) (havg : f = .avg → ExactSums) :
    (∀ acc, accumulateAll f vs = .ok acc ↔
      ∃ accs, chunks.mapM (accumulateAll f) = .ok accs ∧ ∀ order : List Accumulator,
        order.Perm accs → mergeAll f (order.map Accumulator.intermediateValue) = .ok acc) ∧
      ∀ acc : Accumulator,
        acc.merge (Accumulator.create acc.function).intermediateValue = .ok acc := by
  refine ⟨fun acc => ?_, merge_create⟩
  cases f with
  | sum =>
    exact (sum_accumulates.summarizes fun _ _ => rfl).merge_iff hperm hlt
      fun v hv => hvs v hv (.inl rfl)
  | min =>
    exact (min_accumulates.summarizes fun _ _ => rfl).merge_iff hperm hlt
      fun v hv => hvs v hv (.inr (.inl rfl))
  | max =>
    exact (max_accumulates.summarizes fun _ _ => rfl).merge_iff hperm hlt
      fun v hv => hvs v hv (.inr (.inr rfl))
  | avg => exact (avg_summarizes (havg rfl)).merge_iff hperm hlt fun _ _ => trivial
  | count => exact count_summarizes.merge_iff hperm hlt fun _ _ => trivial

end

section ExactAverages

/-- Rational numbers as a float format. -/
def rationalFormat : FloatFormat where
  Carrier := ℚ
  decEq := inferInstance
  toBits := Encodable.encode
  toBits_injective := Encodable.encode_injective
  zero := 0
  add := (· + ·)
  sub := (· - ·)
  mul := (· * ·)
  div := (· / ·)
  partialCmp x y := some (if x < y then .lt else if x = y then .eq else .gt)
  ofInt n := n
  toInt64 x := Int64.ofInt (max (-2 ^ 63) (min x.floor (2 ^ 63 - 1)))
  parse s := s.toInt?.map fun n => n
  display := toString

/-- The float model that computes with rational numbers. -/
@[reducible] def rationalFloats : FloatModel where
  single := rationalFormat
  double := rationalFormat
  widen x := x
  narrow x := x

attribute [local instance] rationalFloats insertionOrderRuntime

/-- Rational numbers are summed exactly. -/
theorem rationalFloats_exactSums : ExactSums where
  add_comm := Rat.add_comm
  add_assoc := Rat.add_assoc
  zero_add := Rat.zero_add

/-- An average over three partial ones, one of which has no values. -/
theorem merge_accumulateAll_iff_average :
    (∀ acc, accumulateAll .avg [.int32 1, .null, .int64 2, .int8 4] = .ok acc ↔
      ∃ accs, [[], [.int8 4, .int32 1], [.int64 2, .null]].mapM (accumulateAll .avg) = .ok accs ∧
        ∀ order : List Accumulator, order.Perm accs →
          mergeAll .avg (order.map Accumulator.intermediateValue) = .ok acc) ∧
      ∀ acc : Accumulator,
        acc.merge (Accumulator.create acc.function).intermediateValue = .ok acc :=
  merge_accumulateAll_iff (by decide) (by decide) (fun v _ hf => by simp at hf)
    fun _ => rationalFloats_exactSums

end ExactAverages

end RQuery
