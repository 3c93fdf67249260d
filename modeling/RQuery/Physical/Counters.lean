import RQuery.Physical.Accumulator

/-!
# The counters of COUNT and AVG

Both accumulators count in an `i32`, however many values they are given, one by one or as partial
results. A run is a list of calls, some of which merge the state that another run ended in, so that
partial results are of any size and depth.

`run_countsExactly_iff` says when every state of a run has counted exactly: the counter holds the
number of values as long as this is below `2 ^ 31`, and from there on panics or wraps.
-/

namespace RQuery

section

variable [FloatModel]

/-- The integer in a cell. -/
def ScalarValue.integer? : ScalarValue → Option ℤ
  | int8 n => some n.toInt
  | int16 n => some n.toInt
  | int32 n => some n.toInt
  | int64 n => some n.toInt
  | uint8 n => some n.toNat
  | uint16 n => some n.toNat
  | uint32 n => some n.toNat
  | uint64 n => some n.toNat
  | _ => none

/-- The number of values a partial result reports. -/
def AccumulatorValue.reported : AccumulatorValue → ℕ
  | .scalar v => (v.integer?.getD 0).toNat
  | .avgState _ n => n.toInt.toNat

/-- A call on an accumulator. -/
inductive AccumulatorCall
  | accumulate (v : ScalarValue)
  /-- Merge the intermediate value of an accumulator that took these calls. -/
  | mergeRun (calls : List AccumulatorCall)
  /-- Merge a partial result from elsewhere. -/
  | mergeState (state : AccumulatorValue)

namespace AccumulatorCall

/-! ## What the calls contribute -/

mutual

/-- The number of non-null values a call contributes. -/
def contributed : AccumulatorCall → ℕ
  | accumulate v => if v.isNull then 0 else 1
  | mergeRun calls => contributedAll calls
  | mergeState state => state.reported

def contributedAll : List AccumulatorCall → ℕ
  | [] => 0
  | call :: calls => contributed call + contributedAll calls

end

/-- A partial result that a counter of `f` can have ended in, or a count in another integer type. -/
def IsPartialOf (f : AggregateFunction) : AccumulatorValue → Prop
  | .scalar v => v = .null ∨ f = .count ∧ ∃ k, v.integer? = some k ∧ 0 ≤ k
  | .avgState _ n => f = .avg ∧ 0 ≤ n.toInt

mutual

/-- The call is one for `f`: AVG is of numbers. -/
def For (f : AggregateFunction) : AccumulatorCall → Prop
  | accumulate v => v = .null ∨ f = .count ∨ f = .avg ∧ Outcome.Succeeds v.numberToF64
  | mergeRun calls => AllFor f calls
  | mergeState state => IsPartialOf f state

def AllFor (f : AggregateFunction) : List AccumulatorCall → Prop
  | [] => True
  | call :: calls => For f call ∧ AllFor f calls

end

/-! ## Runs -/

variable [Runtime]

mutual

/-- Make a call. -/
def apply (f : AggregateFunction) (acc : Accumulator) : AccumulatorCall → Result Accumulator
  | accumulate v => acc.accumulate v
  | mergeRun calls => do acc.merge (← applyAll f (Accumulator.create f) calls).intermediateValue
  | mergeState state => acc.merge state

/-- Make the calls in order. -/
def applyAll (f : AggregateFunction) (acc : Accumulator) :
    List AccumulatorCall → Result Accumulator
  | [] => .ok acc
  | call :: calls => do applyAll f (← apply f acc call) calls

end

/-- The calls on a new accumulator of `f`. -/
def run (f : AggregateFunction) (calls : List AccumulatorCall) : Result Accumulator :=
  applyAll f (Accumulator.create f) calls

end AccumulatorCall

namespace Accumulator

/-- The outcome is that of exactly `n` values: COUNT is `n`, and AVG divides by `n`. -/
def CountsExactly (acc : Accumulator) (n : ℕ) : Prop :=
  match acc with
  | count _ => ∃ m : Int32, acc.finalValue = .int32 m ∧ m.toInt = n
  | avg s m => m.toInt = n ∧ acc.finalValue =
      if n = 0 then .null
      else .float64 (FloatModel.double.div s (FloatModel.double.ofInt n))
  | _ => False

/-- The accumulator of `f` with a counter at `n`. -/
def HasCount (f : AggregateFunction) (acc : Accumulator) (n : ℕ) : Prop :=
  match acc with
  | count m => f = .count ∧ m.toInt = n
  | avg _ m => f = .avg ∧ m.toInt = n
  | _ => False

variable {f : AggregateFunction} {acc : Accumulator} {n : ℕ}

/-- An accumulator with a count below the bound counts exactly. -/
theorem HasCount.countsExactly (h : HasCount f acc n) : acc.CountsExactly n := by
  cases acc with
  | count m => exact ⟨m, rfl, h.2⟩
  | avg s m =>
    refine ⟨h.2, ?_⟩
    have hzero : m = 0 ↔ n = 0 := by
      rw [← Int32.toInt_inj, h.2, Int32.toInt_zero]
      omega
    by_cases hn : n = 0
    · rw [if_pos hn, finalValue, if_pos (hzero.mpr hn)]
    · rw [if_neg hn, finalValue, if_neg (hzero.not.mpr hn), h.2]
  | sum v => exact h.elim
  | min v => exact h.elim
  | max v => exact h.elim

/-- The counter is an `i32`. -/
theorem CountsExactly.lt (h : acc.CountsExactly n) : n < 2 ^ 31 := by
  have hlt : ∀ m : Int32, m.toInt = n → n < 2 ^ 31 := by
    intro m hm
    have := Int32.toInt_lt m
    omega
  cases acc with
  | count m =>
    obtain ⟨k, -, hk⟩ := h
    exact hlt k hk
  | avg s m => exact hlt m h.1
  | sum v => exact h.elim
  | min v => exact h.elim
  | max v => exact h.elim

/-- A new accumulator has counted nothing. -/
theorem hasCount_create (hf : f = .count ∨ f = .avg) : HasCount f (create f) 0 := by
  rcases hf with rfl | rfl <;> exact ⟨rfl, rfl⟩

/-! ## One call -/

variable [Runtime]

omit [FloatModel] in
/-- In range the counter is exact, in debug and in release builds. -/
theorem checkedInt32_ofNat {k : ℕ} (h : k < 2 ^ 31) :
    Runtime.checkedInt32 k = .ok (Int32.ofNat k) := by
  refine Runtime.checkedInt32_eq_ok_iff.mpr ⟨fun _ => ⟨by omega, by omega⟩, ?_⟩
  rw [← Int32.toInt_inj, Int32.toInt_ofNat_of_lt h, Int32.toInt_ofInt_of_le (by omega) (by omega)]

omit [FloatModel] in
/-- A number below `2 ^ 31` passes the check. -/
theorem checkedInt32_of_lt {k : ℕ} (h : k < 2 ^ 31) :
    ∃ m, Runtime.checkedInt32 k = .ok m ∧ m.toInt = k :=
  ⟨_, checkedInt32_ofNat h, Int32.toInt_ofNat_of_lt h⟩

/-- A value that is not null is counted. -/
theorem HasCount.accumulate (h : HasCount f acc n) {v : ScalarValue}
    (hv : v = .null ∨ f = .count ∨ f = .avg ∧ Outcome.Succeeds v.numberToF64)
    (hlt : n + (if v.isNull then 0 else 1) < 2 ^ 31) :
    ∃ acc', acc.accumulate v = .ok acc' ∧ HasCount f acc' (n + if v.isNull then 0 else 1) := by
  -- Only COUNT and AVG keep a counter; a null leaves it where it is.
  cases acc with
  | count m =>
    obtain ⟨rfl, hm⟩ := h
    by_cases hnull : v.isNull
    · simp only [if_pos hnull, Accumulator.accumulate]
      exact ⟨_, rfl, rfl, hm⟩
    · simp only [if_neg hnull, Accumulator.accumulate] at hlt ⊢
      obtain ⟨m', hm', hval⟩ := checkedInt32_of_lt hlt
      refine ⟨.count m', ?_, rfl, hval⟩
      rw [hm, show ((n : ℤ) + 1) = ((n + 1 : ℕ) : ℤ) by omega, hm']
      rfl
  | avg s m =>
    obtain ⟨rfl, hm⟩ := h
    by_cases hnull : v.isNull
    · simp only [if_pos hnull, Accumulator.accumulate]
      exact ⟨_, rfl, rfl, hm⟩
    · simp only [if_neg hnull, Accumulator.accumulate] at hlt ⊢
      obtain ⟨m', hm', hval⟩ := checkedInt32_of_lt hlt
      rcases hv with hv | hv | ⟨-, x, hx⟩
      · exact absurd (ScalarValue.isNull_iff.mpr hv) hnull
      · cases hv
      · refine ⟨.avg (FloatModel.double.add s x) m', ?_, rfl, hval⟩
        rw [hm, show ((n : ℤ) + 1) = ((n + 1 : ℕ) : ℤ) by omega, hm', hx]
        rfl
  | sum v => exact h.elim
  | min v => exact h.elim
  | max v => exact h.elim

omit [Runtime] in
/-- Reading a count below `2 ^ 31` does not truncate it. -/
theorem numberToInt64_of_integer {v : ScalarValue} {k : ℕ} (hv : v.integer? = some (k : ℤ))
    (hk : k < 2 ^ 31) : ∃ m, v.numberToInt64 = .ok m ∧ m.toInt32.toInt = k := by
  have hofNat : (Int64.ofNat k).toInt32.toInt = k := by
    rw [Int64.toInt32_ofNat', Int32.toInt_ofNat_of_lt (by omega)]
  cases v <;> simp only [ScalarValue.integer?, Option.some.injEq, reduceCtorEq,
    ScalarValue.numberToInt64] at hv ⊢
  case uint8 n => exact ⟨_, rfl, by rw [show n.toNat = k by omega, hofNat]⟩
  case uint16 n => exact ⟨_, rfl, by rw [show n.toNat = k by omega, hofNat]⟩
  case uint32 n => exact ⟨_, rfl, by rw [show n.toNat = k by omega, hofNat]⟩
  case uint64 n => exact ⟨_, rfl, by rw [show n.toNat = k by omega, hofNat]⟩
  case int8 n => exact ⟨_, rfl, by simpa using hv⟩
  case int16 n => exact ⟨_, rfl, by simpa using hv⟩
  case int32 n => exact ⟨_, rfl, by simpa using hv⟩
  case int64 n =>
    refine ⟨_, rfl, ?_⟩
    have hn : n = Int64.ofNat k := by
      rw [← Int64.toInt_inj, hv, Int64.toInt_ofNat_of_lt (by omega)]
    rw [hn, hofNat]

/-- A partial result is counted as the values that it reports. -/
theorem HasCount.mergeState (h : HasCount f acc n) {state : AccumulatorValue}
    (hstate : AccumulatorCall.IsPartialOf f state) (hlt : n + state.reported < 2 ^ 31) :
    ∃ acc', acc.merge state = .ok acc' ∧ HasCount f acc' (n + state.reported) := by
  cases acc with
  | count m =>
    obtain ⟨rfl, hm⟩ := h
    cases state with
    | avgState s k => cases hstate.1
    | scalar v =>
      -- A partial count of an empty group is a null, every other one a number that is not negative.
      rcases hstate with rfl | ⟨-, k, hk, hpos⟩
      · exact ⟨.count m, rfl, rfl, hm⟩
      -- The partial count is read as an `i64`, cut to an `i32` and added under the build's check.
      · obtain ⟨k, rfl⟩ := Int.eq_ofNat_of_zero_le hpos
        have hreported : (AccumulatorValue.scalar v).reported = k := by
          rw [AccumulatorValue.reported, hk, Option.getD_some, Int.toNat_natCast]
        rw [hreported] at hlt ⊢
        obtain ⟨r, hr, hval⟩ := numberToInt64_of_integer hk (by omega)
        obtain ⟨m', hm', hval'⟩ := checkedInt32_of_lt hlt
        have hnull : ¬v.isNull := by
          intro hnull
          rw [ScalarValue.isNull_iff.mp hnull] at hk
          cases hk
        refine ⟨.count m', ?_, rfl, hval'⟩
        rw [merge, if_neg hnull, hr, Outcome.ok_bind, hval, hm, ← Int.natCast_add, hm']
        rfl
  | avg s m =>
    obtain ⟨rfl, hm⟩ := h
    cases state with
    | scalar v =>
      rcases hstate with rfl | ⟨hf, -⟩
      · exact ⟨.avg s m, rfl, rfl, hm⟩
      · cases hf
    | avgState s' k =>
      obtain ⟨-, hpos⟩ := hstate
      have hk : k.toInt = ((AccumulatorValue.avgState s' k).reported : ℕ) :=
        (Int.toNat_of_nonneg hpos).symm
      obtain ⟨m', hm', hval⟩ := checkedInt32_of_lt hlt
      refine ⟨.avg (FloatModel.double.add s s') m', ?_, rfl, hval⟩
      rw [merge, hm, hk, ← Int.natCast_add, hm']
      rfl
  | sum v => exact h.elim
  | min v => exact h.elim
  | max v => exact h.elim

omit [Runtime] in
/-- An accumulator reports what it has counted. -/
theorem HasCount.reported (h : HasCount f acc n) :
    AccumulatorCall.IsPartialOf f acc.intermediateValue ∧ acc.intermediateValue.reported = n := by
  cases acc with
  | count m =>
    obtain ⟨rfl, hm⟩ := h
    refine ⟨.inr ⟨rfl, m.toInt, rfl, by omega⟩, ?_⟩
    show m.toInt.toNat = n
    omega
  | avg s m =>
    obtain ⟨rfl, hm⟩ := h
    have hstate : (avg s m).intermediateValue = if m = 0 then .scalar .null else .avgState s m :=
      rfl
    by_cases hzero : m = 0
    · subst hzero
      rw [hstate, if_pos rfl]
      refine ⟨.inl rfl, ?_⟩
      rw [Int32.toInt_zero] at hm
      show 0 = n
      omega
    · rw [hstate, if_neg hzero]
      refine ⟨⟨rfl, by omega⟩, ?_⟩
      show m.toInt.toNat = n
      omega
  | sum v => exact h.elim
  | min v => exact h.elim
  | max v => exact h.elim

end Accumulator

namespace AccumulatorCall

open Accumulator

variable [Runtime] {f : AggregateFunction}

/-! ## Whole runs -/

mutual

/-- A call on an exact counter leaves it exact, as long as it stays in range. -/
theorem apply_hasCount (hf : f = .count ∨ f = .avg) {acc : Accumulator} {n : ℕ} :
    ∀ {call : AccumulatorCall}, For f call → HasCount f acc n → n + contributed call < 2 ^ 31 →
      ∃ acc', apply f acc call = .ok acc' ∧ HasCount f acc' (n + contributed call)
  | accumulate v, hcall, h, hlt => h.accumulate hcall hlt
  | mergeState state, hcall, h, hlt => h.mergeState hcall hlt
  | mergeRun calls, hcall, h, hlt => by
    rw [contributed] at hlt ⊢
    obtain ⟨part, hpart, hcount⟩ := applyAll_hasCount hf hcall (hasCount_create hf) (by omega)
    obtain ⟨hstate, hreported⟩ := hcount.reported
    rw [Nat.zero_add] at hreported
    obtain ⟨acc', hacc', hcount'⟩ := h.mergeState hstate (by omega)
    refine ⟨acc', ?_, hreported ▸ hcount'⟩
    rw [apply, hpart, Outcome.ok_bind, hacc']

/-- A run of calls counts what its calls contribute, as long as the bound is kept. -/
theorem applyAll_hasCount (hf : f = .count ∨ f = .avg) {acc : Accumulator} {n : ℕ} :
    ∀ {calls : List AccumulatorCall}, AllFor f calls → HasCount f acc n →
      n + contributedAll calls < 2 ^ 31 →
      ∃ acc', applyAll f acc calls = .ok acc' ∧ HasCount f acc' (n + contributedAll calls)
  | [], _, h, _ => ⟨acc, rfl, h⟩
  | call :: calls, hcalls, h, hlt => by
    rw [contributedAll] at hlt ⊢
    obtain ⟨acc₁, hacc₁, h₁⟩ := apply_hasCount hf hcalls.1 h (by omega)
    obtain ⟨acc₂, hacc₂, h₂⟩ := applyAll_hasCount hf hcalls.2 h₁ (by omega)
    refine ⟨acc₂, ?_, by rwa [← Nat.add_assoc]⟩
    rw [applyAll, hacc₁, Outcome.ok_bind, hacc₂]

end

omit [Runtime] in
/-- Calls contribute what both parts do. -/
theorem contributedAll_append (calls calls' : List AccumulatorCall) :
    contributedAll (calls ++ calls') = contributedAll calls + contributedAll calls' := by
  induction calls with
  | nil => rw [List.nil_append, contributedAll, Nat.zero_add]
  | cons call calls ih => rw [List.cons_append, contributedAll, contributedAll, ih, Nat.add_assoc]

omit [Runtime] in
/-- A beginning of a run is a run for the same function. -/
theorem AllFor.of_append {calls calls' : List AccumulatorCall} (h : AllFor f (calls ++ calls')) :
    AllFor f calls := by
  induction calls with
  | nil => trivial
  | cons call calls ih => exact ⟨h.1, ih h.2⟩

/-- Every state of a run has counted exactly if and only if fewer than `2 ^ 31` values are
contributed. -/
theorem run_countsExactly_iff (hf : f = .count ∨ f = .avg) {calls : List AccumulatorCall}
    (hcalls : AllFor f calls) :
    (∀ done, done <+: calls →
      ∃ acc, run f done = .ok acc ∧ acc.CountsExactly (contributedAll done)) ↔
      contributedAll calls < 2 ^ 31 := by
  constructor
  · intro h
    obtain ⟨acc, -, hexact⟩ := h calls (List.prefix_refl calls)
    exact hexact.lt
  · rintro hlt done ⟨rest, rfl⟩
    rw [contributedAll_append] at hlt
    obtain ⟨acc, hacc, hcount⟩ :=
      applyAll_hasCount hf hcalls.of_append (hasCount_create hf) (n := 0) (by omega)
    rw [Nat.zero_add] at hcount
    exact ⟨acc, hacc, hcount.countsExactly⟩

end AccumulatorCall

end

namespace AccumulatorCall

attribute [local instance] integerFloats insertionOrderRuntime

/-- A run over two values and a partial count of three. -/
theorem run_countsExactly_iff_five :
    (∀ done, done <+: [accumulate (.utf8 "a"), accumulate (.utf8 "b"), accumulate .null,
        mergeState (.scalar (.int32 3))] →
      ∃ acc, run .count done = .ok acc ∧ acc.CountsExactly (contributedAll done)) ↔
      contributedAll [accumulate (.utf8 "a"), accumulate (.utf8 "b"), accumulate .null,
        mergeState (.scalar (.int32 3))] < 2 ^ 31 :=
  run_countsExactly_iff (.inl rfl)
    ⟨.inr (.inl rfl), .inr (.inl rfl), .inl rfl, .inr ⟨rfl, 3, by decide, by decide⟩, trivial⟩

/-- Two partial counts of `2 ^ 30` values. -/
def twoHalves : List AccumulatorCall :=
  [mergeState (.scalar (.int32 (2 ^ 30))), mergeState (.scalar (.int32 (2 ^ 30)))]

/-- Merging two halves of `2 ^ 31` values overflows the counter. -/
theorem run_twoHalves_overflows :
    AllFor .count twoHalves ∧ run .count twoHalves = .error .overflow ∧
      ¬ ∀ done, done <+: twoHalves →
        ∃ acc, run .count done = .ok acc ∧ acc.CountsExactly (contributedAll done) := by
  have hoverflow : run .count twoHalves = .error .overflow := by decide
  refine ⟨?_, hoverflow, fun h => ?_⟩
  · exact ⟨.inr ⟨rfl, 2 ^ 30, by decide, by decide⟩, .inr ⟨rfl, 2 ^ 30, by decide, by decide⟩,
      trivial⟩
  · obtain ⟨acc, hacc, -⟩ := h twoHalves (List.prefix_refl twoHalves)
    rw [hoverflow] at hacc
    cases hacc

end AccumulatorCall

end RQuery
