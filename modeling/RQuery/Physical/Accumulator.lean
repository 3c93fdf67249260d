import RQuery.Physical.Expression

/-!
# Accumulators

The aggregate functions fold a group's values into an accumulator, one value at a time
(`accumulate`) or one partial result at a time (`merge`). The counters of COUNT and AVG are `i32`s;
integer sums wrap.
-/

namespace RQuery

variable [FloatModel]

/-- What an aggregate stage reads and writes. -/
inductive AggregateMode
  /-- Read values, write results. -/
  | completeMode
  /-- Read values, write intermediate states. -/
  | partialMode
  /-- Read intermediate states, write results. -/
  | finalMode
  deriving DecidableEq, Repr

/-- The aggregate functions with a physical operator. -/
inductive AggregateFunction
  | sum
  | min
  | max
  | avg
  | count
  deriving DecidableEq, Repr

/-- A physical aggregate: a function of an input expression. -/
structure AggregateExpression where
  function : AggregateFunction
  inputExpression : Expression
  deriving DecidableEq

abbrev SumExpression (e : Expression) : AggregateExpression := ⟨.sum, e⟩
abbrev MinExpression (e : Expression) : AggregateExpression := ⟨.min, e⟩
abbrev MaxExpression (e : Expression) : AggregateExpression := ⟨.max, e⟩
abbrev AvgExpression (e : Expression) : AggregateExpression := ⟨.avg, e⟩
abbrev CountExpression (e : Expression) : AggregateExpression := ⟨.count, e⟩

/-- The state of one aggregate over one group. -/
inductive Accumulator
  | sum (value : ScalarValue)
  | min (value : ScalarValue)
  | max (value : ScalarValue)
  | avg (sum : F64) (count : Int32)
  | count (count : Int32)
  deriving DecidableEq

/-- An intermediate result. AVG's is compound. -/
inductive AccumulatorValue
  | scalar (v : ScalarValue)
  | avgState (sum : F64) (count : Int32)
  deriving DecidableEq

namespace ScalarValue

/-- `cmp_scalar`. -/
def cmpScalar (a b : ScalarValue) : Result (Option Ordering) :=
  match a, b with
  | int8 x, int8 y => .ok (some (compare x y))
  | int16 x, int16 y => .ok (some (compare x y))
  | int32 x, int32 y => .ok (some (compare x y))
  | int64 x, int64 y => .ok (some (compare x y))
  | uint8 x, uint8 y => .ok (some (compare x y))
  | uint16 x, uint16 y => .ok (some (compare x y))
  | uint32 x, uint32 y => .ok (some (compare x y))
  | uint64 x, uint64 y => .ok (some (compare x y))
  | float32 x, float32 y => .ok (FloatModel.single.partialCmp x y)
  | float64 x, float64 y => .ok (FloatModel.double.partialCmp x y)
  | utf8 x, utf8 y => .ok (some (compare x y))
  | date32 x, date32 y => .ok (some (compare x y))
  | _, _ => .error (.unsupported "MIN/MAX")

/-- `scalar_lt` and `scalar_gt`: `a` compares to `b` as `o`. -/
def comparesAs (o : Ordering) (a b : ScalarValue) : Result Bool := do
  return (← cmpScalar a b) == some o

/-- `scalar_add`: wrapping on integers. -/
def scalarAdd (a b : ScalarValue) : Result ScalarValue :=
  match a, b with
  | int8 x, int8 y => .ok (int8 (x + y))
  | int16 x, int16 y => .ok (int16 (x + y))
  | int32 x, int32 y => .ok (int32 (x + y))
  | int64 x, int64 y => .ok (int64 (x + y))
  | uint8 x, uint8 y => .ok (uint8 (x + y))
  | uint16 x, uint16 y => .ok (uint16 (x + y))
  | uint32 x, uint32 y => .ok (uint32 (x + y))
  | uint64 x, uint64 y => .ok (uint64 (x + y))
  | float32 x, float32 y => .ok (float32 (FloatModel.single.add x y))
  | float64 x, float64 y => .ok (float64 (FloatModel.double.add x y))
  | _, _ => .error (.unsupported "SUM")

end ScalarValue

namespace Accumulator

/-- `create_accumulator`. -/
def create : AggregateFunction → Accumulator
  | .sum => sum .null
  | .min => min .null
  | .max => max .null
  | .avg => avg FloatModel.double.zero 0
  | .count => count 0

/-- The update of MIN and MAX: a non-null value replaces a null and any value it compares to as
`o`. -/
def better (o : Ordering) (current v : ScalarValue) : Result ScalarValue :=
  if v.isNull then
    .ok current
  else if current.isNull then
    .ok v
  else do
    return if ← v.comparesAs o current then v else current

variable [Runtime]

/-- `accumulate`. -/
def accumulate (acc : Accumulator) (v : ScalarValue) : Result Accumulator :=
  match acc with
  | sum current => do
    if v.isNull then return sum current
    else if current.isNull then return sum v
    else return sum (← current.scalarAdd v)
  | min current => do return min (← better .lt current v)
  | max current => do return max (← better .gt current v)
  | avg s n => do
    if v.isNull then return avg s n
    else
      let n ← Runtime.checkedInt32 (n.toInt + 1)
      return avg (FloatModel.double.add s (← v.numberToF64)) n
  | count n => do
    if v.isNull then return count n
    else return count (← Runtime.checkedInt32 (n.toInt + 1))

omit [Runtime] in
/-- `final_value`. -/
def finalValue : Accumulator → ScalarValue
  | sum v => v
  | min v => v
  | max v => v
  | avg s n =>
    if n = 0 then .null else .float64 (FloatModel.double.div s (FloatModel.double.ofInt n.toInt))
  | count n => .int32 n

omit [Runtime] in
/-- `intermediate_value`. -/
def intermediateValue : Accumulator → AccumulatorValue
  | avg s n => if n = 0 then .scalar .null else .avgState s n
  | acc => .scalar acc.finalValue

/-- `merge`. -/
def merge (acc : Accumulator) (other : AccumulatorValue) : Result Accumulator :=
  match acc, other with
  | avg s n, .avgState s' n' => do
    return avg (FloatModel.double.add s s') (← Runtime.checkedInt32 (n.toInt + n'.toInt))
  | avg s n, .scalar .null => .ok (avg s n)
  | avg _ _, .scalar _ => .error (.typeMismatch "Cannot merge AVG")
  | count n, .scalar v => do
    if v.isNull then return count n
    else return count (← Runtime.checkedInt32 (n.toInt + (← v.numberToInt64).toInt32.toInt))
  | acc, .scalar v => acc.accumulate v
  | acc, .avgState _ _ => .ok acc

/-- The step of an aggregate stage: the final stage merges partial results, the others accumulate
values. -/
def step (mode : AggregateMode) (acc : Accumulator) (v : ScalarValue) : Result Accumulator :=
  match mode with
  | .finalMode => acc.merge (.scalar v)
  | _ => acc.accumulate v

omit [Runtime] in
/-- The output of an aggregate stage. AVG's intermediate state is no scalar. -/
def output (mode : AggregateMode) (acc : Accumulator) : Result ScalarValue :=
  match mode with
  | .partialMode =>
    match acc.intermediateValue with
    | .scalar v => .ok v
    | .avgState _ _ => .error (.unsupported "PARTIAL output of AVG intermediate state")
  | _ => .ok acc.finalValue

end Accumulator

/-- The aggregate of one group's values. -/
def aggregate [Runtime] (mode : AggregateMode) (f : AggregateFunction) (vs : List ScalarValue) :
    Result ScalarValue := do
  let acc ← vs.foldlM (Accumulator.step mode) (Accumulator.create f)
  acc.output mode

end RQuery
