import RQuery.Datatypes.Schema
import RQuery.Datatypes.NaiveDate

/-!
# Logical expressions

`LogicalExpr` and the aggregates of `AggregateExpr`. `toField` gives the name and type of an
expression's column over an input of a known schema; the schema of the input is a computation, since
deriving it can panic, and is derived only where a column is looked up.
-/

namespace RQuery

variable [FloatModel]

/-- The two-operand expressions. -/
inductive BinaryOp
  | eq
  | neq
  | gt
  | gtEq
  | lt
  | ltEq
  | and
  | or
  | add
  | subtract
  | multiply
  | divide
  | modulus
  deriving DecidableEq, Repr

/-- The aggregate functions of the logical plan. -/
inductive AggregateFn
  | sum
  | min
  | max
  | avg
  | count
  | countDistinct
  deriving DecidableEq, Repr

/-- A logical expression. The arguments of a scalar function are left out: no function reads
them. -/
inductive LogicalExpr
  /-- Reference to a column by name. -/
  | column (name : String)
  /-- Reference to a column by index. -/
  | columnIndex (i : ℕ)
  | literalString (value : String)
  | literalLong (value : Int64)
  | literalFloat (value : F32)
  | literalDouble (value : F64)
  | literalDate (value : NaiveDate)
  | literalIntervalDays (days : Int64)
  | dateSubtractInterval (date interval : LogicalExpr)
  | dateAddInterval (date interval : LogicalExpr)
  | cast (expr : LogicalExpr) (dataType : DataType)
  | not (expr : LogicalExpr)
  | binary (op : BinaryOp) (l r : LogicalExpr)
  /-- `expr AS name`. -/
  | aliased (expr : LogicalExpr) (name : String)
  | scalarFunction (name : String) (returnType : DataType)
  /-- An aggregate used as an expression. -/
  | aggregateExpr (fn : AggregateFn) (expr : LogicalExpr)
  deriving DecidableEq

/-- An aggregate of the `Aggregate` plan: a function of an argument expression. -/
structure AggregateExpr where
  fn : AggregateFn
  expr : LogicalExpr
  deriving DecidableEq

/-- The field name of a two-operand expression. -/
def BinaryOp.fieldName : BinaryOp → String
  | eq => "eq"
  | neq => "neq"
  | gt => "gt"
  | gtEq => "gteq"
  | lt => "lt"
  | ltEq => "lteq"
  | and => "and"
  | or => "or"
  | add => "add"
  | subtract => "subtract"
  | multiply => "mult"
  | divide => "div"
  | modulus => "mod"

/-- The arithmetic operators have the type of their left operand, the others are boolean. -/
def BinaryOp.isMath : BinaryOp → Bool
  | add | subtract | multiply | divide | modulus => true
  | _ => false

/-- The field name of an aggregate. -/
def AggregateFn.fieldName : AggregateFn → String
  | sum => "SUM"
  | min => "MIN"
  | max => "MAX"
  | avg => "AVG"
  | count => "COUNT"
  | countDistinct => "COUNT_DISTINCT"

/-- The field of an aggregate of an argument with the given field. -/
def AggregateFn.toField (fn : AggregateFn) (argument : Result Field) : Result Field :=
  match fn with
  | count => .ok ⟨fn.fieldName, .int32⟩
  | countDistinct => .ok ⟨fn.fieldName, .uint32⟩
  | _ => do return ⟨fn.fieldName, (← argument).dataType⟩

namespace LogicalExpr

/-- The first field of the given name. -/
def findField (schema : Schema) (name : String) : Result Field :=
  match schema.fields.find? fun f => f.name = name with
  | some f => .ok f
  | none => .error (.unknownColumn name)

/-- `to_field`: name and type of the value the expression produces. -/
def toField (input : Result Schema) : LogicalExpr → Result Field
  | column name => do findField (← input) name
  | columnIndex i => do index (← input).fields i
  | literalString s => .ok ⟨s, .utf8⟩
  | literalLong n => .ok ⟨toString n, .int64⟩
  | literalFloat f => .ok ⟨FloatModel.single.display f, .float32⟩
  | literalDouble f => .ok ⟨FloatModel.double.display f, .float64⟩
  | literalDate d => .ok ⟨d.display, .date32⟩
  | literalIntervalDays n => .ok ⟨toString n ++ " days", .intervalDayTime⟩
  | dateSubtractInterval _ _ => .ok ⟨"date_subtract", .date32⟩
  | dateAddInterval _ _ => .ok ⟨"date_add", .date32⟩
  | cast e t => do return ⟨(← e.toField input).name, t⟩
  | not _ => .ok ⟨"not", .boolean⟩
  | binary op l _ =>
    if op.isMath then do return ⟨op.fieldName, (← l.toField input).dataType⟩
    else .ok ⟨op.fieldName, .boolean⟩
  | aliased e name => do return ⟨name, (← e.toField input).dataType⟩
  | scalarFunction name t => .ok ⟨name, t⟩
  | aggregateExpr fn e => fn.toField (e.toField input)

end LogicalExpr

namespace AggregateExpr

/-- `AggregateExpr::to_field`. -/
def toField (input : Result Schema) (a : AggregateExpr) : Result Field :=
  a.fn.toField (a.expr.toField input)

end AggregateExpr

end RQuery
