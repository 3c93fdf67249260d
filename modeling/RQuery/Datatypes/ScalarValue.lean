import RQuery.Datatypes.FloatModel
import Mathlib.Data.String.Basic

/-!
# Arrow types and scalar values

`DataType` lists the types of `arrow_types.rs` together with the arrow types that the engine only
recognises or rejects. `ScalarValue` is a single cell.
-/

namespace RQuery

/-- An arrow data type. The last constructors are types that no builder supports. -/
inductive DataType
  | null
  | boolean
  | int8
  | int16
  | int32
  | int64
  | uint8
  | uint16
  | uint32
  | uint64
  | float16
  | float32
  | float64
  | utf8
  | binary
  | date32
  | decimal128 (precision : UInt8) (scale : Int8)
  | decimal256 (precision : UInt8) (scale : Int8)
  /-- `Interval(DayTime)`. -/
  | intervalDayTime
  /-- `Timestamp(Microsecond, None)`. -/
  | timestampMicro
  /-- Any other arrow type, by its name. -/
  | unsupported (name : String)
  deriving DecidableEq, Repr

namespace DataType

/-- The types `ArrowVectorBuilder::new` has a builder for, which are the types whose non-null cells
`ArrowFieldVector::value` can read. -/
def hasBuilder : DataType → Bool
  | boolean | int8 | int16 | int32 | int64 | uint8 | uint16 | uint32 | uint64
  | float32 | float64 | utf8 | binary | date32 => true
  | _ => false

end DataType

variable [FloatModel]

/-- A single column value. -/
inductive ScalarValue
  | null
  | boolean (b : Bool)
  | int8 (n : Int8)
  | int16 (n : Int16)
  | int32 (n : Int32)
  | int64 (n : Int64)
  | uint8 (n : UInt8)
  | uint16 (n : UInt16)
  | uint32 (n : UInt32)
  | uint64 (n : UInt64)
  | float32 (f : F32)
  | float64 (f : F64)
  | utf8 (s : String)
  | binary (b : List UInt8)
  | date32 (d : Int32)
  deriving DecidableEq

namespace ScalarValue

def dataType : ScalarValue → DataType
  | null => .null
  | boolean _ => .boolean
  | int8 _ => .int8
  | int16 _ => .int16
  | int32 _ => .int32
  | int64 _ => .int64
  | uint8 _ => .uint8
  | uint16 _ => .uint16
  | uint32 _ => .uint32
  | uint64 _ => .uint64
  | float32 _ => .float32
  | float64 _ => .float64
  | utf8 _ => .utf8
  | binary _ => .binary
  | date32 _ => .date32

def isNull : ScalarValue → Bool
  | null => true
  | _ => false

@[simp] theorem isNull_iff {v : ScalarValue} : v.isNull = true ↔ v = null := by
  cases v <;> simp [isNull]

/-- The cell can stand in a column of type `t`: it is null or of that type. -/
def FitsIn (v : ScalarValue) (t : DataType) : Prop :=
  v = null ∨ v.dataType = t

instance (v : ScalarValue) (t : DataType) : Decidable (v.FitsIn t) :=
  inferInstanceAs (Decidable (_ ∨ _))

@[simp] theorem null_fitsIn (t : DataType) : null.FitsIn t := .inl rfl

/-- A value fits in its own type. -/
theorem fitsIn_dataType (v : ScalarValue) : v.FitsIn v.dataType := .inr rfl

/-- A non-null cell determines the type of its column. -/
theorem FitsIn.dataType_eq {v : ScalarValue} {t : DataType} (h : v.FitsIn t) (hv : v ≠ null) :
    v.dataType = t :=
  h.resolve_left hv

end ScalarValue

end RQuery
