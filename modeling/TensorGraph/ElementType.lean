/-! Primitive element types, storage classes and matrix layouts. -/

namespace TensorGraph

/-- A primitive element type. Half precision can be planned with, but has neither a memory pool
nor arithmetic. -/
inductive ElementType
  | u8 | u16 | u32 | u64
  | i8 | i16 | i32 | i64
  | f16 | f32 | f64
  deriving DecidableEq, Repr, Inhabited

namespace ElementType

def all : List ElementType :=
  [.u8, .u16, .u32, .u64, .i8, .i16, .i32, .i64, .f16, .f32, .f64]

def byteSize : ElementType → Nat
  | .u8 | .i8 => 1
  | .u16 | .i16 | .f16 => 2
  | .u32 | .i32 | .f32 => 4
  | .u64 | .i64 | .f64 => 8

def bits (elementType : ElementType) : Nat := 8 * elementType.byteSize

def name : ElementType → String
  | .u8 => "UINT8"
  | .u16 => "UINT16"
  | .u32 => "UINT32"
  | .u64 => "UINT64"
  | .i8 => "INT8"
  | .i16 => "INT16"
  | .i32 => "INT32"
  | .i64 => "INT64"
  | .f16 => "F16"
  | .f32 => "F32"
  | .f64 => "F64"

def index : ElementType → Nat
  | .u8 => 0
  | .u16 => 1
  | .u32 => 2
  | .u64 => 3
  | .i8 => 4
  | .i16 => 5
  | .i32 => 6
  | .i64 => 7
  | .f16 => 8
  | .f32 => 9
  | .f64 => 10

def isFloat : ElementType → Bool
  | .f16 | .f32 | .f64 => true
  | _ => false

def isSigned : ElementType → Bool
  | .i8 | .i16 | .i32 | .i64 => true
  | _ => false

def hasPool : ElementType → Bool
  | .f16 => false
  | _ => true

theorem hasPool_iff {elementType : ElementType} :
    elementType.hasPool = true ↔ elementType ≠ .f16 := by
  cases elementType <;> decide

theorem mem_all (elementType : ElementType) : elementType ∈ all := by
  cases elementType <;> decide

theorem all_getElem?_index (elementType : ElementType) :
    all[elementType.index]? = some elementType := by
  cases elementType <;> rfl

theorem byteSize_pos (elementType : ElementType) : 0 < elementType.byteSize := by
  cases elementType <;> decide

end ElementType

/-- Where a tensor lives. Planning carries it along; memory always serves from the host. -/
inductive StorageClass
  | host
  | device
  deriving DecidableEq, Repr, Inhabited

/-- How the elements of a matrix follow one another. -/
inductive Layout
  | rowMajor
  | colMajor
  deriving DecidableEq, Repr, Inhabited

namespace Layout

/-- Position of the entry `(row, column)` among the stored elements of a matrix. -/
def offset (layout : Layout) (rows columns row column : Nat) : Nat :=
  match layout with
  | .rowMajor => row * columns + column
  | .colMajor => column * rows + row

def coordinates (layout : Layout) (rows columns position : Nat) : Nat × Nat :=
  match layout with
  | .rowMajor => (position / columns, position % columns)
  | .colMajor => (position % rows, position / rows)

theorem coordinates_offset (layout : Layout) {rows columns row column : Nat}
    (rowBound : row < rows) (columnBound : column < columns) :
    layout.coordinates rows columns (layout.offset rows columns row column) = (row, column) := by
  have rowsPos : 0 < rows := by omega
  have columnsPos : 0 < columns := by omega
  cases layout with
  | rowMajor =>
      simp only [coordinates, offset, Prod.mk.injEq]
      rw [Nat.mul_comm, Nat.mul_add_div columnsPos, Nat.div_eq_of_lt columnBound,
        Nat.mul_add_mod, Nat.mod_eq_of_lt columnBound]
      simp
  | colMajor =>
      simp only [coordinates, offset, Prod.mk.injEq]
      rw [Nat.mul_comm, Nat.mul_add_div rowsPos, Nat.div_eq_of_lt rowBound,
        Nat.mul_add_mod, Nat.mod_eq_of_lt rowBound]
      simp

theorem offset_lt (layout : Layout) {rows columns row column : Nat}
    (rowBound : row < rows) (columnBound : column < columns) :
    layout.offset rows columns row column < rows * columns := by
  cases layout with
  | rowMajor =>
      have step : (row + 1) * columns ≤ rows * columns := Nat.mul_le_mul_right _ rowBound
      rw [Nat.add_mul, Nat.one_mul] at step
      simp only [offset]
      omega
  | colMajor =>
      have step : (column + 1) * rows ≤ columns * rows := Nat.mul_le_mul_right _ columnBound
      rw [Nat.add_mul, Nat.one_mul, Nat.mul_comm columns rows] at step
      simp only [offset]
      omega

end Layout

end TensorGraph
