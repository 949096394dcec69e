import TensorGraph.Json.Record
import TensorGraph.Operation

/-!
Documents for tensors and operations. Reading checks the form alone; whether a descriptor makes
sense is found out when a graph is built from it.
-/

namespace TensorGraph

def findNamed {α : Type} (name : α → String) (entries : List α) (wanted : String) : Option α :=
  entries.find? fun entry => name entry = wanted

namespace ElementType

def tag : ElementType → String
  | .u8 => "U8"
  | .u16 => "U16"
  | .u32 => "U32"
  | .u64 => "U64"
  | .i8 => "I8"
  | .i16 => "I16"
  | .i32 => "I32"
  | .i64 => "I64"
  | .f16 => "F16"
  | .f32 => "F32"
  | .f64 => "F64"

def toJson (elementType : ElementType) : Json := .ofString elementType.tag

def ofJson? (document : Json) : Option ElementType :=
  document.plainAlternative?.bind (findNamed tag all)

end ElementType

namespace StorageClass

def tag : StorageClass → String
  | .host => "Host"
  | .device => "Device"

def toJson (storage : StorageClass) : Json := .ofString storage.tag

def ofJson? (document : Json) : Option StorageClass :=
  document.plainAlternative?.bind (findNamed tag [.host, .device])

end StorageClass

namespace Layout

def tag : Layout → String
  | .rowMajor => "RowMajor"
  | .colMajor => "ColMajor"

def toJson (layout : Layout) : Json := .ofString layout.tag

def ofJson? (document : Json) : Option Layout :=
  document.plainAlternative?.bind (findNamed tag [.rowMajor, .colMajor])

end Layout

namespace Shape

def toJson (shape : Shape) : Json :=
  .record [("dims", .ofList (fun dimension => .ofNat dimension.toNat) shape.dimensions)]

def ofJson? (document : Json) : Option Shape :=
  match document.fields? ["dims"] with
  | some [dimensions] => do
      let dimensions ← Json.required? (Json.list? Json.uint64?) dimensions
      return ⟨dimensions⟩
  | _ => none

end Shape

namespace Tensor

def toJson (tensor : Tensor) : Json :=
  .record [
    ("id", .ofNat tensor.id.toNat),
    ("dtype", tensor.elementType.toJson),
    ("shape", tensor.shape.toJson),
    ("storage", tensor.storage.toJson),
    ("layout", tensor.layout.toJson)]

/-- Storage class and layout may be left out. -/
def ofJson? (document : Json) : Option Tensor :=
  match document.fields? ["id", "dtype", "shape", "storage", "layout"] with
  | some [id, elementType, shape, storage, layout] => do
      let id ← Json.required? Json.uint32? id
      let elementType ← Json.required? ElementType.ofJson? elementType
      let shape ← Json.required? Shape.ofJson? shape
      let storage ← Json.defaulted? StorageClass.ofJson? .host storage
      let layout ← Json.defaulted? Layout.ofJson? .rowMajor layout
      return { id, elementType, shape, storage, layout }
  | _ => none

end Tensor

namespace OperationKind

def plainKinds : List OperationKind :=
  [.elementAdd, .elementSub, .elementMul, .elementDiv, .elementRandom, .fill, .copy, .exp, .sin,
    .cos, .abs, .scalarAdd, .scalarSub, .scalarMul, .scalarDiv, .arrayAxpy, .arraySum, .arrayMean,
    .matrixAdd, .matrixSub, .matrixTranspose, .matrixMul, .matrixInverse, .matrixArrayMul,
    .matrixArrayAdd, .zero, .identity]

def tag : OperationKind → String
  | .elementAdd => "ElemAdd"
  | .elementSub => "ElemSub"
  | .elementMul => "ElemMul"
  | .elementDiv => "ElemDiv"
  | .elementRandom => "ElemRandom"
  | .fill => "Fill"
  | .copy => "Copy"
  | .exp => "Exp"
  | .sin => "Sin"
  | .cos => "Cos"
  | .abs => "Abs"
  | .scalarAdd => "ScalarAdd"
  | .scalarSub => "ScalarSub"
  | .scalarMul => "ScalarMul"
  | .scalarDiv => "ScalarDiv"
  | .arrayAxpy => "ArrayAxpy"
  | .arraySum => "ArraySum"
  | .arrayMean => "ArrayMean"
  | .matrixAdd => "MatAdd"
  | .matrixSub => "MatSub"
  | .matrixTranspose => "MatTranspose"
  | .matrixMul => "MatMul"
  | .matrixInverse => "MatInv"
  | .matrixArrayMul => "MatArrMul"
  | .matrixArrayAdd => "MatArrAdd"
  | .group _ => "Group"
  | .zero => "DZero"
  | .identity => "DIdentity"

def toJson : OperationKind → Json
  | .group pinned => .tagged "Group" (.record [("pinned", .boolean pinned)])
  | kind => .ofString kind.tag

def groupOfJson? (document : Json) : Option OperationKind :=
  match document.fields? ["pinned"] with
  | some [pinned] => (Json.required? Json.boolean? pinned).map .group
  | _ => none

def ofJson? (document : Json) : Option OperationKind :=
  match document.alternative? with
  | some ("Group", some content) => groupOfJson? content
  | _ => document.plainAlternative?.bind (findNamed tag plainKinds)

end OperationKind

namespace Parameters

def toJson (parameters : Parameters) : Json :=
  .record [
    ("bytes", .ofList (fun byte => .ofNat byte.toNat) parameters.bytes.toList),
    ("len", .ofNat parameters.length.toNat)]

/-- The bytes of a buffer, all of which have to be given. -/
def bufferOfJson? (document : Json) : Option (Vector UInt8 Limit.parameterBytes) := do
  let bytes ← document.list? Json.uint8?
  if fits : bytes.toArray.size = Limit.parameterBytes then some ⟨bytes.toArray, fits⟩ else none

def ofJson? (document : Json) : Option Parameters :=
  match document.fields? ["bytes", "len"] with
  | some [bytes, length] => do
      let bytes ← Json.required? bufferOfJson? bytes
      let length ← Json.required? Json.uint8? length
      return { bytes, length }
  | _ => none

end Parameters

def idsToJson (ids : List UInt32) : Json := .ofList (fun id => .ofNat id.toNat) ids

def idsOfJson? (document : Json) : Option (List UInt32) := document.list? Json.uint32?

namespace Operation

def toJson (operation : Operation) : Json :=
  .record [
    ("id", .ofNat operation.id.toNat),
    ("kind", operation.kind.toJson),
    ("dtype", .ofOption ElementType.toJson operation.elementType),
    ("inputs", idsToJson operation.inputs),
    ("outputs", idsToJson operation.outputs),
    ("params", operation.parameters.toJson)]

/-- The element type may be left out. -/
def ofJson? (document : Json) : Option Operation :=
  match document.fields? ["id", "kind", "dtype", "inputs", "outputs", "params"] with
  | some [id, kind, elementType, inputs, outputs, parameters] => do
      let id ← Json.required? Json.uint32? id
      let kind ← Json.required? OperationKind.ofJson? kind
      let elementType ← Json.defaulted? (Json.optional? ElementType.ofJson?) none elementType
      let inputs ← Json.required? idsOfJson? inputs
      let outputs ← Json.required? idsOfJson? outputs
      let parameters ← Json.required? Parameters.ofJson? parameters
      return { id, kind, elementType, inputs, outputs, parameters }
  | _ => none

end Operation

namespace Capacity

def toJson (capacity : Capacity) : Json :=
  .record [
    ("max_tensors", .ofNat capacity.tensors.toNat),
    ("max_operations", .ofNat capacity.operations.toNat)]

def ofJson? (document : Json) : Option Capacity :=
  match document.fields? ["max_tensors", "max_operations"] with
  | some [tensors, operations] => do
      let tensors ← Json.required? Json.uint64? tensors
      let operations ← Json.required? Json.uint64? operations
      return { tensors, operations }
  | _ => none

end Capacity

end TensorGraph
