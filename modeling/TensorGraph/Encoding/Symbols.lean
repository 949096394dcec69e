import TensorGraph.Encoding.Descriptor
import TensorGraph.ExpressionArena
import TensorGraph.SymbolTable

/-! Documents for symbol tables and expression arenas. -/

namespace TensorGraph

namespace SymbolTable

def toJson (symbols : SymbolTable) : Json :=
  .record [
    ("capacity", symbols.capacity.toJson),
    ("tensors", .ofList Tensor.toJson symbols.tensors),
    ("exprs", .ofList Operation.toJson symbols.operations)]

def ofJson? (document : Json) : Option SymbolTable :=
  match document.fields? ["capacity", "tensors", "exprs"] with
  | some [capacity, tensors, operations] => do
      let capacity ← Json.required? Capacity.ofJson? capacity
      let tensors ← Json.required? (Json.list? Tensor.ofJson?) tensors
      let operations ← Json.required? (Json.list? Operation.ofJson?) operations
      return { capacity, tensors, operations }
  | _ => none

end SymbolTable

namespace ExpressionNode

def toJson : ExpressionNode → Json
  | .tensor descriptor => .tagged "Tensor" descriptor.toJson
  | .operation kind elementType inputs outputs parameters =>
      .tagged "Op" (.record [
        ("kind", kind.toJson),
        ("dtype", elementType.toJson),
        ("inputs", idsToJson inputs),
        ("outputs", idsToJson outputs),
        ("params", parameters.toJson)])
  | .group members pinned =>
      .tagged "Group" (.record [("members", idsToJson members), ("pinned", .boolean pinned)])

def operationOfJson? (document : Json) : Option ExpressionNode :=
  match document.fields? ["kind", "dtype", "inputs", "outputs", "params"] with
  | some [kind, elementType, inputs, outputs, parameters] => do
      let kind ← Json.required? OperationKind.ofJson? kind
      let elementType ← Json.required? ElementType.ofJson? elementType
      let inputs ← Json.required? idsOfJson? inputs
      let outputs ← Json.required? idsOfJson? outputs
      let parameters ← Json.required? Parameters.ofJson? parameters
      return .operation kind elementType inputs outputs parameters
  | _ => none

def groupOfJson? (document : Json) : Option ExpressionNode :=
  match document.fields? ["members", "pinned"] with
  | some [members, pinned] => do
      let members ← Json.required? idsOfJson? members
      let pinned ← Json.required? Json.boolean? pinned
      return .group members pinned
  | _ => none

def ofJson? (document : Json) : Option ExpressionNode :=
  match document.alternative? with
  | some ("Tensor", some content) => (Tensor.ofJson? content).map .tensor
  | some ("Op", some content) => operationOfJson? content
  | some ("Group", some content) => groupOfJson? content
  | _ => none

end ExpressionNode

namespace ExpressionArena

def toJson (arena : ExpressionArena) : Json :=
  .record [("nodes", .ofList ExpressionNode.toJson arena.nodes)]

def ofJson? (document : Json) : Option ExpressionArena :=
  match document.fields? ["nodes"] with
  | some [nodes] => do
      let nodes ← Json.required? (Json.list? ExpressionNode.ofJson?) nodes
      return { nodes }
  | _ => none

end ExpressionArena

end TensorGraph
