import TensorGraph.CompactGraph
import TensorGraph.Encoding.Descriptor

/-! Documents for graphs and their compact form, which are written but never read. -/

namespace TensorGraph

def positionsToJson (positions : List Nat) : Json := .ofList Json.ofNat positions

def Slot.toJson : Slot → Json
  | .free rank => .tagged "Free" (.record [("rank", .ofNat rank)])
  | .header members pinned =>
      .tagged "GroupHeader" (.record [("members", .ofNat members), ("pinned", .boolean pinned)])
  | .member marker pinned =>
      .tagged "GroupMember" (.record [("header", .ofNat marker), ("pinned", .boolean pinned)])

def TensorNode.toJson (node : TensorNode) : Json :=
  .record [
    ("tensor", node.tensor.toJson),
    ("incoming", .ofOption Json.ofNat node.producer),
    ("outgoing", positionsToJson node.consumers)]

def OperationNode.toJson (node : OperationNode) : Json :=
  .record [
    ("expr", node.operation.toJson),
    ("inp_idxs", positionsToJson node.inputs),
    ("out_idxs", positionsToJson node.outputs)]

def Graph.toJson (graph : Graph) : Json :=
  .record [
    ("capacity", graph.capacity.toJson),
    ("tensors", .ofList TensorNode.toJson graph.tensors),
    ("ops", .ofList OperationNode.toJson graph.operations),
    ("schedule", .ofList Slot.toJson graph.slots)]

def ElementUsage.toJson (usage : ElementUsage) : Json :=
  .record [
    ("dtype", usage.elementType.toJson),
    ("tensors", .ofNat usage.tensors),
    ("elements", .ofNat usage.elements)]

def Metadata.toJson (metadata : Metadata) : Json :=
  .record [
    ("max_inputs", .ofNat metadata.maxInputs),
    ("max_outputs", .ofNat metadata.maxOutputs),
    ("max_fan_out", .ofNat metadata.maxFanOut),
    ("num_ops", .ofNat metadata.operations),
    ("num_tensors", .ofNat metadata.tensors),
    ("dtypes", .ofList ElementUsage.toJson metadata.usages)]

def CompactOperation.toJson (operation : CompactOperation) : Json :=
  .record [
    ("id", .ofNat operation.id.toNat),
    ("kind", operation.kind.toJson),
    ("dtype", operation.elementType.toJson),
    ("inputs", positionsToJson operation.inputs),
    ("outputs", positionsToJson operation.outputs),
    ("params", operation.parameters.toJson)]

def CompactGraph.toJson (graph : CompactGraph) : Json :=
  .record [
    ("metadata", graph.metadata.toJson),
    ("tensors", .ofList Tensor.toJson graph.tensors),
    ("ops", .ofList CompactOperation.toJson graph.operations)]

end TensorGraph
