import TensorGraph.Encoding.Descriptor
import TensorGraph.Graph.Build
import TensorGraph.Json.Reader
import TensorGraph.Json.Value
import TensorGraph.Json.Writer

/-!
Snapshots: texts that hold the descriptors of a graph under a format version. Positions, ranks and
slots are not stored but found again when the graph is built.
-/

namespace TensorGraph

structure GraphContent where
  capacity : Capacity
  tensors : List Tensor
  operations : List Operation
  deriving DecidableEq

namespace GraphContent

def ofGraph (graph : Graph) : GraphContent :=
  ⟨graph.capacity, graph.tensorList, graph.operationList⟩

def toGraph (content : GraphContent) : Except GraphError Graph :=
  Graph.build content.tensors content.operations content.capacity

def toJson (content : GraphContent) : Json :=
  .record [
    ("capacity", content.capacity.toJson),
    ("tensors", .ofList Tensor.toJson content.tensors),
    ("exprs", .ofList Operation.toJson content.operations)]

def ofJson? (document : Json) : Option GraphContent :=
  match document.fields? ["capacity", "tensors", "exprs"] with
  | some [capacity, tensors, operations] => do
      let capacity ← Json.required? Capacity.ofJson? capacity
      let tensors ← Json.required? (Json.list? Tensor.ofJson?) tensors
      let operations ← Json.required? (Json.list? Operation.ofJson?) operations
      return { capacity, tensors, operations }
  | _ => none

end GraphContent

structure Snapshot where
  version : String
  createdAt : Option String
  metadata : Option JsonMembers
  content : GraphContent

namespace Snapshot

def currentVersion : String := "1.0.0"

/-- Arrays and objects inside the metadata may nest this deep; together with the snapshot and the
metadata itself that makes 127 levels. -/
def metadataDepth : Nat := 125

def ofGraph (graph : Graph) (createdAt : Option String) (metadata : Option JsonMembers) :
    Snapshot :=
  ⟨currentVersion, createdAt, metadata, .ofGraph graph⟩

def major (version : String) : List Char := version.toList.takeWhile (· ≠ '.')

def isCompatible (snapshot : Snapshot) : Bool := major snapshot.version = major currentVersion

def toGraph (snapshot : Snapshot) : Except GraphError Graph := snapshot.content.toGraph

def metadataToJson (metadata : JsonMembers) : Json := (JsonValue.object metadata).toJson

def metadataOfJson? : Json → Option JsonMembers
  | .object members => (JsonValue.ofMembers? metadataDepth members).map JsonValue.sortMembers
  | _ => none

def toJson (snapshot : Snapshot) : Json :=
  .record [
    ("version", .ofString snapshot.version),
    ("created_at", .ofOption Json.ofString snapshot.createdAt),
    ("metadata", .ofOption metadataToJson snapshot.metadata),
    ("dag", snapshot.content.toJson)]

/-- Time and metadata may be left out. -/
def ofJson? (document : Json) : Option Snapshot :=
  match document.fields? ["version", "created_at", "metadata", "dag"] with
  | some [version, createdAt, metadata, content] => do
      let version ← Json.required? Json.string? version
      let createdAt ← Json.defaulted? (Json.optional? Json.string?) none createdAt
      let metadata ← Json.defaulted? (Json.optional? metadataOfJson?) none metadata
      let content ← Json.required? GraphContent.ofJson? content
      return { version, createdAt, metadata, content }
  | _ => none

def text (layout : JsonLayout) (snapshot : Snapshot) : String := snapshot.toJson.text layout

def ofText (text : String) : Except GraphError Snapshot :=
  match (Json.read? text).bind ofJson? with
  | none => .error .unreadableSnapshot
  | some snapshot =>
      if snapshot.isCompatible then .ok snapshot
      else .error (.unsupportedVersion snapshot.version currentVersion)

end Snapshot

end TensorGraph
