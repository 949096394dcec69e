import TensorGraph.Operation.Kind

/-! Causes of failure in planning a graph, and their wording. -/

namespace TensorGraph

abbrev TensorId := UInt32

abbrev OperationId := UInt32

inductive Resource
  | tensors
  | operations
  | inputs
  | outputs
  | rank
  | fanOut
  | groupMembers
  | parameterBytes
  deriving DecidableEq, Repr

def Resource.name : Resource → String
  | .tensors => "tensor"
  | .operations => "operation"
  | .inputs => "operation input"
  | .outputs => "operation output"
  | .rank => "shape rank"
  | .fanOut => "tensor fan-out"
  | .groupMembers => "group member"
  | .parameterBytes => "parameter byte"

inductive GroupFault
  | tooFewMembers (count : Nat)
  | memberListedTwice (member : OperationId)
  | memberIsGroup (member : OperationId)
  | memberTaken (member : OperationId)
  /-- Some operation outside lies between the members in every execution order. -/
  | notContiguous
  deriving DecidableEq, Repr

def GroupFault.reason : GroupFault → String
  | .tooFewMembers count => s!"a group needs at least 2 members, got {count}"
  | .memberListedTwice member => s!"member {member} listed twice"
  | .memberIsGroup member => s!"member {member} is itself a group"
  | .memberTaken member => s!"member {member} already belongs to another group"
  | .notContiguous =>
      "group cannot stay contiguous: an operation outside the group both feeds and consumes it"

inductive OperationFault
  | isGroupMarker
  | inputCount (least greatest count : Nat)
  | noOutput
  | outputListedTwice (tensor : TensorId)
  | readAndWritten (tensor : TensorId)
  | parameterCount (expected count : Nat)
  | missingElementType
  | inputNodeIsGroup (node : UInt32)
  | outputNodeIsNotTensor (node : UInt32)
  deriving DecidableEq, Repr

def OperationFault.reason : OperationFault → String
  | .isGroupMarker => "group markers are built with ExprNode::group"
  | .inputCount least greatest count => s!"expects {least}..={greatest} inputs, got {count}"
  | .noOutput => "operation declares no output"
  | .outputListedTwice tensor => s!"output tensor {tensor} listed twice"
  | .readAndWritten tensor => s!"tensor {tensor} is both read and written"
  | .parameterCount expected count => s!"expects {expected} parameter bytes, got {count}"
  | .missingElementType => "missing dtype"
  | .inputNodeIsGroup node => s!"input node {node} is a group marker"
  | .outputNodeIsNotTensor node => s!"output node {node} is not a tensor"

inductive GraphError
  | capacityExceeded (resource : Resource) (limit requested : Nat)
  | unresolvedTensor (operation : OperationId) (tensor : TensorId)
  | multipleProducers (tensor : TensorId) (first second : OperationId)
  | groupMemberNotFound (group member : OperationId)
  | invalidGroup (group : OperationId) (fault : GroupFault)
  | invalidOperation (operation : OperationId) (kind : OperationKind) (fault : OperationFault)
  | conflictingTensor (tensor : TensorId)
  | conflictingOperation (operation : OperationId)
  | reservedTensorId (tensor : TensorId)
  | unknownTensorId (tensor : TensorId)
  | tensorIndexOutOfBounds (index length : Nat)
  | nodeIndexOutOfBounds (index length : Nat)
  | expectedOperation (index : Nat)
  | elementTypeMismatch (expected actual : ElementType)
  | invalidShape
  | shapeOverflow (dimensions : List UInt64)
  | scheduleViolation (producer consumer : OperationId)
  | cyclicGraph
  | unreadableSnapshot
  | unsupportedVersion (found expected : String)
  deriving DecidableEq, Repr

namespace GraphError

def showDimensions (dimensions : List UInt64) : String :=
  "[" ++ String.intercalate ", " (dimensions.map toString) ++ "]"

def message : GraphError → String
  | .capacityExceeded resource limit requested =>
      s!"{resource.name} capacity exceeded: limit is {limit}, needed {requested}"
  | .unresolvedTensor operation tensor =>
      s!"Operation {operation} references tensor {tensor} which is not in the tensor array"
  | .multipleProducers tensor first second =>
      s!"Tensor {tensor} is produced by both operation {first} and operation {second}"
  | .groupMemberNotFound group member =>
      s!"Group {group}: member expression {member} not found to the right of the group"
  | .invalidGroup group fault => s!"Group {group}: {fault.reason}"
  | .invalidOperation operation kind fault =>
      s!"Operation {operation} ({kind.name}): {fault.reason}"
  | .conflictingTensor tensor => s!"Tensor id {tensor} appears twice with different descriptors"
  | .conflictingOperation operation =>
      s!"Operation id {operation} is used by two structurally different operations"
  | .reservedTensorId tensor =>
      s!"Tensor id {tensor} lies in the reserved synthetic id range (>= {Limit.syntheticIds})"
  | .unknownTensorId tensor => s!"No tensor with id {tensor}"
  | .tensorIndexOutOfBounds index length =>
      s!"Tensor index {index} out of bounds (len: {length})"
  | .nodeIndexOutOfBounds index length => s!"Arena node {index} out of bounds (len: {length})"
  | .expectedOperation index =>
      s!"Arena node {index} is a tensor where an operation was expected"
  | .elementTypeMismatch expected actual =>
      s!"Data type mismatch: expected {expected.name}, got {actual.name}"
  | .invalidShape => "Shape must have at least one dimension and no zero-sized dimension"
  | .shapeOverflow dimensions =>
      s!"Shape {showDimensions dimensions} is too large to address"
  | .scheduleViolation producer consumer =>
      s!"Schedule places consumer operation {consumer} before its producer {producer}"
  | .cyclicGraph => "Graph contains a cycle and cannot be topologically sorted"
  | .unreadableSnapshot => "Serialization error: not the text of a snapshot"
  | .unsupportedVersion found expected =>
      s!"Serialization error: unsupported format version {found} (expected {expected})"

end GraphError

def checkWithin (resource : Resource) (limit requested : Nat) : Except GraphError Unit :=
  if limit < requested then .error (.capacityExceeded resource limit requested) else .ok ()

end TensorGraph
