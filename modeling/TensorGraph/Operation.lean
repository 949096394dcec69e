import TensorGraph.Parameters
import TensorGraph.Tensor

/-! Operation descriptors and the conditions under which they may be built. -/

namespace TensorGraph

/-- What an operation computes, apart from its own name. A group marker lists the ids of its
members as inputs and has neither element type nor outputs. -/
structure Computation where
  kind : OperationKind
  elementType : Option ElementType
  inputs : List UInt32
  outputs : List TensorId
  parameters : Parameters
  deriving DecidableEq

structure Operation extends Computation where
  id : OperationId
  deriving DecidableEq

/-- The part of a computation that its fingerprint depends on. -/
structure Signature where
  kind : OperationKind
  inputs : List UInt32
  outputs : List TensorId
  deriving DecidableEq

def Computation.signature (computation : Computation) : Signature :=
  ⟨computation.kind, computation.inputs, computation.outputs⟩

namespace Operation

def isGroup (operation : Operation) : Bool := operation.kind.isGroup

def members? (operation : Operation) : Option (List OperationId) :=
  if operation.isGroup then some operation.inputs else none

def isPinned (operation : Operation) : Bool := operation.kind = .group true

def sameComputation (left right : Operation) : Bool :=
  left.toComputation = right.toComputation

def outputFault (inputs : List TensorId) :
    List TensorId → List TensorId → Option OperationFault
  | _, [] => none
  | earlier, output :: rest =>
      if output ∈ earlier then some (.outputListedTwice output)
      else if output ∈ inputs then some (.readAndWritten output)
      else outputFault inputs (earlier ++ [output]) rest

def fault (kind : OperationKind) (elementType : ElementType) (inputs outputs : List TensorId)
    (parameters : Parameters) : Option OperationFault :=
  if inputs.length < kind.minInputs ∨ kind.maxInputs < inputs.length then
    some (.inputCount kind.minInputs kind.maxInputs inputs.length)
  else if outputs.isEmpty then
    some .noOutput
  else match outputFault inputs [] outputs with
    | some found => some found
    | none =>
        if parameters.length.toNat = kind.parameterSize elementType then none
        else some (.parameterCount (kind.parameterSize elementType) parameters.length.toNat)

def create (id : OperationId) (kind : OperationKind) (elementType : ElementType)
    (inputs outputs : List TensorId) (parameters : Parameters) : Except GraphError Operation := do
  if kind.isGroup then
    throw (.invalidOperation id kind .isGroupMarker)
  checkWithin .inputs Limit.inputs inputs.length
  checkWithin .outputs Limit.outputs outputs.length
  match fault kind elementType inputs outputs parameters with
  | some found => throw (.invalidOperation id kind found)
  | none => return { id, kind, elementType := some elementType, inputs, outputs, parameters }

def repeatedMember (group : OperationId) :
    List OperationId → List OperationId → Option OperationId
  | _, [] => none
  | earlier, member :: rest =>
      if member ∈ earlier ∨ member = group then some member
      else repeatedMember group (earlier ++ [member]) rest

def group (id : OperationId) (members : List OperationId) (pinned : Bool) :
    Except GraphError Operation := do
  checkWithin .groupMembers Limit.inputs members.length
  if members.length < 2 then
    throw (.invalidGroup id (.tooFewMembers members.length))
  match repeatedMember id [] members with
  | some member => throw (.invalidGroup id (.memberListedTwice member))
  | none =>
      return {
        id
        kind := .group pinned
        elementType := none
        inputs := members
        outputs := []
        parameters := .empty }

/-- Checks an operation that may not come from a constructor. Of a group marker only the members
are looked at. -/
def validate (operation : Operation) : Except GraphError Unit :=
  match operation.kind with
  | .group pinned => (group operation.id operation.inputs pinned).map fun _ => ()
  | kind =>
      match operation.elementType with
      | none => .error (.invalidOperation operation.id kind .missingElementType)
      | some elementType =>
          (create operation.id kind elementType operation.inputs operation.outputs
            operation.parameters).map fun _ => ()

def mapMembers (rename : OperationId → OperationId) (operation : Operation) : Operation :=
  if operation.isGroup then { operation with inputs := operation.inputs.map rename }
  else operation

def text (operation : Operation) : String :=
  let list (ids : List UInt32) := String.intercalate ", " (ids.map toString)
  s!"{operation.kind.name}#{operation.id}({list operation.inputs}) -> [{list operation.outputs}]"

end Operation

end TensorGraph
