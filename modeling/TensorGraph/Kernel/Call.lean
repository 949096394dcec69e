import TensorGraph.Memory.Split
import TensorGraph.Memory.Error
import TensorGraph.Parameters

/-!
What a kernel is given and what it leaves behind. A kernel sees the descriptors and the contents of
the operands of one operation, and answers with the contents of the outputs; it can change nothing
else. When it stops early, the outputs keep what it had written until then.
-/

namespace TensorGraph

inductive KernelFault
  | operands (fault : OperandFault)
  | computation (fault : ComputationFault)
  | unsupported
  deriving DecidableEq, Repr

structure KernelCall (elementType : ElementType) where
  position : Nat
  operation : OperationId
  kind : OperationKind
  inputs : List Tensor
  outputs : List Tensor
  parameters : Parameters
  contents : Views (Element elementType)

def KernelCall.error {elementType : ElementType} (call : KernelCall elementType) :
    KernelFault → ExecutionError
  | .operands fault => .operandMismatch call.operation call.kind fault
  | .computation fault => .computationFailed call.operation call.kind fault
  | .unsupported => .unsupportedOperation call.operation call.kind elementType

/-- Contents of the outputs after a call, and why it stopped early, if it did. -/
structure KernelOutcome (elementType : ElementType) where
  outputs : List (List (Element elementType))
  error : Option ExecutionError

structure KernelSet where
  name : String
  supports : OperationKind → ElementType → Bool
  execute : (elementType : ElementType) → KernelCall elementType → KernelOutcome elementType

end TensorGraph
