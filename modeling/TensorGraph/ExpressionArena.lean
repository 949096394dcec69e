import TensorGraph.Operation

/-!
Expression trees as an arena: nodes name earlier nodes by index, so one node can be shared by any
number of parents.
-/

namespace TensorGraph

abbrev NodeIndex := UInt32

inductive ExpressionNode
  | tensor (tensor : Tensor)
  /-- An operation node among the inputs stands for the first output of that operation. -/
  | operation (kind : OperationKind) (elementType : ElementType)
      (inputs outputs : List NodeIndex) (parameters : Parameters)
  | group (members : List NodeIndex) (pinned : Bool)
  deriving DecidableEq

def ExpressionNode.references : ExpressionNode → List NodeIndex
  | .tensor _ => []
  | .operation _ _ inputs outputs _ => inputs ++ outputs
  | .group members _ => members

structure ExpressionArena where
  nodes : List ExpressionNode
  deriving DecidableEq

namespace ExpressionArena

def empty : ExpressionArena := ⟨[]⟩

def size (arena : ExpressionArena) : Nat := arena.nodes.length

def isEmpty (arena : ExpressionArena) : Bool := arena.nodes.isEmpty

def get (arena : ExpressionArena) (index : NodeIndex) : Except GraphError ExpressionNode :=
  match arena.nodes[index.toNat]? with
  | some node => .ok node
  | none => .error (.nodeIndexOutOfBounds index.toNat arena.size)

def next (arena : ExpressionArena) : NodeIndex := UInt32.ofNat arena.size

def push (arena : ExpressionArena) (node : ExpressionNode) : NodeIndex × ExpressionArena :=
  (arena.next, ⟨arena.nodes ++ [node]⟩)

def addTensor (arena : ExpressionArena) (tensor : Tensor) : NodeIndex × ExpressionArena :=
  arena.push (.tensor tensor)

def checkInputs (arena : ExpressionArena) (kind : OperationKind) :
    List NodeIndex → Except GraphError Unit
  | [] => .ok ()
  | input :: rest => do
      match ← arena.get input with
      | .group _ _ => throw (.invalidOperation arena.next kind (.inputNodeIsGroup input))
      | _ => checkInputs arena kind rest

def outputTypes (arena : ExpressionArena) (kind : OperationKind) :
    List NodeIndex → Except GraphError (List ElementType)
  | [] => .ok []
  | output :: rest => do
      match ← arena.get output with
      | .tensor tensor => return tensor.elementType :: (← outputTypes arena kind rest)
      | _ => throw (.invalidOperation arena.next kind (.outputNodeIsNotTensor output))

/-- Adds an operation. Its element type is that of its first output. -/
def addOperation (arena : ExpressionArena) (kind : OperationKind)
    (inputs outputs : List NodeIndex) (parameters : Parameters) :
    Except GraphError (NodeIndex × ExpressionArena) := do
  checkWithin .inputs Limit.inputs inputs.length
  checkWithin .outputs Limit.outputs outputs.length
  arena.checkInputs kind inputs
  match ← arena.outputTypes kind outputs with
  | [] => throw (.invalidOperation arena.next kind .noOutput)
  | elementType :: _ => return arena.push (.operation kind elementType inputs outputs parameters)

def checkMembers (arena : ExpressionArena) : List NodeIndex → Except GraphError Unit
  | [] => .ok ()
  | member :: rest => do
      match ← arena.get member with
      | .operation _ _ _ _ _ => checkMembers arena rest
      | _ => throw (.expectedOperation member.toNat)

def addGroup (arena : ExpressionArena) (members : List NodeIndex) (pinned : Bool) :
    Except GraphError (NodeIndex × ExpressionArena) := do
  checkWithin .groupMembers Limit.inputs members.length
  arena.checkMembers members
  return arena.push (.group members pinned)

end ExpressionArena

end TensorGraph
