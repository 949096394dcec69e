import TensorGraph.Graph.Reachability
import TensorGraph.Guarded

/-!
What wanted tensors depend on, found with a stack. A tensor taken from the stack is marked. When its
producer is met for the first time, all outputs of the producer are marked with it, without going
through the stack, and those of its inputs that have no mark yet are put on the stack.
-/

namespace TensorGraph

structure BackwardSearch where
  /-- Tensors that are still to be looked at, the next one first. -/
  stack : List Nat
  tensors : List Bool
  operations : List Bool

namespace BackwardSearch

def pushWanted (graph : Graph) : List Nat → List Nat → Except GraphError (List Nat)
  | stack, [] => .ok stack
  | stack, tensor :: rest =>
      if tensor < graph.tensors.length then pushWanted graph (tensor :: stack) rest
      else .error (.tensorIndexOutOfBounds tensor graph.tensors.length)

def pushUnmarked? (marks : List Bool) (stack : List Nat) (tensor : Nat) : Option (List Nat) := do
  let isMarked ← marks[tensor]?
  return if isMarked then stack else tensor :: stack

def markAll? (marks : List Bool) (tensors : List Nat) : Option (List Bool) :=
  tensors.foldlM (fun marks tensor => Guarded.put? marks tensor true) marks

def enter? (graph : Graph) (search : BackwardSearch) (producer : Nat) : Option BackwardSearch := do
  let isMarked ← search.operations[producer]?
  if isMarked then return search
  else
    let node ← graph.operations[producer]?
    let operations ← Guarded.put? search.operations producer true
    let tensors ← markAll? search.tensors node.outputs
    let stack ← node.inputs.foldlM (pushUnmarked? tensors) search.stack
    return ⟨stack, tensors, operations⟩

def turn? (graph : Graph) (search : BackwardSearch) (tensor : Nat) (rest : List Nat) :
    Option BackwardSearch := do
  let isMarked ← search.tensors[tensor]?
  if isMarked then return ⟨rest, search.tensors, search.operations⟩
  else
    let tensors ← Guarded.put? search.tensors tensor true
    let node ← graph.tensors[tensor]?
    match node.producer with
    | none => return ⟨rest, tensors, search.operations⟩
    | some producer => enter? graph ⟨rest, tensors, search.operations⟩ producer

/-- Turns until the stack is empty. Nothing results if they do not suffice. -/
def run? (graph : Graph) (turns : Nat) (search : BackwardSearch) : Option BackwardSearch :=
  match search.stack, turns with
  | [], _ => some search
  | _ :: _, 0 => none
  | tensor :: rest, turns + 1 => do
      let next ← search.turn? graph tensor rest
      run? graph turns next

/-- Marks each group marker when all operations that stand behind it as members are marked. -/
def markHeaders? : Nat → List Slot → List Bool → Option (List Bool)
  | _, [], marks => some marks
  | position, .header members _ :: rest, marks => do
      let behind ← Guarded.cut? marks (position + 1)
      let flags ← Guarded.cut? behind.2 members
      let entered ← Guarded.put? marks position (flags.1.all id)
      markHeaders? (position + 1) rest entered
  | position, _ :: rest, marks => markHeaders? (position + 1) rest marks

/-- Every tensor on the stack is wanted, or an input of an operation that was met once. -/
def turnLimit (graph : Graph) (wanted : List Nat) : Nat :=
  wanted.length + total (graph.operations.map fun node => node.inputs.length)

def start (graph : Graph) (stack : List Nat) : BackwardSearch where
  stack
  tensors := graph.tensors.map fun _ => false
  operations := graph.operations.map fun _ => false

def search (graph : Graph) (wanted : List Nat) : Guarded GraphError Reachability := do
  let stack ← Guarded.plain (pushWanted graph [] wanted)
  let last ← Guarded.access (run? graph (turnLimit graph wanted) (start graph stack))
  let operations ← Guarded.access (markHeaders? 0 graph.slots last.operations)
  return ⟨last.tensors, operations⟩

end BackwardSearch

end TensorGraph
