import TensorGraph.Graph.Connections
import TensorGraph.Guarded

/-!
Ranking operations as their inputs become available. Each operation counts the inputs whose producers
are not ranked yet, and is ranked once there are none.
-/

namespace TensorGraph

structure Waiting where
  /-- For each operation, the number of inputs whose producers are not ranked yet. -/
  pending : List Nat
  /-- Operations that wait for nothing, the next one first. -/
  ready : List Nat

namespace Waiting

def inputsPending? (tensors : List TensorNode) (node : OperationNode) : Option Nat := do
  let provided ← node.inputs.mapM fun tensor =>
    (tensors[tensor]?).map fun found => found.producer.isSome
  return provided.count true

def start? (tensors : List TensorNode) (operations : List OperationNode) : Option Waiting := do
  let pending ← operations.mapM (inputsPending? tensors)
  let ready := Connections.positions
    (fun entry : OperationNode × Nat => !entry.1.operation.isGroup && entry.2 == 0)
    (operations.zip pending)
  return ⟨pending, ready⟩

/-- Settles all inputs of a consumer that stand for one tensor. Nothing results if fewer inputs are
pending. -/
def settle? (operations : List OperationNode) (tensor : Nat) (waiting : Waiting) (consumer : Nat) :
    Option Waiting := do
  let node ← operations[consumer]?
  let pending ← waiting.pending[consumer]?
  let uses := node.inputs.count tensor
  if uses ≤ pending then
    let left := pending - uses
    return ⟨waiting.pending.set consumer left,
      if left = 0 then consumer :: waiting.ready else waiting.ready⟩
  else none

def release? (tensors : List TensorNode) (operations : List OperationNode) (waiting : Waiting)
    (tensor : Nat) : Option Waiting := do
  let node ← tensors[tensor]?
  node.consumers.foldlM (settle? operations tensor) waiting

end Waiting

/-- Ranks on the way; operations that are not ranked yet have rank zero. -/
structure ReadySearch where
  waiting : Waiting
  ranks : List Nat
  processed : Nat

namespace ReadySearch

def addRank? (tensors : List TensorNode) (ranks : List Nat) (total tensor : Nat) : Option Nat := do
  let node ← tensors[tensor]?
  match node.producer with
  | none => return total
  | some producer =>
      let rank ← ranks[producer]?
      return saturatingAdd total rank

def turn? (tensors : List TensorNode) (operations : List OperationNode) (search : ReadySearch)
    (position : Nat) (rest : List Nat) : Option ReadySearch := do
  let node ← operations[position]?
  let rank ← node.inputs.foldlM (addRank? tensors search.ranks) (min node.inputs.length Limit.word)
  let ranks ← Guarded.put? search.ranks position rank
  let waiting ← node.outputs.foldlM (Waiting.release? tensors operations)
    ⟨search.waiting.pending, rest⟩
  return ⟨waiting, ranks, search.processed + 1⟩

def run? (tensors : List TensorNode) (operations : List OperationNode) (turns : Nat)
    (search : ReadySearch) : Option ReadySearch :=
  match search.waiting.ready, turns with
  | [], _ => some search
  | _ :: _, 0 => none
  | position :: rest, turns + 1 => do
      let next ← search.turn? tensors operations position rest
      run? tensors operations turns next

def rankAll (tensors : List TensorNode) (operations : List OperationNode) :
    Guarded GraphError (List Nat) := do
  let waiting ← Guarded.access (Waiting.start? tensors operations)
  let last ← Guarded.access
    (run? tensors operations operations.length ⟨waiting, operations.map fun _ => 0, 0⟩)
  if last.processed < (operations.filter fun node => !node.operation.isGroup).length then
    Guarded.plain (.error .cyclicGraph)
  else
    Guarded.plain (.ok last.ranks)

end ReadySearch

end TensorGraph
