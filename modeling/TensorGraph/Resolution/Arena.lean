import TensorGraph.ExpressionArena
import TensorGraph.Resolution

/-!
Resolving the part of an arena that is reachable from some roots. An operation node gets the id
`Limit.syntheticIds` plus its index, and stands for its first output where it is used as an input.
Group markers are placed before the earliest of their members.
-/

namespace TensorGraph

namespace ExpressionArena

/-- Marks the nodes on the stack and those they refer to; every step takes one node off the
stack. -/
def markFrom (arena : ExpressionArena) :
    Nat → List NodeIndex → List Bool → Except GraphError (List Bool)
  | 0, _, marked => .ok marked
  | _ + 1, [], marked => .ok marked
  | steps + 1, index :: stack, marked => do
      let node ← arena.get index
      if marked[index.toNat]?.getD false then
        markFrom arena steps stack marked
      else
        markFrom arena steps (node.references.reverse ++ stack) (marked.set index.toNat true)

def reachable (arena : ExpressionArena) (roots : List NodeIndex) :
    Except GraphError (List Bool) :=
  let references := total (arena.nodes.map fun node => node.references.length)
  arena.markFrom (roots.length + references) roots.reverse (arena.nodes.map fun _ => false)

end ExpressionArena

structure ArenaResolution where
  deduplication : Deduplication
  /-- For each node passed, the tensor it stands for. -/
  values : List (Option TensorId)
  /-- For each node passed, the operation that stays in its place. -/
  survivors : List (Option OperationId)
  redirects : Redirects
  deriving DecidableEq

namespace ArenaResolution

def start : ArenaResolution := ⟨.empty, [], [], []⟩

def lookup (found : List (Option UInt32)) (node : NodeIndex) : Except GraphError UInt32 :=
  match (found[node.toNat]?).join with
  | some id => .ok id
  | none => .error (.expectedOperation node.toNat)

def syntheticId (index : Nat) : Except GraphError OperationId := do
  checkWithin .operations Limit.syntheticIndex index
  return Limit.syntheticIds + UInt32.ofNat index

def advance (state : ArenaResolution) (deduplication : Deduplication) (value : Option TensorId)
    (survivor : Option OperationId) : ArenaResolution where
  deduplication
  values := state.values ++ [value]
  survivors := state.survivors ++ [survivor]
  redirects := match survivor with
    | some id => state.redirects.insert (UInt32.ofNat state.values.length) id
    | none => state.redirects

def step (fingerprint : Fingerprint) (capacity : Capacity) (state : ArenaResolution) :
    ExpressionNode → Except GraphError ArenaResolution
  | .tensor tensor => do
      if Limit.syntheticIds ≤ tensor.id then
        throw (.reservedTensorId tensor.id)
      let deduplication ← state.deduplication.addTensor capacity tensor
      return state.advance deduplication (some tensor.id) none
  | .operation kind elementType inputs outputs parameters => do
      let inputs ← inputs.mapM (lookup state.values)
      let outputs ← outputs.mapM (lookup state.values)
      let id ← syntheticId state.values.length
      let operation ← Operation.create id kind elementType inputs outputs parameters
      let (survivor, deduplication) ←
        state.deduplication.addOperation fingerprint capacity operation
      return state.advance deduplication outputs.head? (some survivor)
  | .group members pinned => do
      let members ← members.mapM (lookup state.survivors)
      let id ← syntheticId state.values.length
      let marker ← Operation.group id members pinned
      let (survivor, deduplication) ← state.deduplication.addOperation fingerprint capacity marker
      return state.advance deduplication none (some survivor)

/-- Resolves a node if it is marked, and passes it in any case. -/
def visit (fingerprint : Fingerprint) (capacity : Capacity) (state : ArenaResolution)
    (entry : ExpressionNode × Bool) : Except GraphError ArenaResolution :=
  if entry.2 then state.step fingerprint capacity entry.1
  else .ok (state.advance state.deduplication none none)

end ArenaResolution

/-- Position before which a marker has to be moved: that of its earliest member, if it is
further left. -/
def hoistTarget (operations : List Operation) (position : Nat) (operation : Operation) :
    Option Nat :=
  let places := (operation.members?.getD []).filterMap fun member =>
    operations.findIdx? fun other => other.id = member
  match places.min? with
  | some earliest => if earliest < position then some earliest else none
  | none => none

def hoistMarkers (operations : List Operation) : List Operation :=
  let targets := operations.zipIdx.map fun entry =>
    (entry.1, hoistTarget operations entry.2 entry.1)
  targets.zipIdx.flatMap fun entry =>
    ((targets.filter fun other => other.2 = some entry.2).map fun other => other.1) ++
      if entry.1.2.isSome then [] else [entry.1.1]

namespace Resolution

def ofArenaWith (fingerprint : Fingerprint) (capacity : Capacity) (arena : ExpressionArena)
    (roots : List NodeIndex) : Except GraphError Resolution := do
  let marked ← arena.reachable roots
  let state ← (arena.nodes.zip marked).foldlM
    (ArenaResolution.visit fingerprint capacity) .start
  return {
    tensors := state.deduplication.tensors
    operations := hoistMarkers state.deduplication.operations
    redirects := state.redirects
    merged := state.deduplication.merged }

def ofArena (capacity : Capacity) (arena : ExpressionArena) (roots : List NodeIndex) :
    Except GraphError Resolution :=
  ofArenaWith .standard capacity arena roots

end Resolution

end TensorGraph
