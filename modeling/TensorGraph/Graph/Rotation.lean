import TensorGraph.Graph.Grouping
import TensorGraph.Guarded

/-!
Groups that are put together in place. One marker after the other, each member is brought to its
slot by rotating what stands between by one.
-/

namespace TensorGraph

namespace Rotation

/-- Rotates the items from `slot` to `found` by one, so that the last of them comes first. -/
def bring {α : Type} (slot found : Nat) (items : List α) : List α :=
  items.take slot ++ ((items.drop slot).take (found + 1 - slot)).rotateRight 1 ++
    items.drop (found + 1)

/-- Brings the members of one group to the slots from `slot` on. Results in the operations and in
the ids that groups have claimed so far. -/
def placeMembers (markers : List OperationId) (group : OperationId) :
    Nat → List OperationId → List Operation → List OperationId →
      Except GraphError (List Operation × List OperationId)
  | _, taken, operations, [] => .ok (operations, taken)
  | slot, taken, operations, member :: rest =>
      if member ∈ markers then .error (.invalidGroup group (.memberIsGroup member))
      else if member ∈ taken then .error (.invalidGroup group (.memberTaken member))
      else
        match (operations.drop slot).findIdx? fun operation => operation.id = member with
        | none => .error (.groupMemberNotFound group member)
        | some ahead =>
            placeMembers markers group (slot + 1) (member :: taken)
              (bring slot (slot + ahead) operations) rest

/-- Goes through the operations from `index` on and steps over each group that was put together.
Nothing results if the turns do not suffice. -/
def walk (markers : List OperationId) (turns index : Nat) (taken : List OperationId)
    (operations : List Operation) : Guarded GraphError (List Operation) :=
  match operations[index]?, turns with
  | none, _ => Guarded.plain (.ok operations)
  | some _, 0 => Guarded.access none
  | some operation, turns + 1 =>
      match operation.members? with
      | none => walk markers turns (index + 1) taken operations
      | some members => do
          let (rotated, claimed) ←
            Guarded.plain (placeMembers markers operation.id (index + 1) taken operations members)
          walk markers turns (index + 1 + members.length) claimed rotated

def rotateGroups (operations : List Operation) : Guarded GraphError (List Operation) :=
  walk (Grouping.markers operations) operations.length 0 [] operations

end Rotation

end TensorGraph
