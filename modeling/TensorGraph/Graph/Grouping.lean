import TensorGraph.Operation

/-!
Placing the members of groups right after their markers. Every marker has to stand to the left of
all its members, no group holds another, and no operation belongs to two groups.
-/

namespace TensorGraph

namespace Grouping

def markers (operations : List Operation) : List OperationId :=
  (operations.filter Operation.isGroup).map fun operation => operation.id

def claimed (operations : List Operation) : List OperationId :=
  operations.flatMap fun operation => operation.members?.getD []

/-- Checks the members of one group in turn, given the ids of all markers, the ids that earlier
groups and earlier members took, and the ids to the right of the marker. -/
def checkMembers (markers : List OperationId) (group : OperationId) (right : List OperationId) :
    List OperationId → List OperationId → Except GraphError Unit
  | _, [] => .ok ()
  | taken, member :: rest =>
      if member ∈ markers then .error (.invalidGroup group (.memberIsGroup member))
      else if member ∈ taken then .error (.invalidGroup group (.memberTaken member))
      else if member ∈ right then checkMembers markers group right (member :: taken) rest
      else .error (.groupMemberNotFound group member)

def checkFrom (markers : List OperationId) :
    List OperationId → List Operation → Except GraphError Unit
  | _, [] => .ok ()
  | taken, operation :: rest =>
      match operation.members? with
      | none => checkFrom markers taken rest
      | some members => do
          checkMembers markers operation.id (rest.map fun later => later.id) taken members
          checkFrom markers (members ++ taken) rest

def check (operations : List Operation) : Except GraphError Unit :=
  checkFrom (markers operations) [] operations

/-- Every marker followed by its members, and every operation outside all groups, in the order in
which the markers and those operations are listed. -/
def layout (operations : List Operation) : List Operation :=
  operations.flatMap fun operation =>
    match operation.members? with
    | some members =>
        operation :: members.filterMap fun member => operations.find? fun other => other.id = member
    | none => if operation.id ∈ claimed operations then [] else [operation]

end Grouping

def arrangeGroups (operations : List Operation) : Except GraphError (List Operation) := do
  Grouping.check operations
  return Grouping.layout operations

end TensorGraph
