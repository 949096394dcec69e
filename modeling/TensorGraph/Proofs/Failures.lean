import TensorGraph.Proofs.Building

/-!
Why building fails. Each check fails for what it looks at and for nothing else, so a cause of
failure tells which of the checks found it and in what.
-/

namespace TensorGraph

open Operation (ids)

theorem checkWithin_eq_error_iff {resource : Resource} {limit requested : Nat}
    {failure : GraphError} :
    checkWithin resource limit requested = .error failure ↔
      limit < requested ∧ failure = .capacityExceeded resource limit requested := by
  rw [checkWithin]
  split
  · rename_i beyond
    simp [beyond, eq_comm]
  · rename_i within
    simp [within]

inductive Tensor.Refusal : GraphError → Prop
  | rank (requested : Nat) : Refusal (.capacityExceeded .rank Limit.rank requested)
  | shape : Refusal .invalidShape
  | overflow (dimensions : List UInt64) : Refusal (.shapeOverflow dimensions)

theorem Shape.refusal_of_ofDimensions {dimensions : List UInt64} {failure : GraphError}
    (failed : ofDimensions dimensions = .error failure) : Tensor.Refusal failure := by
  rw [ofDimensions, bind_eq_error_iff] at failed
  rcases failed with beyond | ⟨_, _, failed⟩
  · rw [(checkWithin_eq_error_iff.mp beyond).2]
    exact .rank _
  · dsimp only at failed
    split at failed
    · cases failed
      exact .shape
    · split at failed
      · cases failed
      · cases failed
        exact .overflow _

theorem Tensor.refusal_of_validate {tensor : Tensor} {failure : GraphError}
    (failed : tensor.validate = .error failure) : Refusal failure := by
  rw [validate, bind_eq_error_iff] at failed
  rcases failed with failed | ⟨_, _, failed⟩
  · exact Shape.refusal_of_ofDimensions failed
  · split at failed
    · cases failed
    · cases failed
      exact .overflow _

namespace Operation

inductive Refusal (id : OperationId) (kind : OperationKind) : GraphError → Prop
  | capacity {resource : Resource} (limit requested : Nat)
      (perOperation : resource = .inputs ∨ resource = .outputs ∨ resource = .groupMembers) :
      Refusal id kind (.capacityExceeded resource limit requested)
  | operation (fault : OperationFault) : Refusal id kind (.invalidOperation id kind fault)
  | group (isGroup : kind.isGroup = true) (fault : GroupFault) :
      Refusal id kind (.invalidGroup id fault)

theorem refusal_of_create {id : OperationId} {kind : OperationKind} {elementType : ElementType}
    {inputs outputs : List TensorId} {parameters : Parameters} {failure : GraphError}
    (failed : create id kind elementType inputs outputs parameters = .error failure) :
    Refusal id kind failure := by
  rw [create] at failed
  split at failed
  · cases failed
    exact .operation _
  · simp only [bind_eq_error_iff] at failed
    rcases failed with beyond | ⟨_, _, beyond | ⟨_, _, failed⟩⟩
    · rw [(checkWithin_eq_error_iff.mp beyond).2]
      exact .capacity _ _ (by simp)
    · rw [(checkWithin_eq_error_iff.mp beyond).2]
      exact .capacity _ _ (by simp)
    · split at failed
      · cases failed
        exact .operation _
      · cases failed

theorem refusal_of_group {id : OperationId} {members : List OperationId} {pinned : Bool}
    {failure : GraphError} (failed : Operation.group id members pinned = .error failure) :
    Refusal id (.group pinned) failure := by
  rw [Operation.group, bind_eq_error_iff] at failed
  rcases failed with beyond | ⟨_, _, failed⟩
  · rw [(checkWithin_eq_error_iff.mp beyond).2]
    exact .capacity _ _ (by simp)
  · dsimp only at failed
    split at failed
    · cases failed
      exact .group rfl _
    · split at failed
      · cases failed
        exact .group rfl _
      · cases failed

theorem refusal_of_validate {operation : Operation} {failure : GraphError}
    (failed : operation.validate = .error failure) :
    Refusal operation.id operation.kind failure := by
  rw [validate] at failed
  split at failed
  · rename_i pinned isMarker
    rw [isMarker]
    exact refusal_of_group (discard_eq_error_iff.mp failed)
  · split at failed
    · cases failed
      exact .operation _
    · exact refusal_of_create (discard_eq_error_iff.mp failed)

end Operation

namespace Connections

inductive Refusal (tensors : List TensorId) (operations : List Operation) : GraphError → Prop
  | unresolved {operation : Operation} {name : TensorId} (listed : operation ∈ operations)
      (plain : operation.isGroup = false) (operand : name ∈ operation.inputs ++ operation.outputs)
      (unknown : name ∉ tensors) : Refusal tensors operations (.unresolvedTensor operation.id name)
  | fanOut (requested : Nat) :
      Refusal tensors operations (.capacityExceeded .fanOut Limit.fanOut requested)
  | producers (tensor : TensorId) (first second : OperationId) :
      Refusal tensors operations (.multipleProducers tensor first second)

theorem checkInputs_eq_error {tensors : List TensorId} {listed : List Operation}
    {operation : OperationId} {inputs : List TensorId} {failure : GraphError}
    (failed : checkInputs tensors listed operation inputs = .error failure) :
    (∃ name ∈ inputs, name ∉ tensors ∧ failure = .unresolvedTensor operation name) ∨
      ∃ requested, failure = .capacityExceeded .fanOut Limit.fanOut requested := by
  induction inputs with
  | nil => cases failed
  | cons input rest ih =>
      rw [checkInputs] at failed
      split at failed
      · rcases bind_eq_error_iff.mp failed with beyond | ⟨_, _, later⟩
        · exact Or.inr ⟨_, (checkWithin_eq_error_iff.mp beyond).2⟩
        · refine (ih later).imp_left ?_
          rintro ⟨name, listed, unknown⟩
          exact ⟨name, List.mem_cons_of_mem _ listed, unknown⟩
      · rename_i unknown
        cases failed
        exact Or.inl ⟨input, List.mem_cons_self, unknown, rfl⟩

theorem checkOutputs_eq_error {tensors : List TensorId} {earlier : List Operation}
    {operation : OperationId} {outputs : List TensorId} {failure : GraphError}
    (failed : checkOutputs tensors earlier operation outputs = .error failure) :
    (∃ name ∈ outputs, name ∉ tensors ∧ failure = .unresolvedTensor operation name) ∨
      ∃ tensor first, failure = .multipleProducers tensor first operation := by
  induction outputs with
  | nil => cases failed
  | cons output rest ih =>
      rw [checkOutputs] at failed
      split at failed
      · split at failed
        · cases failed
          exact Or.inr ⟨_, _, rfl⟩
        · refine (ih failed).imp_left ?_
          rintro ⟨name, listed, unknown⟩
          exact ⟨name, List.mem_cons_of_mem _ listed, unknown⟩
      · rename_i unknown
        cases failed
        exact Or.inl ⟨output, List.mem_cons_self, unknown, rfl⟩

theorem Refusal.of_later {tensors : List TensorId} {operation : Operation}
    {rest : List Operation} {failure : GraphError} (refusal : Refusal tensors rest failure) :
    Refusal tensors (operation :: rest) failure := by
  cases refusal with
  | unresolved listed plain operand unknown =>
      exact .unresolved (List.mem_cons_of_mem _ listed) plain operand unknown
  | fanOut requested => exact .fanOut requested
  | producers tensor first second => exact .producers tensor first second

theorem refusal_of_checkFrom {tensors : List TensorId} {earlier operations : List Operation}
    {failure : GraphError} (failed : checkFrom tensors earlier operations = .error failure) :
    Refusal tensors operations failure := by
  induction operations generalizing earlier with
  | nil => cases failed
  | cons operation rest ih =>
      rw [checkFrom] at failed
      split at failed
      · rename_i notMarker
        have plain : operation.isGroup = false := by simpa using notMarker
        simp only [bind_eq_error_iff] at failed
        rcases failed with inputs | ⟨_, _, outputs | ⟨_, _, later⟩⟩
        · rcases checkInputs_eq_error inputs with ⟨name, isInput, unknown, rfl⟩ | ⟨_, rfl⟩
          · exact .unresolved List.mem_cons_self plain (List.mem_append_left _ isInput) unknown
          · exact .fanOut _
        · rcases checkOutputs_eq_error outputs with ⟨name, isOutput, unknown, rfl⟩ | ⟨_, _, rfl⟩
          · exact .unresolved List.mem_cons_self plain (List.mem_append_right _ isOutput) unknown
          · exact .producers _ _ _
        · exact (ih later).of_later
      · exact (ih failed).of_later

end Connections

namespace Grouping

/-- A group names a member that is no marker and does not stand to the right of it. -/
def Misplaced (operations : List Operation) (group member : OperationId) : Prop :=
  ∃ left marker right, operations = left ++ marker :: right ∧ marker.id = group ∧
    member ∈ marker.memberIds ∧ member ∉ markers operations ∧ member ∉ ids right

theorem not_misplaced_of_placed {operations : List Operation} (placed : Placed operations)
    {group member : OperationId} : ¬Misplaced operations group member := by
  rintro ⟨left, marker, right, rfl, _, listed, noMarker, notRight⟩
  clear noMarker
  induction left with
  | nil => exact notRight (placed.1 member listed)
  | cons _ _ ih => exact ih placed.2

inductive Refusal (operations : List Operation) : GraphError → Prop
  | group (group : OperationId) (fault : GroupFault) :
      Refusal operations (.invalidGroup group fault)
  | misplaced {group member : OperationId} (misplaced : Misplaced operations group member) :
      Refusal operations (.groupMemberNotFound group member)

theorem checkMembers_eq_error {markers right taken members : List OperationId}
    {group : OperationId} {failure : GraphError}
    (failed : checkMembers markers group right taken members = .error failure) :
    (∃ fault, failure = .invalidGroup group fault) ∨
      ∃ member ∈ members, member ∉ markers ∧ member ∉ right ∧
        failure = .groupMemberNotFound group member := by
  induction members generalizing taken with
  | nil => cases failed
  | cons first rest ih =>
      rw [checkMembers] at failed
      split at failed
      · cases failed
        exact Or.inl ⟨_, rfl⟩
      · rename_i noMarker
        split at failed
        · cases failed
          exact Or.inl ⟨_, rfl⟩
        · split at failed
          · refine (ih failed).imp_right ?_
            rintro ⟨member, listed, facts⟩
            exact ⟨member, List.mem_cons_of_mem _ listed, facts⟩
          · rename_i missing
            cases failed
            exact Or.inr ⟨first, List.mem_cons_self, noMarker, missing, rfl⟩

theorem checkFrom_eq_error {markers taken : List OperationId} {operations : List Operation}
    {failure : GraphError} (failed : checkFrom markers taken operations = .error failure) :
    (∃ group fault, failure = .invalidGroup group fault) ∨
      ∃ left marker right member, operations = left ++ marker :: right ∧
        member ∈ marker.memberIds ∧ member ∉ markers ∧ member ∉ ids right ∧
        failure = .groupMemberNotFound marker.id member := by
  induction operations generalizing taken with
  | nil => cases failed
  | cons operation rest ih =>
      have later : ∀ {taken}, checkFrom markers taken rest = .error failure →
          (∃ group fault, failure = .invalidGroup group fault) ∨
            ∃ left marker right member, operation :: rest = left ++ marker :: right ∧
              member ∈ marker.memberIds ∧ member ∉ markers ∧ member ∉ ids right ∧
              failure = .groupMemberNotFound marker.id member := by
        intro taken failed
        refine (ih failed).imp_right ?_
        rintro ⟨left, marker, right, member, split, facts⟩
        exact ⟨operation :: left, marker, right, member, by rw [split]; rfl, facts⟩
      rw [checkFrom] at failed
      split at failed
      · exact later failed
      · rename_i members found
        rcases bind_eq_error_iff.mp failed with here | ⟨_, _, failedLater⟩
        · rcases checkMembers_eq_error here with ⟨fault, same⟩ | ⟨member, listed, facts⟩
          · exact Or.inl ⟨_, fault, same⟩
          · refine Or.inr ⟨[], operation, rest, member, rfl, ?_, facts⟩
            rwa [Operation.memberIds, found]
        · exact later failedLater

theorem refusal_of_check {operations : List Operation} {failure : GraphError}
    (failed : check operations = .error failure) : Refusal operations failure := by
  rcases checkFrom_eq_error failed with ⟨group, fault, rfl⟩ | ⟨left, marker, right, member, facts⟩
  · exact .group group fault
  · obtain ⟨split, listed, noMarker, notRight, rfl⟩ := facts
    exact .misplaced ⟨left, marker, right, split, rfl, listed, noMarker, notRight⟩

end Grouping

namespace Graph

theorem checkEach_eq_error {α : Type} {failure : GraphError}
    (validate : α → Except GraphError Unit) (id : α → UInt32) (conflict : UInt32 → GraphError)
    (check : List UInt32 → List α → Except GraphError Unit)
    (nil : ∀ earlier, check earlier [] = .ok ())
    (cons : ∀ earlier item rest, check earlier (item :: rest) = do
      validate item
      if id item ∈ earlier then
        throw (conflict (id item))
      check (id item :: earlier) rest)
    {earlier : List UInt32} {items : List α} (failed : check earlier items = .error failure) :
    (∃ item ∈ items, validate item = .error failure) ∨
      ∃ item ∈ items, failure = conflict (id item) ∧
        ¬((items.map id).Nodup ∧ ∀ other ∈ items, id other ∉ earlier) := by
  induction items generalizing earlier with
  | nil =>
      rw [nil] at failed
      cases failed
  | cons item rest ih =>
      rw [cons, bind_eq_error_iff] at failed
      rcases failed with refused | ⟨_, _, failed⟩
      · exact Or.inl ⟨item, List.mem_cons_self, refused⟩
      · dsimp only at failed
        split at failed
        · rename_i known
          cases failed
          exact Or.inr ⟨item, List.mem_cons_self, rfl,
            fun ⟨_, fresh⟩ => fresh item List.mem_cons_self known⟩
        · rcases ih failed with ⟨other, listed, refused⟩ | ⟨other, listed, rfl, clash⟩
          · exact Or.inl ⟨other, List.mem_cons_of_mem _ listed, refused⟩
          · refine Or.inr ⟨other, List.mem_cons_of_mem _ listed, rfl, fun ⟨unique, fresh⟩ => ?_⟩
            rw [List.map_cons, List.nodup_cons] at unique
            refine clash ⟨unique.2, fun another present => ?_⟩
            rw [List.mem_cons, not_or]
            refine ⟨fun same => unique.1 ?_, fresh another (List.mem_cons_of_mem _ present)⟩
            exact List.mem_map.mpr ⟨another, present, same⟩

inductive Refusal (tensors : List Tensor) (operations : List Operation) (capacity : Capacity) :
    GraphError → Prop
  | tensorCount (beyond : capacity.tensors.toNat < tensors.length) :
      Refusal tensors operations capacity
        (.capacityExceeded .tensors capacity.tensors.toNat tensors.length)
  | operationCount (beyond : capacity.operations.toNat < operations.length) :
      Refusal tensors operations capacity
        (.capacityExceeded .operations capacity.operations.toNat operations.length)
  | tensor {tensor : Tensor} {failure : GraphError} (listed : tensor ∈ tensors)
      (refused : tensor.validate = .error failure) : Refusal tensors operations capacity failure
  | tensorTwice (repeated : ¬(tensors.map Tensor.id).Nodup) (id : TensorId) :
      Refusal tensors operations capacity (.conflictingTensor id)
  | operation {operation : Operation} {failure : GraphError} (listed : operation ∈ operations)
      (refused : operation.validate = .error failure) : Refusal tensors operations capacity failure
  | operationTwice (repeated : ¬(ids operations).Nodup) (id : OperationId) :
      Refusal tensors operations capacity (.conflictingOperation id)
  | groups {failure : GraphError} (refused : Grouping.Refusal operations failure) :
      Refusal tensors operations capacity failure
  | connections {arranged : List Operation} {failure : GraphError}
      (grouped : arrangeGroups operations = .ok arranged)
      (refused : Connections.Refusal (tensors.map Tensor.id) arranged failure) :
      Refusal tensors operations capacity failure
  | cyclic : Refusal tensors operations capacity .cyclicGraph

theorem refusal_of_build {tensors : List Tensor} {operations : List Operation}
    {capacity : Capacity} {failure : GraphError}
    (failed : build tensors operations capacity = .error failure) :
    Refusal tensors operations capacity failure := by
  simp only [build, bind_eq_error_iff] at failed
  rcases failed with failed | ⟨_, _, failed | ⟨_, _, failed | ⟨_, _, failed | ⟨_, _,
    failed | ⟨arranged, grouped, failed | ⟨_, _, failed | ⟨_, _, failed⟩⟩⟩⟩⟩⟩⟩
  · obtain ⟨beyond, rfl⟩ := checkWithin_eq_error_iff.mp failed
    exact .tensorCount beyond
  · obtain ⟨beyond, rfl⟩ := checkWithin_eq_error_iff.mp failed
    exact .operationCount beyond
  · rcases checkEach_eq_error Tensor.validate Tensor.id .conflictingTensor checkTensors
      (fun _ => rfl) (fun _ _ _ => rfl) failed with ⟨_, listed, refused⟩ | ⟨_, _, rfl, clash⟩
    · exact .tensor listed refused
    · exact .tensorTwice (fun unique => clash ⟨unique, by simp⟩) _
  · rcases checkEach_eq_error Operation.validate (fun operation => operation.id)
      .conflictingOperation checkOperations (fun _ => rfl) (fun _ _ _ => rfl) failed with
      ⟨_, listed, refused⟩ | ⟨_, _, rfl, clash⟩
    · exact .operation listed refused
    · exact .operationTwice (fun unique => clash ⟨unique, by simp⟩) _
  · rcases bind_eq_error_iff.mp failed with refused | ⟨_, _, done⟩
    · exact .groups (Grouping.refusal_of_check refused)
    · cases done
  · exact .connections grouped (Connections.refusal_of_checkFrom failed)
  · rw [ranks] at failed
    split at failed
    · cases failed
    · cases failed
      exact .cyclic
  · cases failed

theorem misplaced_of_build {tensors : List Tensor} {operations : List Operation}
    {capacity : Capacity} {group member : OperationId}
    (failed : build tensors operations capacity = .error (.groupMemberNotFound group member)) :
    Grouping.Misplaced operations group member := by
  cases refusal_of_build failed with
  | tensor _ refused => cases Tensor.refusal_of_validate refused
  | operation _ refused => cases Operation.refusal_of_validate refused
  | groups refused =>
      cases refused with
      | misplaced misplaced => exact misplaced
  | connections _ refused => cases refused

end Graph

end TensorGraph
