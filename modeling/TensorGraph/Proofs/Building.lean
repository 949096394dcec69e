import TensorGraph.Graph.Build
import TensorGraph.Proofs.Arrangement
import TensorGraph.Proofs.Connections
import TensorGraph.Proofs.Operations
import TensorGraph.Proofs.Ranking

/-!
What it takes to build a graph: the counts fit, all descriptors are valid under ids of their own,
groups can be arranged, operations can be connected and ranked. The graph is then put together from
the arranged operations alone.
-/

namespace TensorGraph

open Operation (ids)

namespace Graph

/-- A check that goes through items in turn passes if each is valid and no id comes twice. -/
theorem checkEach_ok_iff {α : Type} (validate : α → Except GraphError Unit) (id : α → UInt32)
    (conflict : UInt32 → GraphError) (check : List UInt32 → List α → Except GraphError Unit)
    (nil : ∀ earlier, check earlier [] = .ok ())
    (cons : ∀ earlier item rest, check earlier (item :: rest) = do
      validate item
      if id item ∈ earlier then
        throw (conflict (id item))
      check (id item :: earlier) rest)
    (earlier : List UInt32) (items : List α) :
    check earlier items = .ok () ↔
      (∀ item ∈ items, validate item = .ok () ∧ id item ∉ earlier) ∧ (items.map id).Nodup := by
  induction items generalizing earlier with
  | nil => simp [nil]
  | cons item rest ih =>
      rw [List.forall_mem_cons, List.map_cons, List.nodup_cons, cons, seq_eq_ok_iff]
      by_cases known : id item ∈ earlier
      · simp [known, bind, Except.bind, throw, throwThe, MonadExceptOf.throw]
      · simp only [known, if_false, not_false_eq_true, and_true]
        rw [ih]
        simp only [List.mem_cons, not_or, List.mem_map, not_exists, not_and]
        constructor
        · rintro ⟨valid, others, unique⟩
          exact ⟨⟨valid, fun other member => ⟨(others other member).1, (others other member).2.2⟩⟩,
            fun other member same => (others other member).2.1 same, unique⟩
        · rintro ⟨⟨valid, others⟩, fresh, unique⟩
          exact ⟨valid, fun other member => ⟨(others other member).1,
            fun same => fresh other member same, (others other member).2⟩, unique⟩

theorem checkTensors_ok_iff (earlier : List TensorId) (tensors : List Tensor) :
    checkTensors earlier tensors = .ok () ↔
      (∀ tensor ∈ tensors, tensor.validate = .ok () ∧ tensor.id ∉ earlier) ∧
        (tensors.map Tensor.id).Nodup :=
  checkEach_ok_iff Tensor.validate Tensor.id .conflictingTensor checkTensors (fun _ => rfl)
    (fun _ _ _ => rfl) earlier tensors

theorem checkOperations_ok_iff (earlier : List OperationId) (operations : List Operation) :
    checkOperations earlier operations = .ok () ↔
      (∀ operation ∈ operations, operation.validate = .ok () ∧ operation.id ∉ earlier) ∧
        (ids operations).Nodup :=
  checkEach_ok_iff Operation.validate (fun operation => operation.id) .conflictingOperation
    checkOperations (fun _ => rfl) (fun _ _ _ => rfl) earlier operations

def connected (capacity : Capacity) (tensors : List Tensor) (operations : List Operation)
    (ranks : List Nat) : Graph where
  capacity
  tensors := tensors.map (Connections.tensorNode operations)
  operations := operations.map (Connections.operationNode tensors)
  slots := slotsOf operations ranks

section Connected

variable (capacity : Capacity) (tensors : List Tensor) (operations : List Operation)
  (ranks : List Nat)

@[simp] theorem connected_tensorList :
    (connected capacity tensors operations ranks).tensorList = tensors := by
  simp [connected, tensorList, Function.comp_def, Connections.tensorNode]

@[simp] theorem connected_operationList :
    (connected capacity tensors operations ranks).operationList = operations := by
  simp [connected, operationList, Function.comp_def, Connections.operationNode]

def connectedSources : Sources :=
  sources (tensors.map (Connections.tensorNode operations))
    (operations.map (Connections.operationNode tensors))

theorem length_connectedSources :
    (connectedSources tensors operations).length = operations.length := by
  simp [connectedSources, sources]

end Connected

/-- What a list of tensors and a list of operations have to satisfy together with a capacity before
the operations are arranged. -/
structure Acceptable (tensors : List Tensor) (operations : List Operation) (capacity : Capacity) :
    Prop where
  tensorCount : tensors.length ≤ capacity.tensors.toNat
  operationCount : operations.length ≤ capacity.operations.toNat
  tensorsValid : ∀ tensor ∈ tensors, tensor.validate = .ok ()
  tensorIds : (tensors.map Tensor.id).Nodup
  operationsValid : ∀ operation ∈ operations, operation.validate = .ok ()
  operationIds : (ids operations).Nodup

theorem Acceptable.perm {tensors : List Tensor} {operations others : List Operation}
    {capacity : Capacity} (acceptable : Acceptable tensors operations capacity)
    (same : others.Perm operations) : Acceptable tensors others capacity :=
  { acceptable with
    operationCount := by rw [same.length_eq]; exact acceptable.operationCount
    operationsValid := fun operation member =>
      acceptable.operationsValid operation (same.mem_iff.mp member)
    operationIds := (same.map _).nodup_iff.mpr acceptable.operationIds }

theorem Acceptable.of_sublist {tensors keptTensors : List Tensor}
    {operations keptOperations : List Operation} {whole capacity : Capacity}
    (acceptable : Acceptable tensors operations whole) (tensorsKept : keptTensors.Sublist tensors)
    (operationsKept : keptOperations.Sublist operations)
    (tensorCount : keptTensors.length ≤ capacity.tensors.toNat)
    (operationCount : keptOperations.length ≤ capacity.operations.toNat) :
    Acceptable keptTensors keptOperations capacity where
  tensorCount
  operationCount
  tensorsValid tensor member := acceptable.tensorsValid tensor (tensorsKept.subset member)
  tensorIds := acceptable.tensorIds.sublist (tensorsKept.map _)
  operationsValid operation member :=
    acceptable.operationsValid operation (operationsKept.subset member)
  operationIds := acceptable.operationIds.sublist (operationsKept.map _)

theorem ranks_ok_iff {nodes : List TensorNode} {entered : List OperationNode} {found : List Nat} :
    ranks nodes entered = .ok found ↔
      ∃ known, (rankings (sources nodes entered)).mapM id = some known ∧
        known.map Ranking.rank = found := by
  rw [ranks]
  cases (rankings (sources nodes entered)).mapM id with
  | none => simp
  | some known => simp

theorem build_ok_iff {tensors : List Tensor} {operations : List Operation} {capacity : Capacity}
    {graph : Graph} :
    build tensors operations capacity = .ok graph ↔
      Acceptable tensors operations capacity ∧
        ∃ arranged, arrangeGroups operations = .ok arranged ∧
          Connections.check tensors arranged = .ok () ∧
          ∃ known, (rankings (connectedSources tensors arranged)).mapM id = some known ∧
            graph = connected capacity tensors arranged (known.map Ranking.rank) := by
  simp only [build, seq_eq_ok_iff]
  simp only [bind_eq_ok_iff, checkWithin_ok_iff, checkTensors_ok_iff, checkOperations_ok_iff,
    ranks_ok_iff]
  constructor
  · rintro ⟨tensorCount, operationCount, ⟨tensorsValid, tensorIds⟩, ⟨operationsValid, operationIds⟩,
      arranged, grouped, _, checked, found, ⟨known, ranked, same⟩, result⟩
    refine ⟨⟨tensorCount, operationCount, fun tensor member => (tensorsValid tensor member).1,
      tensorIds, fun operation member => (operationsValid operation member).1, operationIds⟩,
      arranged, grouped, checked, known, ranked, ?_⟩
    subst same
    exact (Except.ok.inj result).symm
  · rintro ⟨acceptable, arranged, grouped, checked, known, ranked, same⟩
    refine ⟨acceptable.tensorCount, acceptable.operationCount,
      ⟨fun tensor member => ⟨acceptable.tensorsValid tensor member, by simp⟩, acceptable.tensorIds⟩,
      ⟨fun operation member => ⟨acceptable.operationsValid operation member, by simp⟩,
        acceptable.operationIds⟩,
      arranged, grouped, (), checked, _, ⟨known, ranked, rfl⟩, ?_⟩
    rw [same]
    rfl

end Graph

end TensorGraph
