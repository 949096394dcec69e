import TensorGraph.Proofs.GuardedRuns

/-!
What planning leaves to a run. Whatever writes and earlier runs left in memory, a run makes no
access out of range and hands every operation what its tensors hold. It stops only at an operation
that the kernels do not support, at operands that do not fit one another, or at a quotient of
integers that does not exist.
-/

namespace TensorGraph

theorem Sequential.take {tensors : List Tensor} {operations : List CompactOperation}
    (sequential : Sequential tensors operations) (count : Nat) :
    Sequential tensors (operations.take count) where
  sound operation member := sequential.sound operation (List.mem_of_mem_take member)
  order := sequential.order.sublist (List.take_sublist _ _)

namespace CompactGraph

variable {graph : CompactGraph} {kernels : KernelSet} {store : Store} {error : ExecutionError}

/-- Under this memory, the call hands an operation to the kernels with what its tensors hold; and
what the kernels leave in its outputs goes to these tensors, and to no others. -/
structure Hands (graph : CompactGraph) (store : Store) (operation : CompactOperation)
    (call : KernelCall operation.elementType) : Prop where
  kind : call.kind = operation.kind
  parameters : call.parameters = operation.parameters
  inputs : (operation.inputs.mapM fun index => graph.tensors[index]?) = some call.inputs
  outputs : (operation.outputs.mapM fun index => graph.tensors[index]?) = some call.outputs
  read : operation.inputs.mapM (store.read operation.elementType) = .ok call.contents.inputs
  overwritten : operation.outputs.mapM (store.read operation.elementType) =
    .ok call.contents.outputs
  written : ∀ contents, contents.map List.length = call.contents.outputs.map List.length →
    operation.outputs.mapM ((store.withOutputs operation contents).read operation.elementType) =
      .ok contents
  kept : ∀ contents, contents.map List.length = call.contents.outputs.map List.length →
    ∀ index ∉ operation.outputs, ∀ elementType,
      (store.withOutputs operation contents).read elementType index = store.read elementType index

theorem mapM_read_eq {tensors : List Tensor} (fits : store.Fits tensors)
    {operation : CompactOperation} (sound : operation.Sound tensors) {positions : List Nat}
    (operands : positions ⊆ operation.inputs ++ operation.outputs) :
    positions.mapM (store.read operation.elementType) =
      .ok (positions.map (store.contents operation.elementType)) := by
  rw [mapM_eq_ok_iff, List.forall₂_map_right_iff, List.forall₂_same]
  exact fun index member => fits.read_operand sound index (operands member)

theorem mapM_getElem?_eq {tensors : List Tensor} {operation : CompactOperation}
    (sound : operation.Sound tensors) {positions : List Nat}
    (operands : positions ⊆ operation.inputs ++ operation.outputs) :
    (positions.mapM fun index => tensors[index]?) = some (tensorsAt tensors positions) :=
  mapM_eq_some_iff.mpr (CompactOperation.forall₂_tensorsAt (sound.found operands)).flip

theorem hands_task (fits : store.Fits graph.tensors) {operation : CompactOperation}
    (sound : operation.Sound graph.tensors) (position : Nat) :
    graph.Hands store operation
      (operation.task graph.tensors position (store.views operation)) := by
  have fitting : ∀ contents : List (List (Element operation.elementType)),
      contents.map List.length = (store.views operation).outputs.map List.length →
      contents.map List.length = operation.outputs.map fun index =>
        (store.contents operation.elementType index).length :=
    fun _ lengths => lengths.trans List.map_map
  constructor
  case kind => rfl
  case parameters => rfl
  case inputs => exact mapM_getElem?_eq sound (List.subset_append_left _ _)
  case outputs => exact mapM_getElem?_eq sound (List.subset_append_right _ _)
  case read => exact mapM_read_eq fits sound (List.subset_append_left _ _)
  case overwritten => exact mapM_read_eq fits sound (List.subset_append_right _ _)
  case written =>
    intro contents lengths
    have after := fits.of_sameLayout (fits.withOutputs_sameLayout sound (fitting contents lengths))
    rw [mapM_read_eq after sound (List.subset_append_right _ _),
      fits.contents_withOutputs sound (fitting contents lengths)]
  case kept =>
    intro contents lengths index untouched
    have after := fits.of_sameLayout (fits.withOutputs_sameLayout sound (fitting contents lengths))
    exact (Store.read_eq_iff after fits).mpr fun tensor found =>
      fits.contents_withOutputs_of_not_mem sound (fitting contents lengths) found untouched

theorem exists_unsupported_of_error (failed : graph.checkSupported kernels = .error error) :
    ∃ operation ∈ graph.operations,
      kernels.supports operation.kind operation.elementType = false ∧
        error = .unsupportedOperation operation.id operation.kind operation.elementType := by
  rw [checkSupported] at failed
  split at failed
  · rename_i operation found
    cases failed
    exact ⟨operation, List.mem_of_find?_eq_some found, by simpa using List.find?_some found, rfl⟩
  · cases failed

theorem exists_stopped_of_error {position : Nat} {operations : List CompactOperation}
    (failed : (graph.runFrom kernels position operations store).error = some error) :
    ∃ count operation, operations[count]? = some operation ∧
      (graph.runFrom kernels position (operations.take count) store).error = none ∧
      (graph.call (graph.runFrom kernels position (operations.take count) store).store
          (position + count) operation = .error error ∨
        ∃ call, graph.call (graph.runFrom kernels position (operations.take count) store).store
            (position + count) operation = .ok call ∧
          (kernels.execute operation.elementType call).error = some error) := by
  induction operations generalizing store position with
  | nil => cases failed
  | cons operation rest ih =>
      cases made : graph.call store position operation with
      | error failure =>
          simp only [runFrom, made] at failed
          cases failed
          exact ⟨0, operation, rfl, rfl, Or.inl made⟩
      | ok call =>
          cases course : (kernels.execute operation.elementType call).error with
          | some failure =>
              simp only [runFrom, made, course] at failed
              cases failed
              exact ⟨0, operation, rfl, rfl, Or.inr ⟨call, made, course⟩⟩
          | none =>
              simp only [runFrom, made, course] at failed
              obtain ⟨count, other, found, finished, stopped⟩ := ih failed
              refine ⟨count + 1, other, found, ?_⟩
              simp only [List.take_succ_cons, runFrom, made, course, ← Nat.add_assoc,
                Nat.add_right_comm position count 1]
              exact ⟨finished, stopped⟩

end CompactGraph

namespace Executor

/-- Executors as callers can come by them: fresh, written to, and after a run, however it ended. -/
inductive Reached (graph : Graph) : Executor → Prop
  | created {compactGraph : CompactGraph} {executor : Executor} :
      graph.compact = .ok compactGraph → create compactGraph .standard = .ok executor →
      Reached graph executor
  | writtenAt {executor result : Executor} {elementType : ElementType} {index : Nat}
      {data : List (Element elementType)} :
      Reached graph executor → executor.writeAt elementType index data = .ok result →
      Reached graph result
  | written {executor result : Executor} {elementType : ElementType} {id : TensorId}
      {data : List (Element elementType)} :
      Reached graph executor → executor.write elementType id data = .ok result →
      Reached graph result
  | ran {executor : Executor} : Reached graph executor →
      Reached graph (executor.after executor.run)

theorem Reached.serves {graph : Graph} {executor : Executor} (reached : executor.Reached graph)
    (wellFormed : graph.WellFormed) : executor.Serves graph := by
  induction reached with
  | created compacted created => exact .of_create compacted created
  | writtenAt _ succeeded ih => exact ih.after_write succeeded
  | written _ succeeded ih =>
      simp only [write, bind_eq_ok_iff] at succeeded
      obtain ⟨_, _, succeededAt⟩ := succeeded
      exact ih.after_write succeededAt
  | ran _ ih => exact ih.after_run wellFormed

def before (executor : Executor) (position : Nat) : Run :=
  executor.graph.runFrom executor.kernels 0 (executor.graph.operations.take position)
    executor.store

inductive Foreseeable (executor : Executor) : ExecutionError → Prop
  | unsupported {operation : CompactOperation} :
      operation ∈ executor.graph.operations →
      executor.kernels.supports operation.kind operation.elementType = false →
      Foreseeable executor
        (.unsupportedOperation operation.id operation.kind operation.elementType)
  | mismatch {operation : CompactOperation} (fault : OperandFault) :
      operation ∈ executor.graph.operations →
      Foreseeable executor (.operandMismatch operation.id operation.kind fault)
  | quotient {position : Nat} {operation : CompactOperation}
      {call : KernelCall operation.elementType}
      {arithmetic : Arithmetic (Element operation.elementType)} {fault : ComputationFault} :
      executor.graph.operations[position]? = some operation →
      (executor.before position).error = none →
      executor.graph.call (executor.before position).store position operation = .ok call →
      operation.elementType.isFloat = false →
      operation.elementType.arithmetic = some arithmetic →
      Kernel.LacksQuotient arithmetic (operation.parameters.scalar? operation.elementType)
        call.contents.inputs operation.kind fault →
      Foreseeable executor (.computationFailed operation.id operation.kind fault)

namespace Serves

variable {executor : Executor} {graph : Graph}

theorem equipped (serves : executor.Serves graph) (wellFormed : graph.WellFormed) :
    ∀ operation ∈ executor.graph.operations, operation.Equipped := by
  rw [serves.operations_eq, List.forall_mem_map]
  exact fun node member => wellFormed.equipped_compactNode member

theorem fits_before (serves : executor.Serves graph) (wellFormed : graph.WellFormed)
    (position : Nat) : (executor.before position).store.Fits executor.graph.tensors := by
  have runnable := serves.runnable wellFormed
  exact serves.fits.of_sameLayout (CompactGraph.runFrom_frame serves.overwrites runnable.valid
    (runnable.sequential.take position) serves.fits 0).1

theorem guardedRun_eq (serves : executor.Serves graph) (wellFormed : graph.WellFormed) :
    Guarded.run executor.graph executor.store = some executor.run := by
  rw [Executor.run, serves.kernels_eq]
  exact Guarded.run_eq (serves.runnable wellFormed) (serves.equipped wellFormed) serves.fits

theorem exists_hands (serves : executor.Serves graph) (wellFormed : graph.WellFormed)
    {position : Nat} {operation : CompactOperation}
    (found : executor.graph.operations[position]? = some operation) :
    ∃ call, executor.graph.call (executor.before position).store position operation = .ok call ∧
      executor.graph.Hands (executor.before position).store operation call := by
  have runnable := serves.runnable wellFormed
  have fits := serves.fits_before wellFormed position
  have sound := runnable.sequential.sound operation (List.mem_of_getElem? found)
  exact ⟨_, CompactGraph.call_eq fits sound runnable.valid,
    CompactGraph.hands_task fits sound position⟩

theorem foreseeable_of_stopped (serves : executor.Serves graph) (wellFormed : graph.WellFormed)
    {position : Nat} {operation : CompactOperation}
    (found : executor.graph.operations[position]? = some operation)
    (supported : KernelSet.standardSupports operation.kind operation.elementType = true)
    (finished : (executor.before position).error = none)
    {call : KernelCall operation.elementType}
    (made : executor.graph.call (executor.before position).store position operation = .ok call)
    {error : ExecutionError}
    (stopped : (KernelSet.standardExecute operation.elementType call).error = some error) :
    executor.Foreseeable error := by
  have runnable := serves.runnable wellFormed
  have fits := serves.fits_before wellFormed position
  have member := List.mem_of_getElem? found
  have sound := runnable.sequential.sound operation member
  have provided := CompactOperation.provided_task fits sound runnable.valid
    (serves.equipped wellFormed operation member) position
  obtain ⟨arithmetic, known⟩ :
      ∃ arithmetic, operation.elementType.arithmetic = some arithmetic := by
    rw [← Option.isSome_iff_exists, ElementType.arithmetic_isSome]
    exact fits.hasPool sound
  cases (CompactGraph.call_eq fits sound runnable.valid).symm.trans made
  obtain ⟨fault, rfl, foreseen⟩ :=
    KernelSet.exists_foreseen_of_error known provided supported stopped
  cases foreseen with
  | mismatch fault => exact .mismatch fault member
  | quotient lacking =>
      exact .quotient found finished made (lacking.isFloat_eq_false known) known lacking

theorem foreseeable_of_error (serves : executor.Serves graph) (wellFormed : graph.WellFormed)
    {error : ExecutionError} (failed : executor.run.error = some error) :
    executor.Foreseeable error := by
  cases checked : executor.graph.checkSupported executor.kernels with
  | error failure =>
      rw [Executor.run, CompactGraph.run, checked] at failed
      cases failed
      obtain ⟨operation, member, unsupported, rfl⟩ :=
        CompactGraph.exists_unsupported_of_error checked
      exact .unsupported member unsupported
  | ok _ =>
      rw [Executor.run, CompactGraph.run_of_supported checked] at failed
      obtain ⟨position, operation, found, finished, stopped⟩ :=
        CompactGraph.exists_stopped_of_error failed
      rw [Nat.zero_add] at stopped
      rcases stopped with notMade | ⟨call, made, stopped⟩
      · obtain ⟨call, made, _⟩ := serves.exists_hands wellFormed found
        rw [before, notMade] at made
        cases made
      · have supported := CompactGraph.checkSupported_ok_iff.mp checked operation
          (List.mem_of_getElem? found)
        rw [serves.kernels_eq] at supported stopped
        exact serves.foreseeable_of_stopped wellFormed found supported finished made stopped

end Serves

end Executor

namespace Graph

/-- All that construction and planning check together: runs stop for foreseeable reasons only. -/
theorem run_foreseeable {graph : Graph} (obtained : graph.Obtained) {executor : Executor}
    (reached : executor.Reached graph) :
    Guarded.run executor.graph executor.store = some executor.run ∧
    (∀ position operation, executor.graph.operations[position]? = some operation →
      ∃ call,
        executor.graph.call (executor.before position).store position operation = .ok call ∧
        executor.graph.Hands (executor.before position).store operation call) ∧
    ∀ error, executor.run.error = some error → executor.Foreseeable error := by
  obtain ⟨_, _, _, built⟩ := obtained.exists_build
  have wellFormed := wellFormed_of_build built
  have serves := reached.serves wellFormed
  exact ⟨serves.guardedRun_eq wellFormed, fun _ _ => serves.exists_hands wellFormed,
    fun _ => serves.foreseeable_of_error wellFormed⟩

section Quotients

def square (id : TensorId) (layout : Layout) : Tensor := ⟨id, .u8, ⟨[2, 2]⟩, .host, layout⟩

def squareOperation (id : OperationId) (kind : OperationKind) (inputs outputs : List TensorId) :
    Operation where
  id
  kind
  elementType := some .u8
  inputs
  outputs
  parameters := .empty

def squares : List Tensor :=
  [square 0 .rowMajor, square 1 .colMajor, square 2 .colMajor, square 3 .colMajor,
    square 4 .rowMajor]

def squareOperations : List Operation :=
  [squareOperation 2 .elementDiv [2, 0] [4], squareOperation 1 .matrixMul [0, 1] [2, 3]]

end Quotients

/-- On fresh memory the quotient does not exist; after that run, and with the divisor written, it
does. -/
theorem run_foreseeable_squares :
    ∃ built graph compactGraph fresh executor,
      build squares squareOperations ⟨8, 8⟩ = .ok built ∧ built.sorted = .ok graph ∧
      graph.compact = .ok compactGraph ∧ Executor.create compactGraph .standard = .ok fresh ∧
      (fresh.after fresh.run).write .u8 0 [1, 2, 3, 4] = .ok executor ∧
      fresh.run.error = some (.computationFailed 2 .elementDiv .divisionByZero) ∧
      fresh.Foreseeable (.computationFailed 2 .elementDiv .divisionByZero) ∧
      executor.run.error = none ∧
      Guarded.run executor.graph executor.store = some executor.run ∧
      (∀ position operation, executor.graph.operations[position]? = some operation →
        ∃ call,
          executor.graph.call (executor.before position).store position operation = .ok call ∧
          executor.graph.Hands (executor.before position).store operation call) ∧
      ∀ error, executor.run.error = some error → executor.Foreseeable error := by
  obtain ⟨built, graph, compactGraph, fresh, executor, isBuilt, sorted, compacted, created, written,
      stopped, finished⟩ :
      ∃ built graph compactGraph fresh executor,
        build squares squareOperations ⟨8, 8⟩ = .ok built ∧ built.sorted = .ok graph ∧
        graph.compact = .ok compactGraph ∧ Executor.create compactGraph .standard = .ok fresh ∧
        (fresh.after fresh.run).write .u8 0 [1, 2, 3, 4] = .ok executor ∧
        fresh.run.error = some (.computationFailed 2 .elementDiv .divisionByZero) ∧
        executor.run.error = none :=
    ⟨_, _, _, _, _, rfl, rfl, rfl, rfl, rfl, rfl, rfl⟩
  have obtained : graph.Obtained := .sorted (.built isBuilt) sorted
  have reached : fresh.Reached graph := .created compacted created
  obtain ⟨_, _, foreseen⟩ := run_foreseeable obtained reached
  exact ⟨built, graph, compactGraph, fresh, executor, isBuilt, sorted, compacted, created, written,
    stopped, foreseen _ stopped, finished,
    run_foreseeable obtained (.written (.ran reached) written)⟩

end Graph

end TensorGraph
