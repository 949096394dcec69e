import TensorGraph.Proofs.SafeRuns

/-!
Runs that stop on the way. An operation without support stops a run before anything has happened;
any other error leaves what was finished until then, and changes nothing but the outputs of the
operations that were handed to the kernels.
-/

namespace TensorGraph

def ExecutionError.IsUnsupported (error : ExecutionError) : Prop :=
  ∃ operation kind elementType, error = .unsupportedOperation operation kind elementType

section Support

variable {elementType : ElementType} {arithmetic : Arithmetic (Element elementType)}

theorem ElementType.isFloat_of_unary? (known : elementType.arithmetic = some arithmetic)
    {function : UnaryFunction} {element value : Element elementType}
    (computed : arithmetic.unary? function element = some value) :
    elementType.isFloat = true := by
  cases elementType with
  | f16 | f32 | f64 => rfl
  | u8 | u16 | u32 | u64 | i8 | i16 | i32 | i64 =>
      cases known
      cases computed

theorem Kernel.Yields.supported (known : elementType.arithmetic = some arithmetic)
    {scalar : Option (Element elementType)} {inputs : List Tensor} {output : Tensor}
    {operands : List (List (Element elementType))} {result : List (Element elementType)}
    {kind : OperationKind} (yields : Yields arithmetic scalar inputs output operands result kind)
    (valid : output.validate = .ok ()) : KernelSet.standardSupports kind elementType = true := by
  have hasPool : elementType.hasPool = true := by
    rw [← ElementType.arithmetic_isSome, known]
    rfl
  obtain ⟨length, means⟩ := yields
  have isFloat : ∀ function, MapsTo (arithmetic.unary? function) operands result →
      elementType.isFloat = true := by
    rintro function ⟨operand, _, related⟩
    have filled := Tensor.elementCount_pos valid
    cases related with
    | nil => rw [← length] at filled; cases filled
    | cons computed _ => exact ElementType.isFloat_of_unary? known computed
  refine Bool.and_eq_true_iff.mpr ⟨hasPool, ?_⟩
  cases kind with
  | exp | sin | cos | abs => exact isFloat _ means
  | elementRandom | matrixInverse | group | zero | identity => exact means.elim
  | _ => rfl

theorem KernelSet.exists_error_of_unsupported (known : elementType.arithmetic = some arithmetic)
    {call : KernelCall elementType} (provided : call.Provided)
    (unsupported : standardSupports call.kind elementType = false) :
    ∃ error, (standardExecute elementType call).error = some error := by
  rw [← Option.ne_none_iff_exists']
  intro finished
  simp only [standardExecute, known, Option.map_eq_none_iff] at finished
  obtain ⟨first, _, outputs⟩ := List.exists_cons_of_ne_nil provided.writesSomething
  have listed : first ∈ call.outputs := by simp [outputs]
  obtain ⟨_, _, yields⟩ := Kernel.yields_of_compute provided.filled provided.valid
    provided.lengths finished
  rw [(yields first listed).supported known (provided.valid first listed)] at unsupported
  cases unsupported

theorem KernelSet.not_isUnsupported_of_error (known : elementType.arithmetic = some arithmetic)
    {call : KernelCall elementType} (provided : call.Provided)
    (supported : standardSupports call.kind elementType = true) {error : ExecutionError}
    (stopped : (standardExecute elementType call).error = some error) : ¬error.IsUnsupported := by
  obtain ⟨fault, rfl, foreseen⟩ := exists_foreseen_of_error known provided supported stopped
  rintro ⟨_, _, _, same⟩
  cases foreseen with
  | mismatch _ => cases same
  | quotient _ => cases same

end Support

theorem Sequential.apart_of_take {tensors : List Tensor} {operations : List CompactOperation}
    (sequential : Sequential tensors operations) {position : Nat} {operation other : CompactOperation}
    (found : operations[position]? = some operation) (earlier : other ∈ operations.take position)
    {index : Nat} (touched : index ∈ other.inputs ++ other.outputs) :
    index ∉ operation.outputs := by
  have order := sequential.order
  rw [← List.take_append_drop position operations, List.pairwise_append] at order
  have later : operation ∈ operations.drop position :=
    List.mem_of_getElem? (i := 0) (by rw [List.getElem?_drop, Nat.add_zero, found])
  intro written
  have apart := order.2.2 other earlier operation later index written
  exact (List.mem_append.mp touched).elim apart.1 apart.2

namespace CompactOperation

variable {tensors : List Tensor} {operation : CompactOperation}

theorem Solved.of_agreeAt {kernels : KernelSet} {left right : Table}
    (solved : operation.Solved kernels tensors left) (sound : operation.Sound tensors)
    (agree : ∀ index ∈ operation.inputs ++ operation.outputs, AgreeAt tensors left right index) :
    operation.Solved kernels tensors right := by
  intro position before lengths
  rw [← map_eq_of_agreeAt sound (List.subset_append_left _ _) fun index member =>
      agree index (List.mem_append_left _ member),
    ← map_eq_of_agreeAt sound (List.subset_append_right _ _) fun index member =>
      agree index (List.mem_append_right _ member)]
  exact solved position before lengths

end CompactOperation

namespace CompactGraph

open CompactOperation (outcome stepped)

variable {graph : CompactGraph} {kernels : KernelSet} {store : Store}

/-- The first operation of a run that finishes is handed over, and the run goes on from what it leaves
in memory, whatever comes next. -/
theorem exists_step_of_finished {position : Nat} {operation : CompactOperation}
    {first : List CompactOperation}
    (finished : (graph.runFrom kernels position (operation :: first) store).error = none) :
    ∃ (written : Store) (dispatch : Dispatch), dispatch.position = position ∧
      (graph.runFrom kernels (position + 1) first written).error = none ∧
      ∀ rest, graph.runFrom kernels position (operation :: rest) store =
        { graph.runFrom kernels (position + 1) rest written with
          dispatched := dispatch ::
            (graph.runFrom kernels (position + 1) rest written).dispatched } := by
  cases made : graph.call store position operation with
  | error failure =>
      simp only [runFrom, made] at finished
      cases finished
  | ok call =>
      cases course : (kernels.execute operation.elementType call).error with
      | some failure =>
          simp only [runFrom, made, course] at finished
          cases finished
      | none =>
          simp only [runFrom, made, course] at finished ⊢
          exact ⟨_, _, rfl, finished, fun _ => rfl⟩

theorem runFrom_append {position : Nat} {first : List CompactOperation}
    (finished : (graph.runFrom kernels position first store).error = none)
    (rest : List CompactOperation) :
    let run := graph.runFrom kernels position first store
    let continued := graph.runFrom kernels (position + first.length) rest run.store
    graph.runFrom kernels position (first ++ rest) store =
      { continued with dispatched := run.dispatched ++ continued.dispatched } := by
  induction first generalizing store position with
  | nil => rfl
  | cons operation first ih =>
      obtain ⟨written, dispatch, _, finishedNext, step⟩ := exists_step_of_finished finished
      have next := ih finishedNext
      simp only [List.cons_append, List.length_cons, step, next]
      rw [Nat.add_right_comm position, Nat.add_assoc position]

theorem positions_of_finished {position : Nat} {operations : List CompactOperation}
    (finished : (graph.runFrom kernels position operations store).error = none) :
    (graph.runFrom kernels position operations store).dispatched.map Dispatch.position =
      List.range' position operations.length := by
  induction operations generalizing store position with
  | nil => rfl
  | cons operation rest ih =>
      obtain ⟨written, dispatch, here, finishedNext, step⟩ := exists_step_of_finished finished
      rw [step, List.map_cons, ih finishedNext, here, List.length_cons, List.range'_succ]

end CompactGraph

namespace Executor

open CompactOperation (outcome stepped)

/-- The run finished all operations before a position, and the kernels stopped at the one there. -/
structure StoppedAt (executor : Executor) (position : Nat) (operation : CompactOperation)
    (error : ExecutionError) : Prop where
  found : executor.graph.operations[position]? = some operation
  finished : (executor.before position).error = none
  stopped : ∃ call,
    executor.graph.call (executor.before position).store position operation = .ok call ∧
      (executor.kernels.execute operation.elementType call).error = some error
  dispatched : executor.run.dispatched.map Dispatch.position = List.range (position + 1)

/-- The kernels turn down no operation of the graph that they say they support, and finish none of
the others. -/
structure KeepsPromises (executor : Executor) : Prop where
  supported : ∀ operation ∈ executor.graph.operations, ∀ position call error,
    executor.kernels.supports operation.kind operation.elementType = true →
    executor.graph.call executor.store position operation = .ok call →
    (executor.kernels.execute operation.elementType call).error = some error →
    ¬error.IsUnsupported
  unsupported : ∀ operation ∈ executor.graph.operations, ∀ position call,
    executor.kernels.supports operation.kind operation.elementType = false →
    executor.graph.call executor.store position operation = .ok call →
    ∃ error, (executor.kernels.execute operation.elementType call).error = some error

namespace Serves

variable {executor : Executor} {graph : Graph} {error : ExecutionError}

theorem provided_of_call (serves : executor.Serves graph) (wellFormed : graph.WellFormed)
    {operation : CompactOperation} (member : operation ∈ executor.graph.operations)
    {position : Nat} {call : KernelCall operation.elementType}
    (made : executor.graph.call executor.store position operation = .ok call) :
    call.kind = operation.kind ∧ call.Provided ∧
      ∃ arithmetic, operation.elementType.arithmetic = some arithmetic := by
  have runnable := serves.runnable wellFormed
  have sound := runnable.sequential.sound operation member
  cases (CompactGraph.call_eq serves.fits sound runnable.valid).symm.trans made
  refine ⟨rfl, CompactOperation.provided_task serves.fits sound runnable.valid
    (serves.equipped wellFormed operation member) position, ?_⟩
  rw [← Option.isSome_iff_exists, ElementType.arithmetic_isSome]
  exact serves.fits.hasPool sound

theorem keepsPromises (serves : executor.Serves graph) (wellFormed : graph.WellFormed) :
    executor.KeepsPromises := by
  constructor
  case supported =>
    intro operation member position call error supported made stopped
    obtain ⟨sameKind, provided, _, known⟩ := serves.provided_of_call wellFormed member made
    rw [serves.kernels_eq] at supported stopped
    exact KernelSet.not_isUnsupported_of_error known provided (sameKind ▸ supported) stopped
  case unsupported =>
    intro operation member position call unsupported made
    obtain ⟨sameKind, provided, _, known⟩ := serves.provided_of_call wellFormed member made
    rw [serves.kernels_eq] at unsupported ⊢
    exact KernelSet.exists_error_of_unsupported known provided (sameKind ▸ unsupported)

theorem after_before (serves : executor.Serves graph) (wellFormed : graph.WellFormed)
    (position : Nat) : (executor.after (executor.before position)).Serves graph := by
  obtain ⟨fresh, created, sameKernels, layout⟩ := serves.created
  have runnable := serves.runnable wellFormed
  have kept := (CompactGraph.runFrom_frame serves.overwrites runnable.valid
    (runnable.sequential.take position) serves.fits 0).1
  exact ⟨serves.compacted, fresh, created, sameKernels, kept.trans layout⟩

theorem exists_stoppedAt (serves : executor.Serves graph) (wellFormed : graph.WellFormed)
    (supported : executor.graph.checkSupported executor.kernels = .ok ())
    (failed : executor.run.error = some error) :
    ∃ position operation, executor.StoppedAt position operation error ∧
      executor.run.store = stepped executor.kernels position executor.graph.tensors
        (executor.before position).store operation := by
  have isRun : executor.run = executor.graph.runFrom executor.kernels 0 executor.graph.operations
      executor.store := CompactGraph.run_of_supported supported
  rw [isRun] at failed
  obtain ⟨position, operation, found, finished, stopped⟩ :=
    CompactGraph.exists_stopped_of_error failed
  rw [Nat.zero_add] at stopped
  obtain ⟨bound, here⟩ := List.getElem?_eq_some_iff.mp found
  have split : executor.graph.operations.take position ++
      operation :: executor.graph.operations.drop (position + 1) = executor.graph.operations := by
    rw [← here, List.getElem_cons_drop, List.take_append_drop]
  have counted : (executor.graph.operations.take position).length = position := by
    rw [List.length_take]
    omega
  have continued := CompactGraph.runFrom_append finished
    (operation :: executor.graph.operations.drop (position + 1))
  rw [split, ← isRun, counted, Nat.zero_add] at continued
  have handed := CompactGraph.positions_of_finished finished
  rw [counted, ← List.range_eq_range'] at handed
  rcases stopped with notMade | ⟨call, made, stopped⟩
  · obtain ⟨call, made, _⟩ := serves.exists_hands wellFormed found
    rw [before, notMade] at made
    cases made
  · have runnable := serves.runnable wellFormed
    have sound := runnable.sequential.sound operation (List.mem_of_getElem? found)
    have isTask := (CompactGraph.call_eq (serves.fits_before wellFormed position) sound
      runnable.valid).symm.trans made
    simp only [CompactGraph.runFrom, made, stopped] at continued
    refine ⟨position, operation, ⟨found, finished, ⟨call, made, stopped⟩, ?_⟩, ?_⟩
    · rw [continued, List.map_append, handed, List.range_succ]
      rfl
    · rw [continued]
      cases isTask
      rfl

section Stopped

variable {position : Nat} {operation : CompactOperation}

theorem run_frame_of_stopped (serves : executor.Serves graph) (wellFormed : graph.WellFormed)
    (found : executor.graph.operations[position]? = some operation)
    (left : executor.run.store = stepped executor.kernels position executor.graph.tensors
      (executor.before position).store operation) {index : Nat}
    (untouched : ∀ other ∈ executor.graph.operations.take (position + 1), index ∉ other.outputs) :
    AgreeAt executor.graph.tensors executor.run.store.contents executor.store.contents index := by
  intro tensor tensorFound
  have runnable := serves.runnable wellFormed
  have sound := runnable.sequential.sound operation (List.mem_of_getElem? found)
  rw [List.take_add_one, found, Option.toList_some, List.forall_mem_append,
    List.forall_mem_singleton] at untouched
  have frame := (CompactGraph.runFrom_frame serves.overwrites runnable.valid
    (runnable.sequential.take position) serves.fits 0).2
  rw [left, CompactOperation.contents_stepped_of_not_mem position serves.overwrites
    (serves.fits_before wellFormed position) sound runnable.valid tensorFound untouched.2]
  exact frame index untouched.1 tensor tensorFound

/-- The operation that stopped writes nothing that the ones before it read or wrote, so these stay
solved. -/
theorem solves_of_stopped (serves : executor.Serves graph) (wellFormed : graph.WellFormed)
    (found : executor.graph.operations[position]? = some operation)
    (finished : (executor.before position).error = none)
    (left : executor.run.store = stepped executor.kernels position executor.graph.tensors
      (executor.before position).store operation) :
    ∀ other ∈ executor.graph.operations.take position,
      (executor.after executor.run).Solves other := by
  intro other member
  have runnable := serves.runnable wellFormed
  have sequential := runnable.sequential
  have sound := sequential.sound operation (List.mem_of_getElem? found)
  have otherSound := sequential.sound other (List.mem_of_mem_take member)
  have solved := CompactGraph.solved_of_runFrom serves.overwrites runnable.valid
    (sequential.take position) serves.fits finished other member
  have stays : other.Solved executor.kernels executor.graph.tensors
      executor.run.store.contents := by
    refine solved.of_agreeAt otherSound fun index touched tensor tensorFound => ?_
    rw [left, CompactOperation.contents_stepped_of_not_mem position serves.overwrites
      (serves.fits_before wellFormed position) sound runnable.valid tensorFound
      (sequential.apart_of_take found member touched)]
    rfl
  rw [serves.kernels_eq] at stays
  exact solves_of_solved (serves.after_run wellFormed).fits otherSound runnable.valid stays

end Stopped

end Serves

end Executor

namespace Graph

/-- Errors leave memory well defined. An operation without support leaves it as it was; any other
error leaves the results of the operations before the one that stopped, and all that neither these
nor it write. -/
theorem run_failed {graph : Graph} (obtained : graph.Obtained) {executor : Executor}
    (serves : executor.Serves graph) :
    executor.KeepsPromises ∧ ∀ error, executor.run.error = some error →
      (error.IsUnsupported →
        executor.run.store = executor.store ∧ executor.run.dispatched = []) ∧
      (¬error.IsUnsupported → ∃ position operation,
        executor.StoppedAt position operation error ∧
        (∀ index, (∀ other ∈ executor.graph.operations.take (position + 1),
          index ∉ other.outputs) → ∀ elementType,
            (executor.after executor.run).readAt elementType index =
              executor.readAt elementType index) ∧
        ∀ other ∈ executor.graph.operations.take position,
          (executor.after executor.run).Solves other) := by
  obtain ⟨_, _, _, built⟩ := obtained.exists_build
  have wellFormed := wellFormed_of_build built
  refine ⟨serves.keepsPromises wellFormed, fun error failed => ?_⟩
  cases supported : executor.graph.checkSupported executor.kernels with
  | error failure =>
      have isRun : executor.run = ⟨executor.store, [], some failure⟩ := by
        rw [Executor.run, CompactGraph.run, supported]
      rw [isRun] at failed ⊢
      cases failed
      obtain ⟨operation, _, _, same⟩ := CompactGraph.exists_unsupported_of_error supported
      exact ⟨fun _ => ⟨rfl, rfl⟩, fun isOther => (isOther ⟨_, _, _, same⟩).elim⟩
  | ok _ =>
      obtain ⟨position, operation, stoppedAt, left⟩ :=
        serves.exists_stoppedAt wellFormed supported failed
      obtain ⟨call, made, stopped⟩ := stoppedAt.stopped
      have member := List.mem_of_getElem? stoppedAt.found
      have promises := (serves.after_before wellFormed position).keepsPromises wellFormed
      have notUnsupported : ¬error.IsUnsupported :=
        promises.supported operation member position call error
          (CompactGraph.checkSupported_ok_iff.mp supported operation member) made stopped
      refine ⟨fun isUnsupported => (notUnsupported isUnsupported).elim, fun _ =>
        ⟨position, operation, stoppedAt, fun index untouched => ?_,
          serves.solves_of_stopped wellFormed stoppedAt.found stoppedAt.finished left⟩⟩
      exact (Store.read_eq_iff (serves.after_run wellFormed).fits serves.fits).mpr
        (serves.run_frame_of_stopped wellFormed stoppedAt.found left untouched)

theorem run_failed_squares :
    (∃ built graph compactGraph fresh executor error,
      build squares squareOperations ⟨8, 8⟩ = .ok built ∧ built.sorted = .ok graph ∧
      graph.compact = .ok compactGraph ∧ Executor.create compactGraph .standard = .ok fresh ∧
      fresh.writeAt .u8 4 [5, 6, 7, 8] = .ok executor ∧
      error = .computationFailed 2 .elementDiv .divisionByZero ∧
      executor.run.error = some error ∧ ∃ position operation,
        executor.StoppedAt position operation error ∧
        (∀ index, (∀ other ∈ executor.graph.operations.take (position + 1),
          index ∉ other.outputs) → ∀ elementType,
            (executor.after executor.run).readAt elementType index =
              executor.readAt elementType index) ∧
        ∀ other ∈ executor.graph.operations.take position,
          (executor.after executor.run).Solves other) ∧
    ∃ graph compactGraph fresh executor,
      build squares [squareOperation 1 .copy [0] [1], squareOperation 2 .matrixInverse [1] [2]]
        ⟨8, 8⟩ = .ok graph ∧
      graph.compact = .ok compactGraph ∧ Executor.create compactGraph .standard = .ok fresh ∧
      fresh.writeAt .u8 0 [5, 6, 7, 8] = .ok executor ∧
      executor.run.error = some (.unsupportedOperation 2 .matrixInverse .u8) ∧
      executor.run.store = executor.store ∧ executor.run.dispatched = [] := by
  constructor
  · obtain ⟨built, graph, compactGraph, fresh, executor, isBuilt, sorted, compacted, created,
        written, failed⟩ :
        ∃ built graph compactGraph fresh executor,
          build squares squareOperations ⟨8, 8⟩ = .ok built ∧ built.sorted = .ok graph ∧
          graph.compact = .ok compactGraph ∧ Executor.create compactGraph .standard = .ok fresh ∧
          fresh.writeAt .u8 4 [5, 6, 7, 8] = .ok executor ∧
          executor.run.error = some (.computationFailed 2 .elementDiv .divisionByZero) :=
      ⟨_, _, _, _, _, rfl, rfl, rfl, rfl, rfl, rfl⟩
    have serves := (Executor.Serves.of_create compacted created).after_write written
    have outcome := (run_failed (.sorted (.built isBuilt) sorted) serves).2 _ failed
    refine ⟨built, graph, compactGraph, fresh, executor, _, isBuilt, sorted, compacted, created,
      written, rfl, failed, outcome.2 ?_⟩
    rintro ⟨_, _, _, same⟩
    cases same
  · obtain ⟨graph, compactGraph, fresh, executor, isBuilt, compacted, created, written, failed⟩ :
        ∃ graph compactGraph fresh executor,
          build squares [squareOperation 1 .copy [0] [1], squareOperation 2 .matrixInverse [1] [2]]
            ⟨8, 8⟩ = .ok graph ∧
          graph.compact = .ok compactGraph ∧ Executor.create compactGraph .standard = .ok fresh ∧
          fresh.writeAt .u8 0 [5, 6, 7, 8] = .ok executor ∧
          executor.run.error = some (.unsupportedOperation 2 .matrixInverse .u8) :=
      ⟨_, _, _, _, rfl, rfl, rfl, rfl, rfl⟩
    have serves := (Executor.Serves.of_create compacted created).after_write written
    have outcome := (run_failed (.built isBuilt) serves).2 _ failed
    exact ⟨graph, compactGraph, fresh, executor, isBuilt, compacted, created, written, failed,
      outcome.1 ⟨_, _, _, rfl⟩⟩

end Graph

end TensorGraph
