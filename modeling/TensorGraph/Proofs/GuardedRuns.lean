import TensorGraph.GuardedRun
import TensorGraph.Proofs.Equations
import TensorGraph.Proofs.GuardedKernels

/-!
Runs with every access guarded, from the cuts that separate the operands within a pool to the
kernels. In a run of a planned graph all accesses are in range.
-/

namespace TensorGraph

namespace CompactOperation

def Equipped (operation : CompactOperation) : Prop :=
  Operation.Equipped operation.kind operation.elementType operation.inputs.length
    operation.parameters

theorem provided_task {tensors : List Tensor} {operation : CompactOperation} {store : Store}
    (fits : store.Fits tensors) (sound : operation.Sound tensors)
    (valid : ∀ tensor ∈ tensors, tensor.validate = .ok ()) (equipped : operation.Equipped)
    (position : Nat) : (operation.task tensors position (store.views operation)).Provided := by
  have inputs := forall₂_tensorsAt (sound.found (List.subset_append_left _ _))
  have outputs := forall₂_tensorsAt (sound.found (List.subset_append_right _ _))
  constructor
  case toFitting => exact task_fitting position valid (length_views_outputs fits sound)
  case filled => exact filled_views fits sound valid
  case held => exact (List.length_map _).trans inputs.length_eq.symm
  case equipped =>
    rw [Equipped, ← inputs.length_eq] at equipped
    exact equipped
  case writesSomething =>
    intro empty
    refine sound.writesSomething (List.eq_nil_of_length_eq_zero ?_)
    rw [← outputs.length_eq]
    exact congrArg List.length empty

end CompactOperation

namespace Guarded

variable {α : Type}

theorem carve?_eq {pool : List α} {spans : List Span} {position : Nat}
    (separate : Split.firstOverlap spans = none)
    (within : ∀ span ∈ spans, span.Within pool.length)
    (behind : ∀ span ∈ spans.head?, position ≤ span.start) :
    carve? spans position (pool.drop position) =
      some (spans.map fun span => (span, span.view pool)) := by
  induction spans generalizing position with
  | nil => rfl
  | cons span spans ih =>
      have start := behind span rfl
      obtain ⟨forward, inside⟩ := within span (by simp)
      have later : Split.firstOverlap spans = none ∧
          ∀ next ∈ spans.head?, span.stop ≤ next.start := by
        cases spans with
        | nil => exact ⟨rfl, by simp⟩
        | cons next others =>
            rw [Split.firstOverlap] at separate
            split at separate
            · cases separate
            · rename_i notInside
              exact ⟨separate, by simpa using notInside⟩
      have rest := ih later.1 (fun other member => within other (List.mem_cons_of_mem _ member))
        later.2
      have skip : position + (span.start - position) = span.start := by omega
      have width : span.start + (span.stop - span.start) = span.stop := by omega
      simp only [carve?, cut?, List.length_drop, List.drop_drop, skip, width, start, forward,
        and_self, rest, show span.start - position ≤ pool.length - position by omega,
        show span.stop - span.start ≤ pool.length - span.start by omega, if_true,
        Option.bind_eq_bind, Option.bind_some]
      rfl

theorem lookup_map {spans : List Span} {view : Span → List α} {span : Span}
    (member : span ∈ spans) :
    (spans.map fun other => (other, view other)).lookup span = some (view span) := by
  induction spans with
  | nil => cases member
  | cons first rest ih =>
      rw [List.map_cons, List.lookup_cons]
      by_cases same : span = first
      · simp [same]
      · rw [beq_false_of_ne same]
        exact ih ((List.mem_cons.mp member).resolve_left same)

theorem splitPool?_eq {pool : List α} {inputs outputs : List Span}
    (separable : Split.Separable pool.length inputs outputs) :
    splitPool? pool inputs outputs = some (splitPool pool inputs outputs) := by
  have carved := @carve?_eq _ pool _ 0 separable.firstOverlap_eq_none
    (fun span member => separable.within span (Split.mem_arrange_iff.mp member))
    fun span _ => Nat.zero_le span.start
  have looked : ∀ span ∈ inputs ++ outputs,
      ((Split.arrange (inputs ++ outputs)).map fun other => (other, other.view pool)).lookup span =
        some (span.view pool) :=
    fun span member => lookup_map (Split.mem_arrange_iff.mpr member)
  have inputViews := mapM_eq_some fun span member => looked span (List.mem_append_left _ member)
  have outputViews := mapM_eq_some fun span member => looked span (List.mem_append_right _ member)
  rw [List.drop_zero] at carved
  simp only [splitPool?, splitPool, Split.fault_eq_none separable, carved, inputViews, outputViews,
    Option.bind_eq_bind, Option.bind_some]
  rfl

section Runs

variable {graph : CompactGraph} {store : Store} {operation : CompactOperation}

theorem operands_agrees {tensors : List Tensor} (fits : store.Fits tensors)
    (sound : operation.Sound tensors) (valid : ∀ tensor ∈ tensors, tensor.validate = .ok ()) :
    Agrees (operands store operation) (store.operands operation) := by
  have separable := fits.separable sound fun tensor member =>
    Tensor.elementCount_pos (valid tensor member)
  have inputs := Store.spans_eq fun index member =>
    fits.operand_lt sound index (List.mem_append_left _ member)
  have outputs := Store.spans_eq fun index member =>
    fits.operand_lt sound index (List.mem_append_right _ member)
  refine .bind (.of_plain _) fun _ found => .bind (.of_plain _) fun _ outputsFound => ?_
  cases inputs.symm.trans found
  cases outputs.symm.trans outputsFound
  refine .ite (fun _ => .access_bind (splitPool?_eq separable) ?_) fun _ => .of_plain _
  cases splitPool (store.pools operation.elementType) (operation.inputs.map store.spanAt)
      (operation.outputs.map store.spanAt) with
  | error fault => exact .of_plain _
  | ok views => exact .of_plain _

theorem call_agrees (fits : store.Fits graph.tensors) (sound : operation.Sound graph.tensors)
    (valid : ∀ tensor ∈ graph.tensors, tensor.validate = .ok ()) (position : Nat) :
    Agrees (call graph store position operation) (graph.call store position operation) :=
  .bind (.of_plain _) fun _ _ => .bind (.of_plain _) fun _ _ =>
    .bind (operands_agrees fits sound valid) fun _ _ => .of_plain _

/-- What one operation of a run leaves behind is laid out as before, so the next one makes no access
out of range either. -/
theorem runFrom_eq (valid : ∀ tensor ∈ graph.tensors, tensor.validate = .ok ())
    {operations : List CompactOperation}
    (sound : ∀ operation ∈ operations, operation.Sound graph.tensors)
    (equipped : ∀ operation ∈ operations, operation.Equipped)
    (fits : store.Fits graph.tensors) (position : Nat) :
    runFrom graph position operations store =
      some (graph.runFrom .standard position operations store) := by
  induction operations generalizing store position with
  | nil => rfl
  | cons operation rest ih =>
      have headSound := sound operation (by simp)
      have agrees := call_agrees fits headSound valid position
      have layout := CompactOperation.stepped_sameLayout position KernelSet.standard_overwrites
        fits headSound valid
      have next := ih (fun other member => sound other (List.mem_cons_of_mem _ member))
        (fun other member => equipped other (List.mem_cons_of_mem _ member))
        (fits.of_sameLayout layout) (position + 1)
      have executed : execute (operation.task graph.tensors position (store.views operation)) =
          some (CompactOperation.outcome .standard position graph.tensors store operation) :=
        execute_eq (CompactOperation.provided_task fits headSound valid
          (equipped operation (by simp)) position)
      rw [Agrees, CompactGraph.call_eq fits headSound valid] at agrees
      rw [CompactOperation.stepped] at next
      rw [CompactOperation.outcome] at executed next
      simp only [runFrom, CompactGraph.runFrom, CompactGraph.call_eq fits headSound valid, agrees,
        executed, Option.bind_eq_bind, Option.bind_some]
      cases (KernelSet.standard.execute operation.elementType
          (operation.task graph.tensors position (store.views operation))).error with
      | some error => rfl
      | none =>
          simp only [next, Option.bind_some]
          rfl

theorem run_eq (runnable : graph.Runnable)
    (equipped : ∀ operation ∈ graph.operations, operation.Equipped)
    (fits : store.Fits graph.tensors) :
    run graph store = some (graph.run .standard store) := by
  rw [run, CompactGraph.run]
  cases graph.checkSupported .standard with
  | error error => rfl
  | ok _ => exact runFrom_eq runnable.valid runnable.sequential.sound equipped fits 0

end Runs

end Guarded

end TensorGraph
