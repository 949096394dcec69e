import TensorGraph.Proofs.Execution

/-!
Runs of operations that write each tensor once and before it is read. A run that finishes leaves a
solution: contents in which the outputs of every operation hold its results. Wherever there is a
solution, the run finishes and finds it.
-/

namespace TensorGraph

abbrev Table := (elementType : ElementType) → Nat → List (Element elementType)

def AgreeAt (tensors : List Tensor) (left right : Table) (index : Nat) : Prop :=
  ∀ tensor, tensors[index]? = some tensor →
    left tensor.elementType index = right tensor.elementType index

/-- In the table the outputs of the operation hold its results, whatever they held before. -/
def CompactOperation.Solved (kernels : KernelSet) (tensors : List Tensor) (table : Table)
    (operation : CompactOperation) : Prop :=
  ∀ position before,
    before.map List.length = (tensorsAt tensors operation.outputs).map Tensor.elementCount →
    let outcome := kernels.execute operation.elementType (operation.task tensors position
      ⟨operation.inputs.map (table operation.elementType), before⟩)
    outcome.error = none ∧ outcome.outputs = operation.outputs.map (table operation.elementType)

/-- Operations that can be run one after the other: none writes what it or an earlier one reads or
writes. -/
structure Sequential (tensors : List Tensor) (operations : List CompactOperation) : Prop where
  sound : ∀ operation ∈ operations, operation.Sound tensors
  order : operations.Pairwise fun earlier later =>
    ∀ index ∈ later.outputs, index ∉ earlier.inputs ∧ index ∉ earlier.outputs

namespace Sequential

variable {tensors : List Tensor} {operation : CompactOperation} {rest : List CompactOperation}

theorem head (sequential : Sequential tensors (operation :: rest)) : operation.Sound tensors :=
  sequential.sound operation (by simp)

theorem tail (sequential : Sequential tensors (operation :: rest)) : Sequential tensors rest where
  sound other member := sequential.sound other (List.mem_cons_of_mem _ member)
  order := (List.pairwise_cons.mp sequential.order).2

theorem not_written (sequential : Sequential tensors (operation :: rest)) {index : Nat}
    (touched : index ∈ operation.inputs ++ operation.outputs) :
    ∀ later ∈ rest, index ∉ later.outputs := by
  intro later member written
  have apart := (List.pairwise_cons.mp sequential.order).1 later member index written
  rcases List.mem_append.mp touched with read | writtenToo
  · exact apart.1 read
  · exact apart.2 writtenToo

end Sequential

theorem map_eq_of_agreeAt {tensors : List Tensor} {operation : CompactOperation}
    (sound : operation.Sound tensors) {left right : Table} {positions : List Nat}
    (operands : positions ⊆ operation.inputs ++ operation.outputs)
    (agree : ∀ index ∈ positions, AgreeAt tensors left right index) :
    positions.map (left operation.elementType) = positions.map (right operation.elementType) := by
  refine List.map_congr_left fun index member => ?_
  obtain ⟨tensor, found, sameType⟩ := sound.typed index (operands member)
  rw [← sameType]
  exact agree index member tensor found

theorem agreeAt_of_map_eq {tensors : List Tensor} {operation : CompactOperation}
    (sound : operation.Sound tensors) {left right : Table} {positions : List Nat}
    (operands : positions ⊆ operation.inputs ++ operation.outputs)
    (same : positions.map (left operation.elementType) =
      positions.map (right operation.elementType)) :
    ∀ index ∈ positions, AgreeAt tensors left right index := by
  intro index member tensor found
  obtain ⟨typedTensor, typedFound, sameType⟩ := sound.typed index (operands member)
  rw [found] at typedFound
  cases typedFound
  rw [sameType]
  exact List.map_inj_left.mp same index member

namespace CompactGraph

open CompactOperation (outcome stepped)

variable {graph : CompactGraph} {kernels : KernelSet}

theorem runFrom_frame (overwrites : kernels.Overwrites)
    (valid : ∀ tensor ∈ graph.tensors, tensor.validate = .ok ())
    {operations : List CompactOperation} (sequential : Sequential graph.tensors operations)
    {store : Store} (fits : store.Fits graph.tensors) (position : Nat) :
    (graph.runFrom kernels position operations store).store.SameLayout store ∧
      ∀ index, (∀ operation ∈ operations, index ∉ operation.outputs) →
        AgreeAt graph.tensors (graph.runFrom kernels position operations store).store.contents
          store.contents index := by
  induction operations generalizing store position with
  | nil => exact ⟨⟨rfl, fun _ => rfl⟩, fun _ _ _ _ => rfl⟩
  | cons operation rest ih =>
      have sound := sequential.head
      have layout := CompactOperation.stepped_sameLayout position overwrites fits sound valid
      cases stopped : (outcome kernels position graph.tensors store operation).error with
      | some error =>
          rw [(runFrom_cons_of_stopped rest fits sound valid stopped).2]
          refine ⟨layout, fun index untouched tensor found => ?_⟩
          exact CompactOperation.contents_stepped_of_not_mem position overwrites fits sound valid
            found (untouched operation (by simp))
      | none =>
          rw [(runFrom_cons_of_finished rest fits sound valid stopped).2]
          obtain ⟨restLayout, restFrame⟩ := ih sequential.tail (fits.of_sameLayout layout)
            (position + 1)
          refine ⟨restLayout.trans layout, fun index untouched tensor found => ?_⟩
          rw [restFrame index (fun later member => untouched later (List.mem_cons_of_mem _ member))
            tensor found]
          exact CompactOperation.contents_stepped_of_not_mem position overwrites fits sound valid
            found (untouched operation (by simp))

/-- A table that holds what an operation read and what it left behind holds its results, whatever
the outputs held before. -/
theorem solved_of_outcome (overwrites : kernels.Overwrites)
    (valid : ∀ tensor ∈ graph.tensors, tensor.validate = .ok ()) {store : Store}
    (fits : store.Fits graph.tensors) {operation : CompactOperation}
    (sound : operation.Sound graph.tensors) {position : Nat}
    (finished : (outcome kernels position graph.tensors store operation).error = none)
    {table : Table}
    (inputs : operation.inputs.map (table operation.elementType) =
      operation.inputs.map (store.contents operation.elementType))
    (outputs : operation.outputs.map (table operation.elementType) =
      (outcome kernels position graph.tensors store operation).outputs) :
    operation.Solved kernels graph.tensors table := by
  intro otherPosition before lengths
  rw [inputs, outputs]
  have fitting := CompactOperation.task_fitting position valid
    (CompactOperation.length_views_outputs fits sound)
  have otherFitting : (operation.task graph.tensors otherPosition
      ⟨(store.views operation).inputs, before⟩).Fitting :=
    CompactOperation.task_fitting otherPosition valid lengths
  have course := overwrites.sameCourse _ _ fitting otherFitting ⟨rfl, rfl, rfl, rfl, rfl⟩ finished
  exact ⟨course.1, course.2.symm⟩

theorem solved_of_runFrom (overwrites : kernels.Overwrites)
    (valid : ∀ tensor ∈ graph.tensors, tensor.validate = .ok ())
    {operations : List CompactOperation} (sequential : Sequential graph.tensors operations)
    {store : Store} (fits : store.Fits graph.tensors) {position : Nat}
    (finished : (graph.runFrom kernels position operations store).error = none) :
    ∀ operation ∈ operations, operation.Solved kernels graph.tensors
      (graph.runFrom kernels position operations store).store.contents := by
  induction operations generalizing store position with
  | nil => simp
  | cons operation rest ih =>
      have sound := sequential.head
      have layout := CompactOperation.stepped_sameLayout position overwrites fits sound valid
      have steppedFits := fits.of_sameLayout layout
      cases stopped : (outcome kernels position graph.tensors store operation).error with
      | some error =>
          rw [(runFrom_cons_of_stopped rest fits sound valid stopped).1] at finished
          cases finished
      | none =>
          obtain ⟨sameError, sameStore⟩ := runFrom_cons_of_finished rest fits sound valid stopped
          rw [sameError] at finished
          rw [sameStore]
          -- No later operation writes what this one read or wrote, so it stays solved to the end.
          have frame := (runFrom_frame overwrites valid sequential.tail steppedFits
            (position + 1)).2
          have inputs := map_eq_of_agreeAt sound (List.subset_append_left _ _) fun index member =>
            frame index (sequential.not_written (List.mem_append_left _ member))
          have outputs := map_eq_of_agreeAt sound (List.subset_append_right _ _)
            fun index member =>
              frame index (sequential.not_written (List.mem_append_right _ member))
          have untouched := map_eq_of_agreeAt sound (List.subset_append_left _ _)
            fun index member tensor found =>
              CompactOperation.contents_stepped_of_not_mem position overwrites fits sound valid
                found (sound.notRead index member)
          have results := CompactOperation.contents_stepped position overwrites fits sound valid
          intro other member
          rcases List.mem_cons.mp member with same | later
          · rw [same]
            exact solved_of_outcome overwrites valid fits sound stopped (inputs.trans untouched)
              (outputs.trans results)
          · exact ih sequential.tail steppedFits finished other later

/-- Where there is a solution, the run finishes and finds it. -/
theorem runFrom_of_solved (overwrites : kernels.Overwrites)
    (valid : ∀ tensor ∈ graph.tensors, tensor.validate = .ok ())
    {operations : List CompactOperation} (sequential : Sequential graph.tensors operations)
    {store : Store} (fits : store.Fits graph.tensors) (position : Nat) {table : Table}
    (solved : ∀ operation ∈ operations, operation.Solved kernels graph.tensors table)
    (given : ∀ index, (∀ operation ∈ operations, index ∉ operation.outputs) →
      AgreeAt graph.tensors store.contents table index) :
    (graph.runFrom kernels position operations store).error = none ∧
      ∀ index, AgreeAt graph.tensors
        (graph.runFrom kernels position operations store).store.contents table index := by
  induction operations generalizing store position with
  | nil => exact ⟨rfl, fun index => given index (by simp)⟩
  | cons operation rest ih =>
      have sound := sequential.head
      have layout := CompactOperation.stepped_sameLayout position overwrites fits sound valid
      -- Nothing from here on writes the inputs, so they hold what the table holds.
      have inputs := map_eq_of_agreeAt sound (List.subset_append_left _ _) fun index member => by
        refine given index fun other present => ?_
        rcases List.mem_cons.mp present with same | later
        · rw [same]; exact sound.notRead index member
        · exact sequential.not_written (List.mem_append_left _ member) other later
      have task : operation.task graph.tensors position (store.views operation) =
          operation.task graph.tensors position
            ⟨operation.inputs.map (table operation.elementType),
              (store.views operation).outputs⟩ := by
        rw [← inputs]
        rfl
      obtain ⟨noError, results⟩ := solved operation (by simp) position
        (store.views operation).outputs (CompactOperation.length_views_outputs fits sound)
      rw [← task] at noError results
      have written := agreeAt_of_map_eq sound (List.subset_append_right _ _)
        ((CompactOperation.contents_stepped position overwrites fits sound valid).trans results)
      obtain ⟨sameError, sameStore⟩ := runFrom_cons_of_finished rest fits sound valid noError
      rw [sameError, sameStore]
      refine ih sequential.tail (fits.of_sameLayout layout) (position + 1)
        (fun later member => solved later (List.mem_cons_of_mem _ member)) ?_
      intro index untouched
      by_cases here : index ∈ operation.outputs
      · exact written index here
      · intro tensor found
        rw [CompactOperation.contents_stepped_of_not_mem position overwrites fits sound valid found
          here]
        refine given index (fun other present => ?_) tensor found
        rcases List.mem_cons.mp present with same | later
        · rw [same]; exact here
        · exact untouched other later

end CompactGraph

end TensorGraph
