import TensorGraph.Proofs.Obtained
import TensorGraph.Proofs.Running

/-!
What a run computes depends neither on the order of the operations nor on what memory held where
operations write.
-/

namespace TensorGraph

namespace Graph

/-- Graphs over the same tensors whose operations are the same up to their order, group markers
aside. -/
structure SameComputations (left right : Graph) : Prop where
  tensors : left.tensorList = right.tensorList
  operations : (left.operationList.filter fun operation => !operation.isGroup).Perm
    (right.operationList.filter fun operation => !operation.isGroup)

namespace SameComputations

theorem symm {left right : Graph} (same : left.SameComputations right) :
    right.SameComputations left :=
  ⟨same.tensors.symm, same.operations.symm⟩

section Built

variable {tensors otherTensors : List Tensor} {operations otherOperations : List Operation}
  {capacity otherCapacity : Capacity} {left right : Graph}

theorem compactNodes_perm (same : left.SameComputations right)
    (leftBuilt : build tensors operations capacity = .ok left)
    (rightBuilt : build otherTensors otherOperations otherCapacity = .ok right) :
    (left.executable.map compactNode).Perm (right.executable.map compactNode) := by
  rw [executable_of_build leftBuilt, executable_of_build rightBuilt, ← same.tensors]
  exact (same.operations.map _).map compactNode

theorem producer?_eq_none_iff (same : left.SameComputations right)
    (leftBuilt : build tensors operations capacity = .ok left)
    (rightBuilt : build otherTensors otherOperations otherCapacity = .ok right) {index : Nat} :
    left.producer? index = none ↔ right.producer? index = none := by
  rw [(wellFormed_of_build leftBuilt).producer?_eq_none_iff,
    (wellFormed_of_build rightBuilt).producer?_eq_none_iff]
  exact forall_congr' fun operation =>
    imp_congr_left (same.compactNodes_perm leftBuilt rightBuilt).mem_iff

/-- If one graph can be run to the end, so can the other, and with the same contents. -/
theorem run_of_run (same : left.SameComputations right)
    (leftBuilt : build tensors operations capacity = .ok left)
    (rightBuilt : build otherTensors otherOperations otherCapacity = .ok right)
    {leftExecutor rightExecutor : Executor} (leftServes : leftExecutor.Serves left)
    (rightServes : rightExecutor.Serves right)
    (agree : ∀ index, left.producer? index = none →
      AgreeAt left.tensorList leftExecutor.store.contents rightExecutor.store.contents index)
    (finished : leftExecutor.run.error = none) :
    rightExecutor.run.error = none ∧ ∀ index, AgreeAt left.tensorList
      leftExecutor.run.store.contents rightExecutor.run.store.contents index := by
  have leftWellFormed := wellFormed_of_build leftBuilt
  have rightWellFormed := wellFormed_of_build rightBuilt
  have operationsPerm := same.compactNodes_perm leftBuilt rightBuilt
  have solution := leftServes.solution_of_run leftWellFormed finished
  -- What a solution is does not depend on the order of the operations.
  have rightSolution : right.Solution leftExecutor.run.store.contents := by
    constructor
    case supported =>
      intro operation member
      exact solution.supported operation (operationsPerm.mem_iff.mpr member)
    case solved =>
      intro operation member
      rw [← same.tensors]
      exact solution.solved operation (operationsPerm.mem_iff.mpr member)
  have given : ∀ index, right.producer? index = none →
      AgreeAt right.tensorList rightExecutor.store.contents leftExecutor.run.store.contents
        index := by
    intro index noProducer tensor found
    rw [← same.producer?_eq_none_iff leftBuilt rightBuilt] at noProducer
    rw [← same.tensors] at found
    rw [leftServes.run_frame leftWellFormed noProducer tensor found]
    exact (agree index noProducer tensor found).symm
  obtain ⟨rightFinished, results⟩ :=
    rightServes.run_of_solution rightWellFormed rightSolution given
  refine ⟨rightFinished, fun index tensor found => ?_⟩
  rw [same.tensors] at found
  exact (results index tensor found).symm

end Built

end SameComputations

theorem run_independent {tensors otherTensors : List Tensor}
    {operations otherOperations : List Operation} {capacity otherCapacity : Capacity}
    {left right : Graph} (leftBuilt : build tensors operations capacity = .ok left)
    (rightBuilt : build otherTensors otherOperations otherCapacity = .ok right)
    (same : left.SameComputations right) {leftExecutor rightExecutor : Executor}
    (leftServes : leftExecutor.Serves left) (rightServes : rightExecutor.Serves right)
    (agree : ∀ index, left.producer? index = none → ∀ elementType,
      leftExecutor.readAt elementType index = rightExecutor.readAt elementType index) :
    (leftExecutor.run.error = none ↔ rightExecutor.run.error = none) ∧
      (leftExecutor.run.error = none → ∀ elementType index,
        (leftExecutor.after leftExecutor.run).readAt elementType index =
          (rightExecutor.after rightExecutor.run).readAt elementType index) := by
  have leftFits := leftServes.fits_tensorList
  have rightFits := rightServes.fits_tensorList
  have leftAfter := (leftServes.after_run (wellFormed_of_build leftBuilt)).fits_tensorList
  have rightAfter := (rightServes.after_run (wellFormed_of_build rightBuilt)).fits_tensorList
  rw [← same.tensors] at rightFits rightAfter
  have given : ∀ index, left.producer? index = none →
      AgreeAt left.tensorList leftExecutor.store.contents rightExecutor.store.contents index :=
    fun index noProducer => (Store.read_eq_iff leftFits rightFits).mp (agree index noProducer)
  have rightGiven : ∀ index, right.producer? index = none →
      AgreeAt right.tensorList rightExecutor.store.contents leftExecutor.store.contents index := by
    intro index noProducer tensor found
    rw [← same.producer?_eq_none_iff leftBuilt rightBuilt] at noProducer
    rw [← same.tensors] at found
    exact (given index noProducer tensor found).symm
  constructor
  · exact ⟨fun finished =>
      (same.run_of_run leftBuilt rightBuilt leftServes rightServes given finished).1,
      fun finished =>
        (same.symm.run_of_run rightBuilt leftBuilt rightServes leftServes rightGiven finished).1⟩
  · intro finished elementType index
    have results :=
      (same.run_of_run leftBuilt rightBuilt leftServes rightServes given finished).2 index
    exact (Store.read_eq_iff leftAfter rightAfter).mpr results elementType

theorem run_independent_relay :
    ∃ left right leftCompact rightCompact leftExecutor rightFresh rightExecutor,
      build relayTensors [relayCopy 2 0 1, relayCopy 1 1 2, relayMarker, relayCopy 3 2 3, relaySum]
        ⟨8, 8⟩ = .ok left ∧
      build relayTensors [relaySum, relayCopy 2 0 1, relayCopy 1 1 2, relayCopy 3 2 3]
        ⟨8, 8⟩ = .ok right ∧
      left.compact = .ok leftCompact ∧ right.compact = .ok rightCompact ∧
      Executor.create leftCompact .standard = .ok leftExecutor ∧
      Executor.create rightCompact .standard = .ok rightFresh ∧
      rightFresh.writeAt .u8 4 [9] = .ok rightExecutor ∧
      leftExecutor.readAt .u8 4 = .ok [0] ∧ rightExecutor.readAt .u8 4 = .ok [9] ∧
      leftExecutor.run.error = none ∧
      (leftExecutor.run.error = none ↔ rightExecutor.run.error = none) ∧
      (leftExecutor.run.error = none → ∀ elementType index,
        (leftExecutor.after leftExecutor.run).readAt elementType index =
          (rightExecutor.after rightExecutor.run).readAt elementType index) := by
  refine ⟨_, _, _, _, _, _, _, rfl, rfl, rfl, rfl, rfl, rfl, rfl, by decide, by decide, rfl, ?_⟩
  refine @run_independent relayTensors relayTensors
    [relayCopy 2 0 1, relayCopy 1 1 2, relayMarker, relayCopy 3 2 3, relaySum]
    [relaySum, relayCopy 2 0 1, relayCopy 1 1 2, relayCopy 3 2 3] ⟨8, 8⟩ ⟨8, 8⟩ _ _ rfl rfl
    ⟨rfl, by decide⟩ _ _ (.of_create rfl rfl)
    (@Executor.Serves.after_write _ _ (.of_create rfl rfl) .u8 4 [9] _ rfl) ?_
  intro index noProducer elementType
  match index with
  | 0 => cases elementType <;> decide
  | 1 | 2 | 3 | 4 => exact absurd noProducer (by decide)
  | _ + 5 => rfl

end Graph

end TensorGraph
