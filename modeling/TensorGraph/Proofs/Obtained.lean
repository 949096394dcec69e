import TensorGraph.Graph.Schedule
import TensorGraph.Graph.Subgraph
import TensorGraph.Proofs.WellFormed
import TensorGraph.Snapshot

/-!
Every way to obtain a graph builds it anew from descriptors, so what holds of built graphs holds of
all graphs.
-/

namespace TensorGraph

namespace Graph

/-- Graphs as callers can come by them. -/
inductive Obtained : Graph → Prop
  | built {tensors : List Tensor} {operations : List Operation} {capacity : Capacity}
      {graph : Graph} : build tensors operations capacity = .ok graph → Obtained graph
  | sorted {graph result : Graph} : Obtained graph → graph.sorted = .ok result → Obtained result
  | partAt {graph result : Graph} {wanted : List Nat} {capacity : Capacity} :
      Obtained graph → graph.subgraphAt wanted capacity = .ok result → Obtained result
  | part {graph result : Graph} {wanted : List TensorId} {capacity : Capacity} :
      Obtained graph → graph.subgraph wanted capacity = .ok result → Obtained result
  | exactPart {graph result : Graph} {wanted : List TensorId} :
      Obtained graph → graph.subgraphExact wanted = .ok result → Obtained result
  | loaded {snapshot : Snapshot} {graph : Graph} :
      snapshot.toGraph = .ok graph → Obtained graph

theorem exists_build_of_sorted {graph result : Graph} (sorted : graph.sorted = .ok result) :
    ∃ operations, build graph.tensorList operations graph.capacity = .ok result := by
  simp only [Graph.sorted, bind_eq_ok_iff] at sorted
  obtain ⟨rankings, _, built, isBuilt, _, _, same⟩ := sorted
  cases same
  exact ⟨_, isBuilt⟩

theorem exists_build_of_subgraphAt {graph result : Graph} {wanted : List Nat}
    {capacity : Capacity} (extracted : graph.subgraphAt wanted capacity = .ok result) :
    ∃ tensors operations, build tensors operations capacity = .ok result := by
  simp only [subgraphAt, bind_eq_ok_iff] at extracted
  obtain ⟨_, _, isBuilt⟩ := extracted
  exact ⟨_, _, isBuilt⟩

theorem Obtained.exists_build {graph : Graph} (obtained : Obtained graph) :
    ∃ tensors operations capacity, build tensors operations capacity = .ok graph := by
  cases obtained with
  | built isBuilt => exact ⟨_, _, _, isBuilt⟩
  | sorted _ sorted =>
      obtain ⟨_, isBuilt⟩ := exists_build_of_sorted sorted
      exact ⟨_, _, _, isBuilt⟩
  | partAt _ extracted =>
      obtain ⟨_, _, isBuilt⟩ := exists_build_of_subgraphAt extracted
      exact ⟨_, _, _, isBuilt⟩
  | part _ extracted =>
      simp only [subgraph, bind_eq_ok_iff] at extracted
      obtain ⟨_, _, extractedAt⟩ := extracted
      obtain ⟨_, _, isBuilt⟩ := exists_build_of_subgraphAt extractedAt
      exact ⟨_, _, _, isBuilt⟩
  | exactPart _ extracted =>
      simp only [subgraphExact, bind_eq_ok_iff] at extracted
      obtain ⟨_, _, _, _, extractedAt⟩ := extracted
      obtain ⟨_, _, isBuilt⟩ := exists_build_of_subgraphAt extractedAt
      exact ⟨_, _, _, isBuilt⟩
  | loaded isBuilt => exact ⟨_, _, _, isBuilt⟩

/-- Names, positions, groups and slots of a graph agree, however it was obtained. -/
theorem obtained_wellFormed {graph : Graph} (obtained : graph.Obtained) : graph.WellFormed := by
  obtain ⟨_, _, _, built⟩ := obtained.exists_build
  exact wellFormed_of_build built

section Relay

def relayTensors : List Tensor :=
  [.scalar 0 .u8, .scalar 1 .u8, .scalar 2 .u8, .scalar 3 .u8, .scalar 4 .u8]

def relayCopy (id : OperationId) (input output : TensorId) : Operation where
  id
  kind := .copy
  elementType := some .u8
  inputs := [input]
  outputs := [output]
  parameters := .empty

def relaySum : Operation where
  id := 4
  kind := .elementAdd
  elementType := some .u8
  inputs := [0, 0]
  outputs := [4]
  parameters := .empty

def relayMarker : Operation where
  id := 10
  kind := .group true
  elementType := none
  inputs := [4, 3]
  outputs := []
  parameters := .empty

/-- Two copies listed against their direction, and a pinned group listed against its members. -/
def relayOperations : List Operation :=
  [relayCopy 1 1 2, relayCopy 2 0 1, relayMarker, relayCopy 3 2 3, relaySum]

/-- One operation writes two tensors, and each is read by another member of a group. -/
def forkOperations : List Operation :=
  [{ relayCopy 7 0 1 with outputs := [1, 2] }, { relayMarker with inputs := [8, 9] },
    relayCopy 8 1 3, relayCopy 9 2 4]

end Relay

theorem obtained_wellFormed_relay :
    ∃ graph result, build relayTensors relayOperations ⟨8, 8⟩ = .ok graph ∧
      graph.sorted = .ok result ∧ graph ≠ result ∧ result.WellFormed := by
  refine ⟨_, _, rfl, rfl, by decide, ?_⟩
  have built := @Obtained.built relayTensors relayOperations ⟨8, 8⟩ _ rfl
  exact obtained_wellFormed (.sorted built rfl)

end Graph

end TensorGraph
