import TensorGraph.Proofs.NormalForm
import TensorGraph.Snapshot

/-!
A graph is what its own descriptors build again, taken directly, from a snapshot, or from a table of
symbols. The table has nothing to merge, since no two operations of a graph compute the same.
-/

namespace TensorGraph

namespace SymbolTable

def push (table : SymbolTable) : Tensor ⊕ Operation → Except GraphError SymbolTable
  | .inl tensor => (table.pushTensor tensor).map fun pushed => pushed.2
  | .inr operation => (table.pushOperation operation).map fun pushed => pushed.2

theorem push_tensor {table : SymbolTable} {tensor : Tensor}
    (room : table.tensors.length + 1 ≤ table.capacity.tensors.toNat) :
    table.push (.inl tensor) = .ok { table with tensors := table.tensors ++ [tensor] } := by
  rw [push, pushTensor, checkWithin_ok_iff.mpr room]
  rfl

end SymbolTable

namespace Graph

variable {tensors : List Tensor} {operations : List Operation} {capacity : Capacity}
  {graph : Graph}

/-- Operations that compute the same would write the same tensor or claim the same members. -/
theorem nodup_computations (built : build tensors operations capacity = .ok graph) :
    (graph.operationList.map Operation.toComputation).Nodup := by
  have wellFormed := wellFormed_of_build built
  have grouped := (arranged_of_build built).sound wellFormed.operationIds
  have claims := (List.nodup_flatMap.mp grouped.claimedOnce).2
  rw [List.Nodup, List.pairwise_map]
  refine (claims.and (sound_of_build built).singleWriter).imp_of_mem ?_
  rintro first second firstListed - ⟨disjoint, apart⟩ alike
  have valid := wellFormed.operationsValid first firstListed
  cases isGroup : first.isGroup with
  | true =>
      have fits := (Operation.validate_ok_iff.mp valid).fitsGroup isGroup
      obtain ⟨member, listed⟩ := List.exists_mem_of_length_pos (Nat.lt_of_lt_of_le (by decide)
        fits.atLeastTwo)
      have listedToo : member ∈ second.memberIds := Operation.memberIds_eq_of_alike alike ▸ listed
      exact disjoint listed listedToo
  | false =>
      have computes := Operation.computes_of_validate valid isGroup
      obtain ⟨tensor, written⟩ := List.exists_mem_of_ne_nil _ computes.writesSomething
      have writes : first.writes tensor = true := Connections.writes_iff.mpr ⟨isGroup, written⟩
      have notWritten := apart tensor writes
      rw [Operation.writes, Operation.isGroup, ← alike] at notWritten
      exact absurd writes (by rw [Operation.writes, Operation.isGroup, notWritten]; simp)

end Graph

end TensorGraph
