import TensorGraph.Proofs.ExactDeduplication

/-!
Symbols that can be deduplicated: equal ids stand for equal things, and what stays fits into the
capacity.
-/

namespace TensorGraph

open Operation (ids)

namespace Deduplication

variable {fingerprint : Fingerprint} {capacity : Capacity} {state : Deduplication}
  {tensors : List Tensor} {seen : List Operation}

theorem exists_addTensor {tensor : Tensor} {earlier : List Tensor}
    (firsts : state.tensors = firstsBy Tensor.id earlier)
    (consistent : ∀ other ∈ earlier, other.id = tensor.id → other = tensor)
    (fits : (firstsBy Tensor.id (earlier ++ [tensor])).length ≤ capacity.tensors.toNat) :
    ∃ next, state.addTensor capacity tensor = .ok next := by
  cases found : state.tensors.find? fun known => known.id = tensor.id with
  | some known =>
      have sameId : known.id = tensor.id := by simpa using List.find?_some found
      have listed : known ∈ earlier :=
        (firstsBy_sublist earlier).subset (firsts ▸ List.mem_of_find?_eq_some found)
      rw [consistent known listed sameId] at found
      exact ⟨state, addTensor_ok_iff.mpr (Or.inl ⟨found, rfl⟩)⟩
  | none =>
      have new : tensor.id ∉ earlier.map Tensor.id := by
        rw [← mem_map_firstsBy Tensor.id, ← firsts]
        simpa using List.find?_eq_none.mp found
      rw [firstsBy_append_singleton, if_neg new, ← firsts, List.length_append] at fits
      exact ⟨_, addTensor_ok_iff.mpr (Or.inr ⟨found, fits, rfl⟩)⟩

theorem exists_addTensors {tensors : List Tensor}
    (consistent : ∀ first ∈ tensors, ∀ second ∈ tensors, first.id = second.id → first = second)
    (fits : (firstsBy Tensor.id tensors).length ≤ capacity.tensors.toNat) :
    ∃ result, tensors.foldlM (addTensor capacity) .empty = .ok result := by
  have added : ∃ result, tensors.foldlM (addTensor capacity) .empty = .ok result ∧
      result.tensors = firstsBy Tensor.id tensors := by
    refine exists_foldlM
      (motive := fun seen (state : Deduplication) => state.tensors = firstsBy Tensor.id seen)
      ?_ rfl
    rintro seen tensor rest state rfl firsts
    have prefixFits : (firstsBy Tensor.id (seen ++ [tensor])).length ≤ capacity.tensors.toNat := by
      rw [List.append_cons] at fits
      exact (firstsBy_isPrefix _ rest).length_le.trans fits
    obtain ⟨next, stepped⟩ := exists_addTensor firsts
      (fun other listed => consistent other (by simp [listed]) tensor (by simp)) prefixFits
    exact ⟨next, stepped, by rw [addTensor_eq firsts stepped]⟩
  obtain ⟨result, added, _⟩ := added
  exact ⟨result, added⟩

theorem KeepsFirsts.exists_absorb
    (keeps : state.KeepsFirsts fingerprint capacity tensors seen) {operation : Operation}
    (consistent : ∀ other ∈ seen, other.id = operation.id →
      other.toComputation = operation.toComputation)
    (fits : (firstsBy Operation.toComputation (seen ++ [operation])).length ≤
      capacity.operations.toNat) :
    ∃ next, state.absorb fingerprint capacity operation = .ok next := by
  have owners : ∀ owner, state.owners.get? operation.id = some owner →
      state.survivor? fingerprint operation = some owner := by
    intro owner owned
    obtain ⟨other, member, sameId⟩ := List.mem_map.mp (keeps.named _ owner owned)
    obtain ⟨earliest, found, named⟩ := keeps.get?_owners member
    rw [sameId, owned] at named
    simp only [Operation.sameComputation, consistent other member sameId] at found
    rw [keeps.tagged.survivor?_eq, keeps.firsts, find?_firstsBy, found, named, Option.map_some]
  cases found : state.survivor? fingerprint operation with
  | some survivor =>
      have kept : ∀ owner, state.owners.get? operation.id = some owner → owner = survivor := by
        intro owner owned
        rw [owners owner owned] at found
        exact Option.some.inj found
      exact ⟨_, absorb_ok_iff.mpr
        ⟨survivor, addOperation_ok_iff.mpr (Or.inl ⟨found, kept, rfl⟩)⟩⟩
  | none =>
      have noOwner : state.owners.get? operation.id = none := by
        cases owned : state.owners.get? operation.id with
        | none => rfl
        | some owner =>
            rw [owners owner owned] at found
            cases found
      have new : operation.toComputation ∉ seen.map Operation.toComputation := by
        rw [keeps.tagged.survivor?_eq, keeps.firsts, find?_firstsBy] at found
        simpa using found
      rw [firstsBy_append_singleton, if_neg new, ← keeps.firsts, List.length_append, operations,
        List.length_map] at fits
      exact ⟨_, absorb_ok_iff.mpr
        ⟨operation.id, addOperation_ok_iff.mpr (Or.inr ⟨found, rfl, noOwner, fits, rfl⟩)⟩⟩

end Deduplication

namespace Resolution

variable {capacity : Capacity} {tensors : List Tensor} {operations : List Operation}

theorem exists_ofLists
    (sameTensors : ∀ first ∈ tensors, ∀ second ∈ tensors, first.id = second.id → first = second)
    (tensorsFit : (firstsBy Tensor.id tensors).length ≤ capacity.tensors.toNat)
    (sameOperations : ∀ first ∈ operations, ∀ second ∈ operations, first.id = second.id →
      first.toComputation = second.toComputation)
    (operationsFit : (firstsBy Operation.toComputation operations).length ≤
      capacity.operations.toNat) :
    ∃ resolution, ofLists capacity tensors operations = .ok resolution := by
  obtain ⟨withTensors, tensorsAdded⟩ := Deduplication.exists_addTensors sameTensors tensorsFit
  have absorbed : ∃ state : Deduplication,
      operations.foldlM (Deduplication.absorb .standard capacity) withTensors = .ok state ∧
        state.KeepsFirsts .standard capacity tensors operations := by
    refine exists_foldlM (motive := fun seen (state : Deduplication) =>
      state.KeepsFirsts .standard capacity tensors seen) ?_
      (Deduplication.keepsFirsts_of_addTensor tensorsAdded)
    rintro seen operation rest state rfl keeps
    have prefixFits : (firstsBy Operation.toComputation (seen ++ [operation])).length ≤
        capacity.operations.toNat := by
      rw [List.append_cons] at operationsFit
      exact (firstsBy_isPrefix _ rest).length_le.trans operationsFit
    obtain ⟨next, stepped⟩ := keeps.exists_absorb
      (fun other listed => sameOperations other (by simp [listed]) operation (by simp)) prefixFits
    exact ⟨next, stepped, keeps.absorb stepped⟩
  obtain ⟨state, absorbed, _⟩ := absorbed
  simp only [ofLists, ofListsWith, bind_eq_ok_iff]
  exact ⟨_, withTensors, tensorsAdded, state, absorbed, rfl⟩

end Resolution

namespace Deduplication.KeepsFirsts

variable {fingerprint other : Fingerprint} {capacity : Capacity} {state result : Deduplication}
  {tensors : List Tensor} {seen : List Operation}

theorem get?_owners_eq (keeps : state.KeepsFirsts fingerprint capacity tensors seen)
    (keepsToo : result.KeepsFirsts other capacity tensors seen) (id : OperationId) :
    state.owners.get? id = result.owners.get? id := by
  by_cases listed : id ∈ ids seen
  · obtain ⟨operation, member, rfl⟩ := List.mem_map.mp listed
    obtain ⟨earliest, found, owned⟩ := keeps.get?_owners member
    obtain ⟨again, foundAgain, ownedToo⟩ := keepsToo.get?_owners member
    rw [found] at foundAgain
    cases foundAgain
    rw [owned, ownedToo]
  · have unowned : state.owners.get? id = none := by
      rwa [← Option.not_isSome_iff_eq_none, keeps.isSome_get?_owners_iff]
    have unownedToo : result.owners.get? id = none := by
      rwa [← Option.not_isSome_iff_eq_none, keepsToo.isSome_get?_owners_iff]
    rw [unowned, unownedToo]

theorem consistentTensors (keeps : state.KeepsFirsts fingerprint capacity tensors seen) :
    ∀ first ∈ tensors, ∀ second ∈ tensors, first.id = second.id → first = second := by
  intro first firstListed second secondListed same
  have distinct : (state.tensors.map Tensor.id).Nodup := by
    rw [keeps.tensorFirsts]
    exact map_firstsBy_nodup tensors
  exact List.inj_on_of_nodup_map distinct (keeps.tensorsListed first firstListed)
    (keeps.tensorsListed second secondListed) same

theorem tensorsFit (keeps : state.KeepsFirsts fingerprint capacity tensors seen) :
    (firstsBy Tensor.id tensors).length ≤ capacity.tensors.toNat := by
  rw [← keeps.tensorFirsts]
  exact keeps.tensorsWithin

theorem consistentOperations (keeps : state.KeepsFirsts fingerprint capacity tensors seen) :
    ∀ first ∈ seen, ∀ second ∈ seen, first.id = second.id →
      first.toComputation = second.toComputation :=
  fun _ firstListed _ secondListed => keeps.alike_of_id_eq firstListed secondListed

theorem operationsFit (keeps : state.KeepsFirsts fingerprint capacity tensors seen) :
    (firstsBy Operation.toComputation seen).length ≤ capacity.operations.toNat := by
  rw [← keeps.firsts, operations, List.length_map]
  exact keeps.operationsWithin

theorem exists_resolution (keeps : state.KeepsFirsts fingerprint capacity tensors seen) :
    ∃ resolution, Resolution.ofLists capacity tensors seen = .ok resolution ∧
      resolution.Reports state := by
  have lengthKept : ∀ kept : Deduplication, kept.operations.length = kept.kept.length :=
    fun kept => List.length_map _
  obtain ⟨resolution, resolved⟩ := Resolution.exists_ofLists keeps.consistentTensors
    keeps.tensorsFit keeps.consistentOperations keeps.operationsFit
  obtain ⟨result, keepsToo, reports⟩ := Resolution.exists_keepsFirsts resolved
  have sameOperations : result.operations = state.operations :=
    keepsToo.firsts.trans keeps.firsts.symm
  refine ⟨resolution, resolved, ?_, ?_, fun id => ?_, ?_⟩
  · rw [reports.tensors]
    exact keepsToo.tensorFirsts.trans keeps.tensorFirsts.symm
  · rw [← sameOperations]
    exact reports.operations
  · rw [reports.redirects]
    exact keepsToo.get?_owners_eq keeps id
  · have counted := keeps.counted
    have countedToo := keepsToo.counted
    rw [← lengthKept] at counted countedToo
    rw [sameOperations] at countedToo
    rw [reports.merged]
    omega

end Deduplication.KeepsFirsts

namespace SymbolTable

/-- Symbols can be resolved exactly if every id stands for one thing and the things that differ fit
into the capacity. What is given again takes no further room. -/
theorem resolvable_iff {symbols : SymbolTable} {capacity : Capacity} :
    (∃ resolution, symbols.resolveWithin capacity = .ok resolution) ↔
      (∀ first ∈ symbols.tensors, ∀ second ∈ symbols.tensors, first.id = second.id →
        first = second) ∧
      (symbols.tensors.map Tensor.id).dedup.length ≤ capacity.tensors.toNat ∧
      (∀ first ∈ symbols.operations, ∀ second ∈ symbols.operations, first.id = second.id →
        first.toComputation = second.toComputation) ∧
      (symbols.operations.map Operation.toComputation).dedup.length ≤
        capacity.operations.toNat := by
  rw [← length_firstsBy, ← length_firstsBy]
  constructor
  · rintro ⟨resolution, resolved⟩
    obtain ⟨state, keeps, _⟩ := Resolution.exists_keepsFirsts resolved
    exact ⟨keeps.consistentTensors, keeps.tensorsFit, keeps.consistentOperations,
      keeps.operationsFit⟩
  · rintro ⟨sameTensors, tensorsFit, sameOperations, operationsFit⟩
    exact Resolution.exists_ofLists sameTensors tensorsFit sameOperations operationsFit

end SymbolTable

end TensorGraph
