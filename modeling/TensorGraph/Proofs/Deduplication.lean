import TensorGraph.Proofs.Building
import TensorGraph.Resolution

/-!
Deduplication, one operation at a time. What is kept is a selection of the operations seen, and every
operation seen is owned by one that is kept and computes the same.
-/

namespace TensorGraph

open Operation (ids)

namespace Redirects

theorem get?_insert_self (redirects : Redirects) (key : UInt32) (survivor : OperationId) :
    (redirects.insert key survivor).get? key = some survivor := by
  rw [insert, get?]
  induction redirects with
  | nil => simp [Entries.insert]
  | cons entry rest ih =>
      rw [Entries.insert]
      split
      · simp
      · split
        · rename_i behind
          have different : key ≠ entry.1 := (UInt32.ne_of_lt (decide_eq_true_iff.mp behind)).symm
          rw [List.lookup_cons, beq_false_of_ne different]
          exact ih
        · simp

theorem get?_insert_of_ne (redirects : Redirects) {key other : UInt32} (survivor : OperationId)
    (different : other ≠ key) :
    (redirects.insert key survivor).get? other = redirects.get? other := by
  rw [insert, get?, get?]
  induction redirects with
  | nil => simp [Entries.insert, different]
  | cons entry rest ih =>
      rw [Entries.insert]
      split
      · rw [List.lookup_cons, beq_false_of_ne different]
      · rename_i notBefore
        split
        · rw [List.lookup_cons, List.lookup_cons, ih]
        · rename_i notBehind
          have same : key = entry.1 := by
            rw [decide_eq_true_iff, UInt32.lt_iff_toNat_lt] at notBefore notBehind
            exact UInt32.toNat_inj.mp (by omega)
          rw [List.lookup_cons, List.lookup_cons, ← same, beq_false_of_ne different]

end Redirects

namespace Deduplication

variable {fingerprint : Fingerprint} {capacity : Capacity} {state next : Deduplication}
  {operation : Operation} {survivor : OperationId}

theorem exists_of_survivor? (found : state.survivor? fingerprint operation = some survivor) :
    ∃ kept ∈ state.operations, kept.id = survivor ∧
      kept.toComputation = operation.toComputation := by
  rw [survivor?, Option.map_eq_some_iff] at found
  obtain ⟨kept, listed, same⟩ := found
  have alike := List.find?_some listed
  rw [Bool.and_eq_true, Operation.sameComputation] at alike
  exact ⟨kept.operation, List.mem_map.mpr ⟨kept, List.mem_of_find?_eq_some listed, rfl⟩, same,
    decide_eq_true_iff.mp alike.2⟩

theorem addOperation_ok_iff :
    state.addOperation fingerprint capacity operation = .ok (survivor, next) ↔
      (state.survivor? fingerprint operation = some survivor ∧
        (∀ owner, state.owners.get? operation.id = some owner → owner = survivor) ∧
        next = { state with
          owners := state.owners.insert operation.id survivor
          merged := state.merged + 1 }) ∨
      (state.survivor? fingerprint operation = none ∧ survivor = operation.id ∧
        state.owners.get? operation.id = none ∧
        state.kept.length + 1 ≤ capacity.operations.toNat ∧
        next = { state with
          owners := state.owners.insert operation.id operation.id
          kept := state.kept ++ [⟨fingerprint operation.signature, operation⟩] }) := by
  rw [addOperation]
  cases state.survivor? fingerprint operation with
  | some found =>
      by_cases stays : found = survivor
      · subst stays
        cases state.owners.get? operation.id with
        | none => simp [eq_comm]
        | some owner =>
            by_cases same : owner = found
            · simp [same, eq_comm]
            · simp [same]
      · dsimp only
        split
        · simp [stays]
        · simp [stays]
  | none =>
      cases state.owners.get? operation.id with
      | some owner => simp
      | none =>
          simp only [Option.isSome_none, Bool.false_eq_true, if_false, seq_eq_ok_iff,
            checkWithin_ok_iff]
          simp only [pure, Except.pure, Except.ok.injEq, Prod.mk.injEq, reduceCtorEq, false_and,
            false_or, true_and]
          exact ⟨fun ⟨within, same, result⟩ => ⟨same.symm, within, result.symm⟩,
            fun ⟨same, within, result⟩ => ⟨within, same.symm, result.symm⟩⟩

structure Represents (state : Deduplication) (seen : List Operation) : Prop where
  selection : state.operations.Sublist seen
  owned : ∀ operation ∈ seen, ∃ survivor ∈ state.operations,
    state.owners.get? operation.id = some survivor.id ∧
      survivor.toComputation = operation.toComputation
  named : ∀ id owner, state.owners.get? id = some owner → id ∈ ids seen

theorem represents_nil (noneKept : state.kept = []) (noOwners : state.owners = []) :
    state.Represents [] := by
  refine ⟨by simp [operations, noneKept], by simp, fun id owner owned => ?_⟩
  rw [noOwners] at owned
  cases owned

theorem Represents.exists_survivor {seen : List Operation} (represents : state.Represents seen)
    {id : OperationId} (present : (state.owners.get? id).getD id ∈ ids seen) :
    ∃ survivor ∈ state.operations, ∃ duplicate ∈ seen,
      survivor.id = (state.owners.get? id).getD id ∧ duplicate.id = id ∧
        survivor.toComputation = duplicate.toComputation := by
  have listed : id ∈ ids seen := by
    cases owned : state.owners.get? id with
    | none => rwa [owned, Option.getD_none] at present
    | some owner => exact represents.named id owner owned
  obtain ⟨duplicate, member, rfl⟩ := List.mem_map.mp listed
  obtain ⟨survivor, stays, owned, alike⟩ := represents.owned duplicate member
  exact ⟨survivor, stays, duplicate, member, by rw [owned, Option.getD_some], rfl, alike⟩

theorem Represents.exists_split {seen left right : List Operation} {kept : Operation}
    (represents : state.Represents seen) (split : state.operations = left ++ kept :: right) :
    ∃ front behind, seen = front ++ kept :: behind ∧ left ⊆ front := by
  have selection := represents.selection
  rw [split] at selection
  obtain ⟨front, rest, rfl, leftSelection, restSelection⟩ := List.append_sublist_iff.mp selection
  obtain ⟨between, behind, rfl, here, _⟩ := List.cons_sublist_iff.mp restSelection
  obtain ⟨gap, more, rfl⟩ := List.append_of_mem here
  exact ⟨front ++ gap, more ++ behind, by simp,
    fun _ inLeft => List.mem_append_left _ (leftSelection.subset inLeft)⟩

theorem get?_insert_of_owned {redirects : Redirects} {id key : UInt32} {owner survivor : OperationId}
    (owned : redirects.get? id = some owner)
    (kept : ∀ found, redirects.get? key = some found → found = survivor) :
    (redirects.insert key survivor).get? id = some owner := by
  by_cases same : id = key
  · rw [same, Redirects.get?_insert_self, ← kept owner (same ▸ owned)]
  · rw [Redirects.get?_insert_of_ne redirects survivor same, owned]

theorem Represents.addOperation {seen : List Operation} (represents : state.Represents seen)
    (added : state.addOperation fingerprint capacity operation = .ok (survivor, next)) :
    next.Represents (seen ++ [operation]) := by
  have named : ∀ id owner, (state.owners.insert operation.id survivor).get? id = some owner →
      id ∈ ids (seen ++ [operation]) := by
    intro id owner owned
    rw [Operation.ids_append, List.mem_append]
    by_cases same : id = operation.id
    · exact Or.inr (by simp [same])
    · rw [Redirects.get?_insert_of_ne _ _ same] at owned
      exact Or.inl (represents.named id owner owned)
  rcases addOperation_ok_iff.mp added with ⟨found, kept, rfl⟩ | ⟨_, rfl, new, _, rfl⟩
  · refine ⟨represents.selection.trans (List.sublist_append_left _ _), ?_, named⟩
    rw [List.forall_mem_append, List.forall_mem_singleton]
    constructor
    · intro other member
      obtain ⟨stays, staysMember, owned, alike⟩ := represents.owned other member
      exact ⟨stays, staysMember, get?_insert_of_owned owned kept, alike⟩
    · obtain ⟨stays, staysMember, same, alike⟩ := exists_of_survivor? found
      exact ⟨stays, staysMember, by rw [same]; exact Redirects.get?_insert_self _ _ _, alike⟩
  · have kept : ∀ found, state.owners.get? operation.id = some found → found = operation.id := by
      simp [new]
    refine ⟨?_, ?_, named⟩
    · rw [operations, List.map_append]
      exact represents.selection.append (List.Sublist.refl _)
    · rw [List.forall_mem_append, List.forall_mem_singleton]
      constructor
      · intro other member
        obtain ⟨stays, staysMember, owned, alike⟩ := represents.owned other member
        refine ⟨stays, ?_, get?_insert_of_owned owned kept, alike⟩
        rw [operations, List.map_append]
        exact List.mem_append_left _ staysMember
      · refine ⟨operation, ?_, Redirects.get?_insert_self _ _ _, rfl⟩
        simp [operations]

end Deduplication

namespace Resolution

def nameFor (resolution : Resolution) (id : OperationId) : OperationId :=
  (resolution.redirect? id).getD id

end Resolution

end TensorGraph
