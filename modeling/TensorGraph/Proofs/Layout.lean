import Mathlib.Data.List.Forall2
import TensorGraph.Memory.Store
import TensorGraph.Proofs.Results
import TensorGraph.Proofs.Spans
import TensorGraph.Proofs.Totals

/-!
Where tensors lie in memory: each in a span of the pool of its type as long as the tensor, apart
from all others. A layout that fits some tensors also fits any selection of them.
-/

namespace TensorGraph

@[simp] theorem elementsTaken_nil (elementType : ElementType) :
    elementsTaken [] elementType = 0 := rfl

theorem elementsTaken_append (slots : List TensorSlot) (slot : TensorSlot)
    (elementType : ElementType) :
    elementsTaken (slots ++ [slot]) elementType =
      elementsTaken slots elementType +
        if slot.elementType = elementType then slot.length else 0 := by
  simp only [elementsTaken, List.filter_append, List.map_append, total_append]
  by_cases same : slot.elementType = elementType
  · simp [same, total]
  · simp [same, total]

def TensorSlot.Holds (tensor : Tensor) (slot : TensorSlot) : Prop :=
  slot.elementType = tensor.elementType ∧ slot.length = tensor.elementCount

structure Consecutive (slots : List TensorSlot) : Prop where
  within : ∀ slot ∈ slots, slot.offset + slot.length ≤ elementsTaken slots slot.elementType
  ordered : slots.Pairwise fun first second =>
    first.elementType = second.elementType → first.offset + first.length ≤ second.offset

theorem Consecutive.append {slots : List TensorSlot} (consecutive : Consecutive slots)
    {slot : TensorSlot} (behind : slot.offset = elementsTaken slots slot.elementType) :
    Consecutive (slots ++ [slot]) := by
  constructor
  case within =>
    intro other member
    rw [elementsTaken_append]
    rcases List.mem_append.mp member with earlier | here
    · have := consecutive.within other earlier
      omega
    · rw [List.mem_singleton.mp here, if_pos rfl]
      omega
  case ordered =>
    refine List.pairwise_append.mpr ⟨consecutive.ordered, List.pairwise_singleton _ _, ?_⟩
    intro first earlier second here sameType
    have inside := consecutive.within first earlier
    rw [List.mem_singleton.mp here] at sameType ⊢
    rw [behind, ← sameType]
    exact inside

theorem placeFrom_cons_eq_ok_iff {slots placed : List TensorSlot} {tensor : Tensor}
    {rest : List Tensor} :
    placeFrom slots (tensor :: rest) = .ok placed ↔
      tensor.elementType.hasPool = true ∧
        elementsTaken slots tensor.elementType + tensor.elementCount ≤
          Limit.addressableBytes / tensor.elementType.byteSize ∧
        placeFrom (slots ++ [⟨tensor.elementType, elementsTaken slots tensor.elementType,
          tensor.elementCount⟩]) rest = .ok placed := by
  rw [placeFrom]
  cases tensor.elementType.hasPool with
  | false => simp
  | true =>
      simp only [if_true]
      split
      · rename_i fitting
        simp [fitting]
      · rename_i tooLong
        simp [tooLong]

theorem placeFrom_append (slots : List TensorSlot) (before behind : List Tensor) :
    placeFrom slots (before ++ behind) =
      placeFrom slots before >>= fun placed => placeFrom placed behind := by
  induction before generalizing slots with
  | nil => rfl
  | cons tensor rest ih =>
      simp only [List.cons_append, placeFrom]
      split
      · split
        · exact ih _
        · rfl
      · rfl

theorem placeFrom_ok {slots placed : List TensorSlot} {tensors : List Tensor}
    (consecutive : Consecutive slots) (succeeded : placeFrom slots tensors = .ok placed) :
    Consecutive placed ∧
      ∃ added, placed = slots ++ added ∧ List.Forall₂ TensorSlot.Holds tensors added := by
  induction tensors generalizing slots with
  | nil =>
      cases succeeded
      exact ⟨consecutive, [], by simp, .nil⟩
  | cons tensor rest ih =>
      obtain ⟨_, _, restPlaced⟩ := placeFrom_cons_eq_ok_iff.mp succeeded
      obtain ⟨placedConsecutive, added, same, holds⟩ := ih (consecutive.append rfl) restPlaced
      refine ⟨placedConsecutive, ⟨tensor.elementType, elementsTaken slots tensor.elementType,
        tensor.elementCount⟩ :: added, ?_, .cons ⟨rfl, rfl⟩ holds⟩
      rw [same, List.append_assoc]
      rfl

theorem hasPool_of_placeFrom {slots placed : List TensorSlot} {tensors : List Tensor}
    (succeeded : placeFrom slots tensors = .ok placed) :
    ∀ tensor ∈ tensors, tensor.elementType.hasPool = true := by
  induction tensors generalizing slots with
  | nil => simp
  | cons first rest ih =>
      obtain ⟨hasPool, _, restPlaced⟩ := placeFrom_cons_eq_ok_iff.mp succeeded
      intro tensor member
      rcases List.mem_cons.mp member with same | later
      · rw [same]; exact hasPool
      · exact ih restPlaced tensor later

/-- With some tensors left out, and no more taken before, the others still find their places. -/
theorem placeFrom_of_sublist {slots fewer placed : List TensorSlot} {tensors some : List Tensor}
    (selection : some.Sublist tensors)
    (noMore : ∀ elementType, elementsTaken fewer elementType ≤ elementsTaken slots elementType)
    (succeeded : placeFrom slots tensors = .ok placed) :
    ∃ placedToo, placeFrom fewer some = .ok placedToo := by
  induction selection generalizing slots fewer with
  | slnil => exact ⟨fewer, rfl⟩
  | cons tensor _ ih =>
      obtain ⟨_, _, restPlaced⟩ := placeFrom_cons_eq_ok_iff.mp succeeded
      refine ih (fun elementType => ?_) restPlaced
      rw [elementsTaken_append]
      have := noMore elementType
      omega
  | cons_cons tensor _ ih =>
      obtain ⟨hasPool, fitting, restPlaced⟩ := placeFrom_cons_eq_ok_iff.mp succeeded
      have less := noMore tensor.elementType
      have stillNoMore : ∀ elementType,
          elementsTaken (fewer ++ [⟨tensor.elementType,
              elementsTaken fewer tensor.elementType, tensor.elementCount⟩]) elementType ≤
            elementsTaken (slots ++ [⟨tensor.elementType,
              elementsTaken slots tensor.elementType, tensor.elementCount⟩]) elementType := by
        intro elementType
        rw [elementsTaken_append, elementsTaken_append]
        exact Nat.add_le_add_right (noMore elementType) _
      obtain ⟨placedToo, succeededToo⟩ := ih stillNoMore restPlaced
      exact ⟨placedToo, placeFrom_cons_eq_ok_iff.mpr ⟨hasPool, by omega, succeededToo⟩⟩

namespace Store

/-- Stores that lay out the same tensors: only the contents of their pools may differ. -/
def SameLayout (left right : Store) : Prop :=
  left.slots = right.slots ∧
    ∀ elementType, left.poolLength elementType = right.poolLength elementType

structure Fits (tensors : List Tensor) (store : Store) : Prop where
  pooled : ∀ tensor ∈ tensors, tensor.elementType.hasPool = true
  holds : List.Forall₂ TensorSlot.Holds tensors store.slots
  within : ∀ slot ∈ store.slots, slot.span.Within (store.poolLength slot.elementType)
  apart : store.slots.Pairwise fun first second =>
    first.elementType = second.elementType → first.span.Apart second.span

theorem SameLayout.trans {first second third : Store} (before : first.SameLayout second)
    (behind : second.SameLayout third) : first.SameLayout third :=
  ⟨before.1.trans behind.1, fun elementType => (before.2 elementType).trans (behind.2 elementType)⟩

theorem Fits.of_sameLayout {tensors : List Tensor} {left right : Store}
    (fits : right.Fits tensors) (same : left.SameLayout right) : left.Fits tensors := by
  obtain ⟨sameSlots, sameLengths⟩ := same
  constructor
  case pooled => exact fits.pooled
  case holds => rw [sameSlots]; exact fits.holds
  case apart => rw [sameSlots]; exact fits.apart
  case within =>
    rw [sameSlots]
    intro slot member
    rw [sameLengths]
    exact fits.within slot member

theorem Fits.apart_of_ne {tensors : List Tensor} {store : Store} (fits : store.Fits tensors)
    {first second : Nat} {firstSlot secondSlot : TensorSlot}
    (firstFound : store.slots[first]? = some firstSlot)
    (secondFound : store.slots[second]? = some secondSlot)
    (sameType : firstSlot.elementType = secondSlot.elementType) (different : first ≠ second) :
    firstSlot.span.Apart secondSlot.span := by
  obtain ⟨firstBound, firstHere⟩ := List.getElem?_eq_some_iff.mp firstFound
  obtain ⟨secondBound, secondHere⟩ := List.getElem?_eq_some_iff.mp secondFound
  have apart := List.pairwise_iff_getElem.mp fits.apart
  rcases Nat.lt_or_gt_of_ne different with before | behind
  · have ordered := apart first second firstBound secondBound before
    rw [firstHere, secondHere] at ordered
    exact ordered sameType
  · have ordered := apart second first secondBound firstBound behind
    rw [firstHere, secondHere] at ordered
    exact (ordered sameType.symm).symm

theorem ofGraph_ok_iff {graph : CompactGraph} {store : Store} :
    ofGraph graph = .ok store ↔ ∃ slots, placeFrom [] graph.tensors = .ok slots ∧
      store = ⟨fun elementType => List.replicate (elementsTaken slots elementType) 0, slots⟩ := by
  rw [ofGraph, bind_eq_ok_iff]
  simp [pure, Except.pure, eq_comm]

theorem fits_of_ofGraph {graph : CompactGraph} {store : Store}
    (created : ofGraph graph = .ok store) : store.Fits graph.tensors := by
  obtain ⟨slots, placed, same⟩ := ofGraph_ok_iff.mp created
  obtain ⟨consecutive, added, sameSlots, holds⟩ := placeFrom_ok ⟨by simp, .nil⟩ placed
  rw [List.nil_append] at sameSlots
  subst same
  constructor
  case pooled => exact hasPool_of_placeFrom placed
  case holds =>
    rw [← sameSlots] at holds
    exact holds
  case within =>
    intro slot member
    refine ⟨Nat.le_add_right _ _, ?_⟩
    rw [poolLength, List.length_replicate]
    exact consecutive.within slot member
  case apart =>
    exact consecutive.ordered.imp fun ordered sameType => Or.inl (ordered sameType)

end Store

end TensorGraph
