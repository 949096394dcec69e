import TensorGraph.Memory.Sizing
import TensorGraph.Proofs.CompactForm
import TensorGraph.Proofs.Tensors
import TensorGraph.Proofs.Tiling

/-!
Sizing the pools in machine words. Memory is laid out exactly when every pool can be addressed, and
no number on the way leaves its machine word. Otherwise the first tensor that does not fit is named,
before any pool is set aside.
-/

namespace TensorGraph

namespace Sizing

section Steps

variable {α β : Type} {first : Sizing α} {next : α → Sizing β} {pools after : Pools}

theorem bind_of_ok {value : α} (succeeded : first pools = some (.ok value, after)) :
    (first >>= next) pools = next value after := by
  simp [bind, ExceptT.bind, ExceptT.mk, ExceptT.bindCont, StateT.bind, succeeded]

theorem bind_of_error {failure : ExecutionError}
    (failed : first pools = some (.error failure, after)) :
    (first >>= next) pools = some (.error failure, after) := by
  simp only [bind, ExceptT.bind, ExceptT.mk, ExceptT.bindCont, StateT.bind, failed,
    Option.bind_some]
  rfl

theorem bounded_of_le {limit number : Nat} (within : number ≤ limit) :
    bounded limit number pools = some (.ok number, pools) := if_pos within

end Steps

def withOffsets (slots : List TensorSlot) : List (TensorSlot × Nat) :=
  slots.map fun slot => (slot, slot.byteOffset)

theorem update_elementsTaken (slots : List TensorSlot) (elementType : ElementType)
    (offset count : Nat) :
    Function.update (elementsTaken slots) elementType (elementsTaken slots elementType + count) =
      elementsTaken (slots ++ [⟨elementType, offset, count⟩]) := by
  funext other
  rw [elementsTaken_append, Function.update_apply]
  by_cases same : other = elementType
  · simp [same]
  · simp [same, Ne.symm same]

theorem checkedEnd_eq (tensor : Tensor) (cursor : Nat) (pools : Pools) :
    checkedEnd tensor cursor pools =
      some (if cursor + tensor.elementCount ≤
          Limit.addressableBytes / tensor.elementType.byteSize then
        .ok (cursor + tensor.elementCount)
      else .error (.poolOverflow tensor.id tensor.elementType), pools) := by
  have room : Limit.addressableBytes / tensor.elementType.byteSize ≤ Limit.word :=
    Nat.le_trans (Nat.div_le_self _ _) (by decide)
  by_cases fitting : cursor + tensor.elementCount ≤
      Limit.addressableBytes / tensor.elementType.byteSize
  · have counted := Nat.le_trans fitting room
    simp only [checkedEnd, fitting, counted, and_self, if_true]
    rfl
  · simp only [checkedEnd, fitting, and_false, if_false]
    rfl

/-- Nothing on the way leaves its range as long as the cursors can be addressed, and no pool is
touched. -/
theorem place_eq {slots : List TensorSlot} (addressable : ∀ elementType,
      elementsTaken slots elementType * elementType.byteSize ≤ Limit.addressableBytes)
    (tensors : List Tensor) (pools : Pools) :
    place (withOffsets slots) (elementsTaken slots) tensors pools =
      some ((placeFrom slots tensors).map fun placed =>
        (withOffsets placed, elementsTaken placed), pools) := by
  induction tensors generalizing slots with
  | nil => rfl
  | cons tensor rest ih =>
      rw [place, placeFrom]
      cases hasPool : tensor.elementType.hasPool with
      | false => rfl
      | true =>
          have counted : elementsTaken slots tensor.elementType * tensor.elementType.byteSize ≤
              Limit.word := Nat.le_trans (addressable _) (by decide)
          have stop := checkedEnd_eq tensor (elementsTaken slots tensor.elementType) pools
          simp only [if_true]
          by_cases fitting : elementsTaken slots tensor.elementType + tensor.elementCount ≤
              Limit.addressableBytes / tensor.elementType.byteSize
          · rw [if_pos fitting] at stop ⊢
            rw [bind_of_ok stop, bind_of_ok (bounded_of_le counted)]
            rw [update_elementsTaken slots _ (elementsTaken slots tensor.elementType)]
            have placedOne : placeFrom slots [tensor] = .ok (slots ++ [⟨tensor.elementType,
                elementsTaken slots tensor.elementType, tensor.elementCount⟩]) :=
              placeFrom_cons_eq_ok_iff.mpr ⟨hasPool, fitting, rfl⟩
            have next := ih (addressable_of_placeFrom addressable placedOne)
            rwa [withOffsets, List.map_append, List.map_singleton] at next
          · rw [if_neg fitting] at stop ⊢
            exact bind_of_error stop

/-- Pools after some types were provided for: a type without elements keeps what it had. -/
def setAside (ends : ElementType → Nat) (types : List ElementType) (pools : Pools) : Pools :=
  fun elementType =>
    if elementType ∈ types ∧ 0 < ends elementType then List.replicate (ends elementType) 0
    else pools elementType

theorem setAside_nil (ends : ElementType → Nat) (pools : Pools) :
    setAside ends [] pools = pools := by
  funext elementType
  simp [setAside]

theorem setAside_cons (ends : ElementType → Nat) (first : ElementType) (rest : List ElementType)
    (pools : Pools) :
    setAside ends (first :: rest) pools = setAside ends rest (if 0 < ends first then
      Function.update pools first (List.replicate (ends first) 0) else pools) := by
  funext elementType
  by_cases same : elementType = first
  · subst same
    by_cases filled : 0 < ends elementType
    · simp [setAside, filled]
    · simp [setAside, filled]
  · by_cases filled : 0 < ends first
    · simp [setAside, same, filled]
    · simp [setAside, same, filled]

theorem allocate_eq {ends : ElementType → Nat} (addressable : ∀ elementType,
      ends elementType * elementType.byteSize ≤ Limit.addressableBytes)
    (types : List ElementType) (pools : Pools) :
    allocate ends types pools = some (.ok (), setAside ends types pools) := by
  induction types generalizing pools with
  | nil =>
      rw [setAside_nil]
      rfl
  | cons first rest ih =>
      rw [allocate, setAside_cons]
      by_cases filled : 0 < ends first
      · have modified : (modify (fun pools => Function.update pools first
            (List.replicate (ends first) 0)) : Sizing PUnit) pools =
              some (.ok (), Function.update pools first (List.replicate (ends first) 0)) := rfl
        rw [if_pos filled, if_pos filled, bind_of_ok (bounded_of_le (addressable first)),
          bind_of_ok modified]
        exact ih _
      · rw [if_neg filled, if_neg filled]
        exact ih pools

theorem allocate_all {ends : ElementType → Nat} (addressable : ∀ elementType,
      ends elementType * elementType.byteSize ≤ Limit.addressableBytes) :
    allocate ends ElementType.all Pools.empty =
      some (.ok (), fun elementType => List.replicate (ends elementType) 0) := by
  rw [allocate_eq addressable]
  congr 2
  funext elementType
  rcases Nat.eq_zero_or_pos (ends elementType) with none | filled
  · simp [setAside, none, Pools.empty]
  · simp [setAside, filled, ElementType.mem_all]

theorem layOut_eq (graph : CompactGraph) :
    layOut graph Pools.empty = some (match Store.ofGraph graph with
      | .ok store => (.ok (store, store.slots.map TensorSlot.byteOffset), store.pools)
      | .error failure => (.error failure, Pools.empty)) := by
  have start : ∀ elementType,
      elementsTaken [] elementType * elementType.byteSize ≤ Limit.addressableBytes := by
    simp
  have places : place [] (fun _ => 0) graph.tensors Pools.empty = _ :=
    place_eq start graph.tensors Pools.empty
  rw [layOut]
  cases result : placeFrom [] graph.tensors with
  | error failure =>
      rw [result] at places
      have failed : Store.ofGraph graph = .error failure := by
        rw [Store.ofGraph, result]
        rfl
      rw [failed]
      exact bind_of_error places
  | ok slots =>
      rw [result] at places
      rw [Store.ofGraph_ok_iff.mpr ⟨slots, result, rfl⟩, bind_of_ok places]
      refine (bind_of_ok (allocate_all (addressable_of_placeFrom start result))).trans ?_
      have names : (withOffsets slots).map Prod.fst = slots := by
        rw [withOffsets, List.map_map]
        exact List.map_id slots
      have offsets : (withOffsets slots).map Prod.snd = slots.map TensorSlot.byteOffset := by
        rw [withOffsets, List.map_map]
        rfl
      rw [names, offsets]
      rfl

end Sizing

/-- All tensors can be held at once: none is in half precision, and the bytes of each type can be
addressed. -/
def FitsPools (tensors : List Tensor) : Prop :=
  (∀ tensor ∈ tensors, tensor.elementType ≠ .f16) ∧
    ∀ elementType, elementsOf tensors elementType * elementType.byteSize ≤ Limit.addressableBytes

inductive BreaksPools (before : List Tensor) (tensor : Tensor) : ExecutionError → Prop
  | halfPrecision : tensor.elementType = .f16 →
      BreaksPools before tensor (.unsupportedElementType tensor.id .f16)
  | overflow : tensor.elementType ≠ .f16 →
      Limit.addressableBytes < elementsOf (before ++ [tensor]) tensor.elementType *
        tensor.elementType.byteSize →
      BreaksPools before tensor (.poolOverflow tensor.id tensor.elementType)

theorem exists_placeFrom_of_addressable {slots : List TensorSlot} {tensors : List Tensor}
    (pooled : ∀ tensor ∈ tensors, tensor.elementType ≠ .f16)
    (addressable : ∀ elementType, (elementsTaken slots elementType +
      elementsOf tensors elementType) * elementType.byteSize ≤ Limit.addressableBytes) :
    ∃ placed, placeFrom slots tensors = .ok placed := by
  induction tensors generalizing slots with
  | nil => exact ⟨slots, rfl⟩
  | cons tensor rest ih =>
      obtain ⟨hasPool, restPooled⟩ := List.forall_mem_cons.mp pooled
      have fitting : elementsTaken slots tensor.elementType + tensor.elementCount ≤
          Limit.addressableBytes / tensor.elementType.byteSize := by
        have whole := addressable tensor.elementType
        rw [elementsOf_cons, if_pos rfl] at whole
        have reached := (Nat.le_div_iff_mul_le tensor.elementType.byteSize_pos).mpr whole
        omega
      have restAddressable : ∀ elementType, (elementsTaken (slots ++ [⟨tensor.elementType,
          elementsTaken slots tensor.elementType, tensor.elementCount⟩]) elementType +
            elementsOf rest elementType) * elementType.byteSize ≤ Limit.addressableBytes := by
        intro elementType
        have whole := addressable elementType
        rwa [elementsOf_cons, ← Nat.add_assoc, ← elementsTaken_append slots ⟨tensor.elementType,
          elementsTaken slots tensor.elementType, tensor.elementCount⟩] at whole
      obtain ⟨placed, succeeded⟩ := ih restPooled restAddressable
      exact ⟨placed, placeFrom_cons_eq_ok_iff.mpr
        ⟨ElementType.hasPool_iff.mpr hasPool, fitting, succeeded⟩⟩

theorem placeFrom_ok_iff_fits {tensors : List Tensor} :
    (∃ placed, placeFrom [] tensors = .ok placed) ↔ FitsPools tensors := by
  constructor
  · rintro ⟨placed, succeeded⟩
    refine ⟨fun tensor member =>
      ElementType.hasPool_iff.mp (hasPool_of_placeFrom succeeded tensor member), ?_⟩
    intro elementType
    have held := addressable_of_placeFrom (by simp) succeeded elementType
    rwa [elementsTaken_of_placeFrom succeeded, elementsTaken_nil, Nat.zero_add] at held
  · rintro ⟨pooled, addressable⟩
    apply exists_placeFrom_of_addressable pooled
    simpa using addressable

theorem exists_of_placeFrom_error {slots : List TensorSlot} {tensors : List Tensor}
    {failure : ExecutionError} (failed : placeFrom slots tensors = .error failure) :
    ∃ before tensor behind placed, tensors = before ++ tensor :: behind ∧
      placeFrom slots before = .ok placed ∧ placeFrom placed [tensor] = .error failure := by
  induction tensors generalizing slots with
  | nil => cases failed
  | cons tensor rest ih =>
      rw [← List.singleton_append, placeFrom_append, bind_eq_error_iff] at failed
      rcases failed with here | ⟨next, placedOne, later⟩
      · exact ⟨[], tensor, rest, slots, rfl, rfl, here⟩
      · obtain ⟨before, other, behind, placed, split, succeeded, failed⟩ := ih later
        refine ⟨tensor :: before, other, behind, placed, by rw [split]; rfl, ?_, failed⟩
        rw [← List.singleton_append, placeFrom_append, bind_eq_ok_iff]
        exact ⟨next, placedOne, succeeded⟩

theorem breaksPools_of_placeFrom {before : List Tensor} {tensor : Tensor}
    {placed : List TensorSlot} {failure : ExecutionError}
    (succeeded : placeFrom [] before = .ok placed)
    (failed : placeFrom placed [tensor] = .error failure) : BreaksPools before tensor failure := by
  simp only [placeFrom] at failed
  by_cases hasPool : tensor.elementType.hasPool = true
  · rw [if_pos hasPool] at failed
    split at failed
    · cases failed
    · rename_i tooLong
      cases failed
      apply BreaksPools.overflow (ElementType.hasPool_iff.mp hasPool)
      rw [elementsTaken_of_placeFrom succeeded,
        Nat.le_div_iff_mul_le tensor.elementType.byteSize_pos] at tooLong
      have alone : elementsOf [tensor] tensor.elementType = tensor.elementCount := by
        simp [elementsOf, total]
      rw [elementsOf_append, alone]
      simpa using tooLong
  · rw [if_neg hasPool] at failed
    have half : tensor.elementType = .f16 := by
      by_contra other
      exact hasPool (ElementType.hasPool_iff.mpr other)
    cases failed
    rw [half]
    exact .halfPrecision half

theorem exists_breaksPools {graph : CompactGraph} {failure : ExecutionError}
    (failed : Store.ofGraph graph = .error failure) :
    ∃ before tensor behind, graph.tensors = before ++ tensor :: behind ∧ FitsPools before ∧
      BreaksPools before tensor failure := by
  rw [Store.ofGraph, bind_eq_error_iff] at failed
  rcases failed with failed | ⟨_, _, impossible⟩
  · obtain ⟨before, tensor, behind, placed, split, succeeded, failedHere⟩ :=
      exists_of_placeFrom_error failed
    exact ⟨before, tensor, behind, split, placeFrom_ok_iff_fits.mp ⟨placed, succeeded⟩,
      breaksPools_of_placeFrom succeeded failedHere⟩
  · cases impossible

/-- Memory for a compact graph is laid out exactly when its tensors fit the pools, and no number
leaves its machine word either way. A failure names the first tensor that breaks the pools, before
any of them is set aside. -/
theorem layOut_exact {graph : Graph} {compactGraph : CompactGraph} (obtained : graph.Obtained)
    (compacted : graph.compact = .ok compactGraph) :
    (∀ tensor ∈ compactGraph.tensors,
      tensor.elementCount = (tensor.shape.dimensions.map UInt64.toNat).prod) ∧
    ((∃ store, Store.ofGraph compactGraph = .ok store) ↔ FitsPools compactGraph.tensors) ∧
    (∀ store, Store.ofGraph compactGraph = .ok store →
      Sizing.layOut compactGraph Pools.empty =
        some (.ok (store, store.slots.map TensorSlot.byteOffset), store.pools)) ∧
    ∀ failure, Store.ofGraph compactGraph = .error failure →
      Sizing.layOut compactGraph Pools.empty = some (.error failure, Pools.empty) ∧
        ∃ before tensor behind, compactGraph.tensors = before ++ tensor :: behind ∧
          FitsPools before ∧ BreaksPools before tensor failure := by
  obtain ⟨_, _, _, built⟩ := obtained.exists_build
  have wellFormed := Graph.wellFormed_of_build built
  obtain ⟨_, _, same⟩ := Graph.compact_ok_iff.mp compacted
  have sameTensors : compactGraph.tensors = graph.tensorList := by rw [same]
  refine ⟨?_, ?_, ?_, ?_⟩
  · intro tensor member
    rw [sameTensors] at member
    exact (Tensor.dimensions_of_validate (wellFormed.tensorsValid tensor member)).2.2
  · rw [← placeFrom_ok_iff_fits]
    simp only [Store.ofGraph_ok_iff, exists_comm (α := Store), exists_and_left, exists_eq, and_true]
  · intro store created
    rw [Sizing.layOut_eq, created]
  · intro failure failed
    refine ⟨?_, exists_breaksPools failed⟩
    rw [Sizing.layOut_eq, failed]

def brimTensors : List Tensor :=
  [⟨0, .u16, ⟨[2305843009213693951]⟩, .host, .rowMajor⟩, .scalar 1 .u8,
    ⟨2, .u16, ⟨[2, 1152921504606846976]⟩, .host, .rowMajor⟩]

def spilledTensors : List Tensor := brimTensors ++ [.scalar 3 .u16, .scalar 4 .f16]

theorem layOut_exact_brim :
    ∃ graph compactGraph spilled compactSpilled,
      Graph.build brimTensors [] ⟨8, 8⟩ = .ok graph ∧ graph.compact = .ok compactGraph ∧
      elementsOf compactGraph.tensors .u16 * 2 + 1 = Limit.addressableBytes ∧
      (∃ store, Store.ofGraph compactGraph = .ok store) ∧
      Graph.build spilledTensors [] ⟨8, 8⟩ = .ok spilled ∧
      spilled.compact = .ok compactSpilled ∧
      Sizing.layOut compactSpilled Pools.empty =
        some (.error (.poolOverflow 3 .u16), Pools.empty) := by
  refine ⟨_, _, _, _, rfl, rfl, by decide, ?_, rfl, rfl, ?_⟩
  · have obtained := @Graph.Obtained.built brimTensors [] ⟨8, 8⟩ _ rfl
    exact (layOut_exact obtained rfl).2.1.mpr
      ⟨by decide, fun elementType => by cases elementType <;> decide⟩
  · have obtained := @Graph.Obtained.built spilledTensors [] ⟨8, 8⟩ _ rfl
    exact ((layOut_exact obtained rfl).2.2.2 _ rfl).1

end TensorGraph
