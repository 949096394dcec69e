import TensorGraph.Proofs.Compaction
import TensorGraph.Proofs.Layout

/-!
Memory against the sizes that a compact graph announces. The tensors of a type fill their pool one
behind the other without a gap, so that each element of the pool belongs to one tensor. The graph
counts the same elements and bytes: it stops at the largest machine word, which no pool reaches.
-/

namespace TensorGraph

def TensorSlot.Owns (slot : TensorSlot) (elementType : ElementType) (position : Nat) : Prop :=
  slot.elementType = elementType ∧ slot.offset ≤ position ∧ position < slot.offset + slot.length

/-- Slots of one type, each for one tensor, that lie end to end from one position to another. -/
inductive Tiles (elementType : ElementType) : Nat → List Tensor → List TensorSlot → Nat → Prop
  | nil (position : Nat) : Tiles elementType position [] [] position
  | cons {start stop : Nat} {tensor : Tensor} {slot : TensorSlot} {tensors : List Tensor}
      {slots : List TensorSlot} :
      slot.elementType = elementType → slot.offset = start → slot.length = tensor.elementCount →
      slot.byteOffset = start * elementType.byteSize →
      Tiles elementType (start + slot.length) tensors slots stop →
      Tiles elementType start (tensor :: tensors) (slot :: slots) stop

def elementsOf (tensors : List Tensor) (elementType : ElementType) : Nat :=
  total ((tensors.filter fun tensor => tensor.elementType = elementType).map Tensor.elementCount)

theorem elementsOf_cons (tensor : Tensor) (rest : List Tensor) (elementType : ElementType) :
    elementsOf (tensor :: rest) elementType =
      (if tensor.elementType = elementType then tensor.elementCount else 0) +
        elementsOf rest elementType := by
  by_cases same : tensor.elementType = elementType
  · simp [elementsOf, same]
  · simp [elementsOf, same]

theorem elementsOf_append (before behind : List Tensor) (elementType : ElementType) :
    elementsOf (before ++ behind) elementType =
      elementsOf before elementType + elementsOf behind elementType := by
  rw [elementsOf, List.filter_append, List.map_append, total_append]
  rfl

def bytesOf (tensors : List Tensor) : Nat :=
  total (tensors.map fun tensor => tensor.elementCount * tensor.elementType.byteSize)

theorem TensorSlot.Owns.not_apart {first second : TensorSlot} {elementType : ElementType}
    {position : Nat} (owned : first.Owns elementType position)
    (ownedToo : second.Owns elementType position) : ¬ first.span.Apart second.span := by
  obtain ⟨_, behindFirst, beforeFirst⟩ := owned
  obtain ⟨_, behindSecond, beforeSecond⟩ := ownedToo
  simp only [Span.Apart, TensorSlot.span]
  omega

namespace Tiles

variable {elementType : ElementType} {start stop : Nat} {tensors : List Tensor}
  {slots : List TensorSlot}

theorem stop_eq (tiles : Tiles elementType start tensors slots stop) :
    stop = start + total (tensors.map Tensor.elementCount) := by
  induction tiles with
  | nil position => simp [total]
  | cons _ _ long _ _ ih =>
      rw [List.map_cons, total_cons]
      omega

theorem exists_slot (tiles : Tiles elementType start tensors slots stop) {position : Nat}
    (behind : start ≤ position) (before : position < stop) :
    ∃ slot ∈ slots, slot.Owns elementType position := by
  induction tiles with
  | nil => omega
  | @cons start _ _ slot _ _ sameType placed _ _ _ ih =>
      by_cases here : position < start + slot.length
      · exact ⟨slot, by simp, sameType, by omega, by omega⟩
      · obtain ⟨later, member, owns⟩ := ih (by omega) before
        exact ⟨later, by simp [member], owns⟩

end Tiles

/-- What is placed continues each pool from where the slots before it ended. -/
theorem tiles_of_placeFrom {slots placed : List TensorSlot} {tensors : List Tensor}
    (succeeded : placeFrom slots tensors = .ok placed) :
    ∃ added, placed = slots ++ added ∧ ∀ elementType,
      Tiles elementType (elementsTaken slots elementType)
        (tensors.filter fun tensor => tensor.elementType = elementType)
        (added.filter fun slot => slot.elementType = elementType)
        (elementsTaken placed elementType) := by
  induction tensors generalizing slots with
  | nil =>
      cases succeeded
      exact ⟨[], by simp, fun elementType => .nil _⟩
  | cons tensor rest ih =>
      obtain ⟨_, _, restPlaced⟩ := placeFrom_cons_eq_ok_iff.mp succeeded
      obtain ⟨added, same, tiles⟩ := ih restPlaced
      refine ⟨⟨tensor.elementType, elementsTaken slots tensor.elementType,
        tensor.elementCount⟩ :: added, by simp [same], fun elementType => ?_⟩
      -- The new slot moves the end of its own pool and of no other.
      have restTiles := tiles elementType
      rw [elementsTaken_append] at restTiles
      by_cases sameType : tensor.elementType = elementType
      · subst sameType
        simp only [List.filter_cons, decide_true, if_true] at restTiles ⊢
        exact .cons rfl rfl rfl rfl restTiles
      · simpa [List.filter_cons, sameType] using restTiles

theorem elementsTaken_of_placeFrom {slots placed : List TensorSlot} {tensors : List Tensor}
    (succeeded : placeFrom slots tensors = .ok placed) (elementType : ElementType) :
    elementsTaken placed elementType =
      elementsTaken slots elementType + elementsOf tensors elementType := by
  obtain ⟨_, _, tiles⟩ := tiles_of_placeFrom succeeded
  exact (tiles elementType).stop_eq

theorem addressable_of_placeFrom {slots placed : List TensorSlot} {tensors : List Tensor}
    (addressable : ∀ elementType,
      elementsTaken slots elementType * elementType.byteSize ≤ Limit.addressableBytes)
    (succeeded : placeFrom slots tensors = .ok placed) (elementType : ElementType) :
    elementsTaken placed elementType * elementType.byteSize ≤ Limit.addressableBytes := by
  induction tensors generalizing slots with
  | nil =>
      cases succeeded
      exact addressable elementType
  | cons tensor rest ih =>
      obtain ⟨_, fitting, restPlaced⟩ := placeFrom_cons_eq_ok_iff.mp succeeded
      refine ih (fun other => ?_) restPlaced
      rw [elementsTaken_append]
      by_cases sameType : tensor.elementType = other
      · subst sameType
        simpa using (Nat.le_div_iff_mul_le tensor.elementType.byteSize_pos).mp fitting
      · simpa [sameType] using addressable other

theorem total_elementsOf (tensors : List Tensor) :
    total (ElementType.all.map fun elementType =>
      elementsOf tensors elementType * elementType.byteSize) = bytesOf tensors := by
  induction tensors with
  | nil => rfl
  | cons tensor rest ih =>
      -- A tensor counts for its own type, and for none of the others.
      have split : ∀ elementType, elementsOf (tensor :: rest) elementType * elementType.byteSize =
          (if tensor.elementType = elementType then
            tensor.elementCount * tensor.elementType.byteSize else 0) +
          elementsOf rest elementType * elementType.byteSize := by
        intro elementType
        rw [elementsOf_cons, Nat.add_mul]
        by_cases sameType : tensor.elementType = elementType
        · simp [sameType]
        · simp [sameType]
      have once : total (ElementType.all.map fun elementType =>
          if tensor.elementType = elementType then
            tensor.elementCount * tensor.elementType.byteSize else 0) =
          tensor.elementCount * tensor.elementType.byteSize := by
        cases tensor.elementType <;> simp [ElementType.all, total]
      simp only [split]
      rw [total_map_add, once, ih]
      rfl

theorem elements_usageOf (tensors : List Tensor) (elementType : ElementType) :
    (usageOf tensors elementType).elements = min (elementsOf tensors elementType) Limit.word := by
  have summed := foldl_saturatingAdd (Nat.zero_le Limit.word)
    ((tensors.filter fun tensor => tensor.elementType = elementType).map Tensor.elementCount)
  rwa [List.foldl_map, Nat.zero_add] at summed

theorem bytes_usageOf (tensors : List Tensor) (elementType : ElementType) :
    (usageOf tensors elementType).bytes =
      min (elementsOf tensors elementType * elementType.byteSize) Limit.word := by
  change min ((usageOf tensors elementType).elements * elementType.byteSize) Limit.word = _
  rw [elements_usageOf]
  rcases Nat.le_total (elementsOf tensors elementType) Limit.word with within | beyond
  · rw [Nat.min_eq_left within]
  · have positive := elementType.byteSize_pos
    have reached := Nat.le_mul_of_pos_right Limit.word positive
    have more := Nat.mul_le_mul_right elementType.byteSize beyond
    rw [Nat.min_eq_right beyond]
    omega

namespace Graph

variable (graph : Graph)

theorem usage_metadata (elementType : ElementType) :
    graph.metadata.usage elementType = usageOf graph.tensorList elementType := by
  rw [Metadata.usage, metadata, List.getElem?_map, ElementType.all_getElem?_index]
  rfl

theorem totalBytes_metadata :
    graph.metadata.totalBytes = min (bytesOf graph.tensorList) Limit.word := by
  have summed := foldl_saturatingAdd (Nat.zero_le Limit.word)
    ((ElementType.all.map (usageOf graph.tensorList)).map ElementUsage.bytes)
  rw [List.foldl_map, Nat.zero_add, List.map_map] at summed
  rw [← total_elementsOf, ← min_total_min, List.map_map]
  refine summed.trans ?_
  congr 2
  exact List.map_congr_left fun elementType _ => bytes_usageOf graph.tensorList elementType

end Graph

namespace Store

/-- The pools are exactly filled by the slots of the tensors, in the order of the tensors. -/
structure Tiled (tensors : List Tensor) (store : Store) : Prop where
  holds : List.Forall₂ TensorSlot.Holds tensors store.slots
  endToEnd : ∀ elementType, Tiles elementType 0
    (tensors.filter fun tensor => tensor.elementType = elementType)
    (store.slots.filter fun slot => slot.elementType = elementType)
    (store.poolLength elementType)
  apart : store.slots.Pairwise fun first second =>
    first.elementType = second.elementType → first.span.Apart second.span
  ownedOnce : ∀ elementType, ∀ position < store.poolLength elementType,
    ∃! index : Nat, ∃ slot : TensorSlot,
      store.slots[index]? = some slot ∧ slot.Owns elementType position

section

variable {graph : CompactGraph} {store : Store}

theorem tiles_of_ofGraph (created : ofGraph graph = .ok store) (elementType : ElementType) :
    Tiles elementType 0 (graph.tensors.filter fun tensor => tensor.elementType = elementType)
      (store.slots.filter fun slot => slot.elementType = elementType)
      (store.poolLength elementType) := by
  obtain ⟨slots, placed, same⟩ := ofGraph_ok_iff.mp created
  obtain ⟨added, sameSlots, tiles⟩ := tiles_of_placeFrom placed
  rw [List.nil_append] at sameSlots
  rw [same, poolLength, List.length_replicate, sameSlots]
  rw [sameSlots] at tiles
  exact tiles elementType

theorem tiled_of_ofGraph (created : ofGraph graph = .ok store) : store.Tiled graph.tensors := by
  have fits := fits_of_ofGraph created
  have tiles := tiles_of_ofGraph created
  refine ⟨fits.holds, tiles, fits.apart, ?_⟩
  intro elementType position inside
  obtain ⟨slot, member, owns⟩ := (tiles elementType).exists_slot (Nat.zero_le _) inside
  obtain ⟨index, found⟩ := List.mem_iff_getElem?.mp (List.mem_of_mem_filter member)
  refine ⟨index, ⟨slot, found, owns⟩, ?_⟩
  rintro other ⟨otherSlot, otherFound, otherOwns⟩
  by_contra different
  exact owns.not_apart otherOwns (fits.apart_of_ne found otherFound
    (owns.1.trans otherOwns.1.symm) (Ne.symm different))

theorem poolLength_eq (created : ofGraph graph = .ok store) (elementType : ElementType) :
    store.poolLength elementType = elementsOf graph.tensors elementType := by
  rw [(tiles_of_ofGraph created elementType).stop_eq, Nat.zero_add]
  rfl

theorem addressable_of_ofGraph (created : ofGraph graph = .ok store) (elementType : ElementType) :
    store.poolLength elementType * elementType.byteSize ≤ Limit.addressableBytes := by
  obtain ⟨slots, placed, same⟩ := ofGraph_ok_iff.mp created
  rw [same, poolLength, List.length_replicate]
  exact addressable_of_placeFrom (fun other => by simp [elementsTaken, total]) placed elementType

theorem totalBytes_eq (created : ofGraph graph = .ok store) :
    store.totalBytes = bytesOf graph.tensors := by
  rw [totalBytes, ← total_elementsOf]
  simp only [poolLength_eq created]

end

/-- Each pool is tiled by its tensors and as long as the compact graph says, and so are all pools
together, as far as their bytes can be counted in a machine word. -/
theorem tiled_as_counted {graph : Graph} {compactGraph : CompactGraph} {store : Store}
    (compacted : graph.compact = .ok compactGraph) (created : ofGraph compactGraph = .ok store) :
    store.Tiled compactGraph.tensors ∧
      (∀ elementType,
        store.poolLength elementType = (compactGraph.metadata.usage elementType).elements) ∧
      (bytesOf compactGraph.tensors < 2 ^ 64 →
        store.totalBytes = bytesOf compactGraph.tensors ∧
          compactGraph.metadata.totalBytes = store.totalBytes) := by
  obtain ⟨_, _, same⟩ := Graph.compact_ok_iff.mp compacted
  have sameTensors : compactGraph.tensors = graph.tensorList := by rw [same]
  have sameMetadata : compactGraph.metadata = graph.metadata := by rw [same]
  refine ⟨tiled_of_ofGraph created, fun elementType => ?_, fun countable => ?_⟩
  · have length := poolLength_eq created elementType
    have addressable := addressable_of_ofGraph created elementType
    have fewer := Nat.le_mul_of_pos_right (store.poolLength elementType) elementType.byteSize_pos
    have room : Limit.addressableBytes ≤ Limit.word := by decide
    rw [sameMetadata, graph.usage_metadata, elements_usageOf, ← sameTensors]
    omega
  · have largest : Limit.word + 1 = 2 ^ 64 := by decide
    have inStore := totalBytes_eq created
    have announced := graph.totalBytes_metadata
    rw [← sameTensors, ← sameMetadata] at announced
    omega

def interleavedTensors : List Tensor :=
  [.scalar 0 .f32, ⟨1, .i16, ⟨[3]⟩, .host, .rowMajor⟩, .scalar 2 .f32,
    ⟨3, .i16, ⟨[2, 2]⟩, .host, .rowMajor⟩, .scalar 4 .f32]

def interleavedSum : Operation where
  id := 0
  kind := .elementAdd
  elementType := some .f32
  inputs := [0, 2]
  outputs := [4]
  parameters := .empty

theorem tiled_as_counted_interleaved :
    ∃ graph compactGraph store,
      Graph.build interleavedTensors [interleavedSum] ⟨8, 8⟩ = .ok graph ∧
        graph.compact = .ok compactGraph ∧ ofGraph compactGraph = .ok store ∧
        store.Tiled compactGraph.tensors ∧
        store.slots.map TensorSlot.byteOffset = [0, 0, 4, 6, 8] ∧
        (compactGraph.metadata.usage .i16).elements = 7 ∧ store.poolLength .i16 = 7 ∧
        compactGraph.metadata.totalBytes = 26 ∧ store.totalBytes = 26 := by
  obtain ⟨graph, compactGraph, store, built, compacted, created, offsets, elements, bytes⟩ :
      ∃ graph compactGraph store,
        Graph.build interleavedTensors [interleavedSum] ⟨8, 8⟩ = .ok graph ∧
          graph.compact = .ok compactGraph ∧ ofGraph compactGraph = .ok store ∧
          store.slots.map TensorSlot.byteOffset = [0, 0, 4, 6, 8] ∧
          (compactGraph.metadata.usage .i16).elements = 7 ∧
          bytesOf compactGraph.tensors = 26 :=
    ⟨_, _, _, rfl, rfl, rfl, rfl, rfl, rfl⟩
  obtain ⟨tiled, lengths, counted⟩ := tiled_as_counted compacted created
  obtain ⟨inStore, announced⟩ := counted (by rw [bytes]; decide)
  exact ⟨graph, compactGraph, store, built, compacted, created, tiled, offsets, elements,
    by rw [lengths, elements], by rw [announced, inStore, bytes], by rw [inStore, bytes]⟩

end Store

end TensorGraph
