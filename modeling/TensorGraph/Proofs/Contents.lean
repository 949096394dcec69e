import Mathlib.Data.List.Nodup
import TensorGraph.Proofs.Layout
import TensorGraph.Proofs.Splitting

/-!
Memory as a table of tensor contents. Every operation finds the present contents of its operands, and
what it writes changes its outputs only.
-/

namespace TensorGraph

structure CompactOperation.Sound (tensors : List Tensor) (operation : CompactOperation) :
    Prop where
  typed : ∀ index ∈ operation.inputs ++ operation.outputs, ∃ tensor,
    tensors[index]? = some tensor ∧ tensor.elementType = operation.elementType
  writesSomething : operation.outputs ≠ []
  outputsOnce : operation.outputs.Nodup
  notRead : ∀ index ∈ operation.inputs, index ∉ operation.outputs

namespace Store

def spanAt (store : Store) (index : Nat) : Span :=
  ((store.slots[index]?).map TensorSlot.span).getD ⟨0, 0⟩

/-- What the pool of a type holds where the tensor at a position lies. -/
def contents (store : Store) (elementType : ElementType) (index : Nat) :
    List (Element elementType) :=
  (store.spanAt index).view (store.pools elementType)

def views (store : Store) (operation : CompactOperation) :
    Views (Element operation.elementType) where
  inputs := operation.inputs.map (store.contents operation.elementType)
  outputs := operation.outputs.map (store.contents operation.elementType)

theorem spanAt_of_slot {store : Store} {index : Nat} {slot : TensorSlot}
    (found : store.slots[index]? = some slot) : store.spanAt index = slot.span := by
  rw [spanAt, found]
  rfl

theorem read_eq {store : Store} {elementType : ElementType} {index : Nat} {slot : TensorSlot}
    (found : store.slots[index]? = some slot) :
    store.read elementType index =
      if slot.elementType = elementType then .ok (store.contents elementType index)
      else .error (.elementTypeMismatch slot.elementType elementType) := by
  simp only [read, typedSpan, Store.slot, found, contents, spanAt_of_slot found, bind, Except.bind]
  by_cases same : slot.elementType = elementType
  · simp only [same, if_true, pure, Except.pure]
  · simp only [same, if_false, throw, throwThe, MonadExceptOf.throw]

theorem spans_eq {store : Store} {indices : List Nat}
    (inside : ∀ index ∈ indices, index < store.slots.length) :
    store.spans indices = .ok (indices.map store.spanAt) := by
  induction indices with
  | nil => rfl
  | cons index rest ih =>
      have found := List.getElem?_eq_getElem (inside index (by simp))
      have others := ih fun later member => inside later (List.mem_cons_of_mem _ member)
      simp only [spans, Store.slot, found, others, bind, Except.bind, pure, Except.pure,
        List.map_cons, spanAt_of_slot found]

theorem filterMap_span_eq {store : Store} {indices : List Nat}
    (inside : ∀ index ∈ indices, index < store.slots.length) :
    (indices.filterMap fun index => (store.slots[index]?).map TensorSlot.span) =
      indices.map store.spanAt := by
  rw [← List.filterMap_eq_map]
  refine List.filterMap_congr fun index member => ?_
  have found := List.getElem?_eq_getElem (inside index member)
  rw [found, Function.comp_apply, spanAt_of_slot found]
  rfl

@[simp] theorem pools_withPool (store : Store) (elementType : ElementType)
    (pool : List (Element elementType)) :
    (store.withPool elementType pool).pools elementType = pool := by
  simp [withPool]

theorem pools_withPool_of_ne (store : Store) {elementType other : ElementType}
    (pool : List (Element elementType)) (different : elementType ≠ other) :
    (store.withPool elementType pool).pools other = store.pools other := by
  simp [withPool, different]

@[simp] theorem withPool_pools (store : Store) (elementType : ElementType) :
    store.withPool elementType (store.pools elementType) = store := by
  obtain ⟨pools, slots⟩ := store
  refine congrArg (fun contents => Store.mk contents slots) (funext fun other => ?_)
  by_cases same : elementType = other
  · subst same
    simp
  · simp [same]

theorem sameLayout_withPool {store : Store} {elementType : ElementType}
    {pool : List (Element elementType)}
    (samePoolLength : pool.length = store.poolLength elementType) :
    (store.withPool elementType pool).SameLayout store := by
  refine ⟨rfl, fun other => ?_⟩
  by_cases same : elementType = other
  · subst same
    rw [poolLength, pools_withPool, samePoolLength]
  · rw [poolLength, pools_withPool_of_ne store pool same, poolLength]

namespace Fits

variable {tensors : List Tensor} {store : Store}

theorem slot? (fits : store.Fits tensors) {index : Nat} {tensor : Tensor}
    (found : tensors[index]? = some tensor) :
    ∃ slot, store.slots[index]? = some slot ∧ TensorSlot.Holds tensor slot :=
  getElem?_of_forall₂ fits.holds found

theorem length_spanAt (fits : store.Fits tensors) {index : Nat} {tensor : Tensor}
    (found : tensors[index]? = some tensor) :
    (store.spanAt index).length = tensor.elementCount := by
  obtain ⟨slot, slotFound, _, sameLength⟩ := fits.slot? found
  rw [spanAt_of_slot slotFound, ← sameLength]
  exact Nat.add_sub_cancel_left _ _

theorem within_spanAt (fits : store.Fits tensors) {index : Nat} {tensor : Tensor}
    (found : tensors[index]? = some tensor) :
    (store.spanAt index).Within (store.poolLength tensor.elementType) := by
  obtain ⟨slot, slotFound, sameType, _⟩ := fits.slot? found
  rw [spanAt_of_slot slotFound, ← sameType]
  exact fits.within slot (List.mem_of_getElem? slotFound)

theorem length_contents (fits : store.Fits tensors) {index : Nat} {tensor : Tensor}
    (found : tensors[index]? = some tensor) :
    (store.contents tensor.elementType index).length = tensor.elementCount := by
  rw [contents, Span.length_view (fits.within_spanAt found), fits.length_spanAt found]

theorem apart_spanAt (fits : store.Fits tensors) {first second : Nat}
    {firstTensor secondTensor : Tensor} (firstFound : tensors[first]? = some firstTensor)
    (secondFound : tensors[second]? = some secondTensor)
    (sameType : firstTensor.elementType = secondTensor.elementType) (different : first ≠ second) :
    (store.spanAt first).Apart (store.spanAt second) := by
  obtain ⟨firstSlot, firstSlotFound, firstType, _⟩ := fits.slot? firstFound
  obtain ⟨secondSlot, secondSlotFound, secondType, _⟩ := fits.slot? secondFound
  rw [spanAt_of_slot firstSlotFound, spanAt_of_slot secondSlotFound]
  refine fits.apart_of_ne firstSlotFound secondSlotFound ?_ different
  rw [firstType, secondType, sameType]

theorem index_lt (fits : store.Fits tensors) {index : Nat} {tensor : Tensor}
    (found : tensors[index]? = some tensor) : index < store.slots.length := by
  obtain ⟨slot, slotFound, _⟩ := fits.slot? found
  exact (List.getElem?_eq_some_iff.mp slotFound).1

section Operation

variable {operation : CompactOperation}

theorem operand_within (fits : store.Fits tensors) (sound : operation.Sound tensors) :
    ∀ index ∈ operation.inputs ++ operation.outputs,
      (store.spanAt index).Within (store.poolLength operation.elementType) := by
  intro index member
  obtain ⟨tensor, found, sameType⟩ := sound.typed index member
  rw [← sameType]
  exact fits.within_spanAt found

theorem operand_apart (fits : store.Fits tensors) (sound : operation.Sound tensors) :
    ∀ left ∈ operation.inputs ++ operation.outputs,
      ∀ right ∈ operation.inputs ++ operation.outputs, left ≠ right →
        (store.spanAt left).Apart (store.spanAt right) := by
  intro left leftMember right rightMember different
  obtain ⟨_, leftFound, leftType⟩ := sound.typed left leftMember
  obtain ⟨_, rightFound, rightType⟩ := sound.typed right rightMember
  exact fits.apart_spanAt leftFound rightFound (leftType.trans rightType.symm) different

theorem separable (fits : store.Fits tensors) (sound : operation.Sound tensors)
    (filled : ∀ tensor ∈ tensors, 0 < tensor.elementCount) :
    Split.Separable (store.pools operation.elementType).length
      (operation.inputs.map store.spanAt) (operation.outputs.map store.spanAt) := by
  have positive : ∀ index ∈ operation.inputs ++ operation.outputs,
      (store.spanAt index).start < (store.spanAt index).stop := by
    intro index member
    obtain ⟨tensor, found, _⟩ := sound.typed index member
    have count := filled tensor (List.mem_of_getElem? found)
    rw [← fits.length_spanAt found, Span.length] at count
    omega
  have apart := fits.operand_apart sound
  have injective : ∀ left ∈ operation.inputs ++ operation.outputs,
      ∀ right ∈ operation.inputs ++ operation.outputs,
        store.spanAt left = store.spanAt right → left = right := by
    intro left leftMember right rightMember same
    by_contra different
    have disjoint := apart left leftMember right rightMember different
    have nonempty := positive right rightMember
    rw [same, Span.Apart] at disjoint
    omega
  constructor
  case separate =>
    rw [← List.map_append]
    simp only [List.forall_mem_map]
    intro left leftMember right rightMember
    by_cases same : left = right
    · exact Or.inl (congrArg store.spanAt same)
    · exact Or.inr (apart left leftMember right rightMember same)
  case filled =>
    rw [← List.map_append]
    simpa only [List.forall_mem_map] using positive
  case within =>
    rw [← List.map_append]
    exact List.forall_mem_map.mpr (fits.operand_within sound)
  case outputsOnce =>
    refine List.Nodup.map_on (fun left leftMember right rightMember => ?_) sound.outputsOnce
    exact injective left (List.mem_append_right _ leftMember)
      right (List.mem_append_right _ rightMember)
  case notRead =>
    simp only [List.forall_mem_map]
    intro input inputMember isOutput
    obtain ⟨output, outputMember, same⟩ := List.mem_map.mp isOutput
    have equal := injective output (List.mem_append_right _ outputMember)
      input (List.mem_append_left _ inputMember) same
    exact sound.notRead input inputMember (equal ▸ outputMember)

theorem hasPool (fits : store.Fits tensors) (sound : operation.Sound tensors) :
    operation.elementType.hasPool = true := by
  obtain ⟨index, member⟩ := List.exists_mem_of_ne_nil _ sound.writesSomething
  obtain ⟨tensor, found, sameType⟩ := sound.typed index (List.mem_append_right _ member)
  rw [← sameType]
  exact fits.pooled tensor (List.mem_of_getElem? found)

theorem operand_lt (fits : store.Fits tensors) (sound : operation.Sound tensors) :
    ∀ index ∈ operation.inputs ++ operation.outputs, index < store.slots.length := by
  intro index member
  obtain ⟨_, found, _⟩ := sound.typed index member
  exact fits.index_lt found

theorem operands_eq (fits : store.Fits tensors) (sound : operation.Sound tensors)
    (filled : ∀ tensor ∈ tensors, 0 < tensor.elementCount) :
    store.operands operation = .ok (store.views operation) := by
  have inputs := spans_eq fun index member =>
    fits.operand_lt sound index (List.mem_append_left _ member)
  have outputs := spans_eq fun index member =>
    fits.operand_lt sound index (List.mem_append_right _ member)
  have split := splitPool_ok (fits.separable sound filled)
  simp only [operands, inputs, outputs, split, fits.hasPool sound, bind, Except.bind, pure,
    Except.pure, if_true, List.map_map]
  rfl

section Writing

variable {written : List (List (Element operation.elementType))}

theorem joinable (fits : store.Fits tensors) (sound : operation.Sound tensors)
    (fitting : written.map List.length = operation.outputs.map fun index =>
      (store.contents operation.elementType index).length) :
    Joinable (store.pools operation.elementType).length (operation.outputs.map store.spanAt)
      written := by
  have within : ∀ index ∈ operation.outputs,
      (store.spanAt index).Within (store.poolLength operation.elementType) :=
    fun index member => fits.operand_within sound index (List.mem_append_right _ member)
  constructor
  case within =>
    exact List.forall_mem_map.mpr within
  case apart =>
    rw [List.pairwise_map]
    refine (List.nodup_iff_pairwise_ne.mp sound.outputsOnce).imp_of_mem ?_
    exact fun leftMember rightMember => fits.operand_apart sound _
      (List.mem_append_right _ leftMember) _ (List.mem_append_right _ rightMember)
  case fitting =>
    rw [fitting, List.map_map]
    exact List.map_congr_left fun index member => Span.length_view (within index member)

theorem withOutputs_eq (fits : store.Fits tensors) (sound : operation.Sound tensors) :
    store.withOutputs operation written =
      store.withPool operation.elementType (joinPool (store.pools operation.elementType)
        (operation.outputs.map store.spanAt) written) := by
  rw [withOutputs, filterMap_span_eq fun index member =>
    fits.operand_lt sound index (List.mem_append_right _ member)]

theorem withOutputs_contents (fits : store.Fits tensors) (sound : operation.Sound tensors) :
    store.withOutputs operation
        (operation.outputs.map (store.contents operation.elementType)) = store := by
  have within : ∀ span ∈ operation.outputs.map store.spanAt,
      span.Within (store.pools operation.elementType).length := by
    refine List.forall_mem_map.mpr fun index member => ?_
    obtain ⟨tensor, found, sameType⟩ := sound.typed index (List.mem_append_right _ member)
    rw [← sameType]
    exact fits.within_spanAt found
  have unchanged := joinPool_view within
  rw [List.map_map] at unchanged
  rw [fits.withOutputs_eq sound]
  refine (congrArg (store.withPool operation.elementType) unchanged).trans ?_
  exact store.withPool_pools operation.elementType

theorem withOutputs_sameLayout (fits : store.Fits tensors) (sound : operation.Sound tensors)
    (fitting : written.map List.length = operation.outputs.map fun index =>
      (store.contents operation.elementType index).length) :
    (store.withOutputs operation written).SameLayout store := by
  rw [fits.withOutputs_eq sound]
  exact sameLayout_withPool (length_joinPool (fits.joinable sound fitting))

theorem contents_withOutputs (fits : store.Fits tensors) (sound : operation.Sound tensors)
    (fitting : written.map List.length = operation.outputs.map fun index =>
      (store.contents operation.elementType index).length) :
    (operation.outputs.map
      ((store.withOutputs operation written).contents operation.elementType)) = written := by
  refine Eq.trans ?_ (map_view_joinPool (fits.joinable sound fitting))
  rw [fits.withOutputs_eq sound, List.map_map]
  refine List.map_congr_left fun index _ => ?_
  rw [contents, pools_withPool]
  rfl

theorem contents_withOutputs_of_not_mem (fits : store.Fits tensors)
    (sound : operation.Sound tensors)
    (fitting : written.map List.length = operation.outputs.map fun index =>
      (store.contents operation.elementType index).length)
    {index : Nat} {tensor : Tensor} (found : tensors[index]? = some tensor)
    (untouched : index ∉ operation.outputs) :
    (store.withOutputs operation written).contents tensor.elementType index =
      store.contents tensor.elementType index := by
  rw [fits.withOutputs_eq sound, contents, contents]
  by_cases sameType : operation.elementType = tensor.elementType
  · rw [← sameType, pools_withPool]
    refine view_joinPool_of_apart (fits.joinable sound fitting) ?_
    simp only [List.forall_mem_map]
    intro output member
    obtain ⟨_, outputFound, outputType⟩ := sound.typed output (List.mem_append_right _ member)
    have different : index ≠ output := fun same => untouched (same ▸ member)
    exact fits.apart_spanAt found outputFound (sameType.symm.trans outputType.symm) different
  · rw [pools_withPool_of_ne store _ sameType]
    rfl

end Writing

end Operation

end Fits

theorem write_sameLayout {tensors : List Tensor} {store result : Store}
    (fits : store.Fits tensors) {elementType : ElementType} {index : Nat}
    {data : List (Element elementType)}
    (succeeded : store.write elementType index data = .ok result) :
    result.SameLayout store := by
  simp only [write, typedSpan, bind_eq_ok_iff] at succeeded
  obtain ⟨span, ⟨slot, found, typed⟩, written⟩ := succeeded
  rw [Store.slot] at found
  split at found
  · rename_i listed
    cases found
    split at typed
    · rename_i sameType
      cases typed
      split at written
      · rename_i sameLength
        cases written
        have within := fits.within slot (List.mem_of_getElem? listed)
        rw [sameType] at within
        exact sameLayout_withPool (Span.length_patch within sameLength.symm)
      · cases written
    · cases typed
  · cases found

theorem Fits.read_eq {tensors : List Tensor} {store : Store} (fits : store.Fits tensors)
    {index : Nat} {tensor : Tensor} (found : tensors[index]? = some tensor)
    (elementType : ElementType) :
    store.read elementType index =
      if tensor.elementType = elementType then .ok (store.contents elementType index)
      else .error (.elementTypeMismatch tensor.elementType elementType) := by
  obtain ⟨slot, slotFound, sameType, _⟩ := fits.slot? found
  rw [Store.read_eq slotFound, sameType]

theorem Fits.read_operand {tensors : List Tensor} {store : Store} (fits : store.Fits tensors)
    {operation : CompactOperation} (sound : operation.Sound tensors) :
    ∀ index ∈ operation.inputs ++ operation.outputs,
      store.read operation.elementType index =
        .ok (store.contents operation.elementType index) := by
  intro index member
  obtain ⟨tensor, found, sameType⟩ := sound.typed index member
  rw [fits.read_eq found, if_pos sameType]

section Reading

variable {left right : Store} {leftTensors rightTensors tensors : List Tensor}

/-- Two places for one tensor give the same answers exactly if they hold the same. -/
theorem read_eq_read_iff (leftFits : left.Fits leftTensors) (rightFits : right.Fits rightTensors)
    {leftIndex rightIndex : Nat} {tensor : Tensor}
    (leftFound : leftTensors[leftIndex]? = some tensor)
    (rightFound : rightTensors[rightIndex]? = some tensor) :
    (∀ elementType, left.read elementType leftIndex = right.read elementType rightIndex) ↔
      left.contents tensor.elementType leftIndex =
        right.contents tensor.elementType rightIndex := by
  constructor
  · intro sameReads
    have same := sameReads tensor.elementType
    rw [leftFits.read_eq leftFound, rightFits.read_eq rightFound, if_pos rfl, if_pos rfl] at same
    exact Except.ok.inj same
  · intro same elementType
    rw [leftFits.read_eq leftFound, rightFits.read_eq rightFound]
    split
    · rename_i sameType
      rw [← sameType, same]
    · rfl

theorem read_eq_iff (leftFits : left.Fits tensors) (rightFits : right.Fits tensors)
    {index : Nat} :
    (∀ elementType, left.read elementType index = right.read elementType index) ↔
      ∀ tensor, tensors[index]? = some tensor →
        left.contents tensor.elementType index = right.contents tensor.elementType index := by
  cases found : tensors[index]? with
  | some tensor =>
      rw [read_eq_read_iff leftFits rightFits found found]
      exact ⟨fun same _ isTensor => (Option.some.inj isTensor) ▸ same, fun same => same tensor rfl⟩
  | none =>
      have beyond := List.getElem?_eq_none_iff.mp found
      have leftCount := leftFits.holds.length_eq
      have rightCount := rightFits.holds.length_eq
      have leftNone : left.slots[index]? = none :=
        List.getElem?_eq_none_iff.mpr (leftCount ▸ beyond)
      have rightNone : right.slots[index]? = none :=
        List.getElem?_eq_none_iff.mpr (rightCount ▸ beyond)
      refine ⟨fun _ _ impossible => (by cases impossible), fun _ elementType => ?_⟩
      simp only [read, typedSpan, Store.slot, leftNone, rightNone, ← leftCount, ← rightCount, bind,
        Except.bind]

end Reading

end Store

end TensorGraph
