import TensorGraph.Proofs.Contents
import TensorGraph.Proofs.Tiling

/-!
Memory as a list of arrays, one for each tensor, that know nothing of each other. Reading and writing
the pools is reading and writing these arrays, whatever is called, so a tensor holds what was last
written to it.
-/

namespace TensorGraph

structure TypedArray where
  elementType : ElementType
  elements : List (Element elementType)

abbrev Arrays := List TypedArray

/-- A call that writes a tensor; its data may be of any type and of any length. -/
structure WriteCall where
  elementType : ElementType
  index : Nat
  data : List (Element elementType)

namespace WriteCall

def array (call : WriteCall) : TypedArray := ⟨call.elementType, call.data⟩

def Accepted (tensors : List Tensor) (call : WriteCall) : Prop :=
  ∃ tensor, tensors[call.index]? = some tensor ∧ tensor.elementType = call.elementType ∧
    call.data.length = tensor.elementCount

/-- Of the calls that the tensor at the position accepted, this one came last. -/
def Last (tensors : List Tensor) (calls : List WriteCall) (index : Nat) (call : WriteCall) : Prop :=
  call.Accepted tensors ∧ call.index = index ∧ ∃ before behind, calls = before ++ call :: behind ∧
    ∀ later ∈ behind, later.Accepted tensors → later.index ≠ index

theorem untouched_or_last (tensors : List Tensor) (calls : List WriteCall) (index : Nat) :
    (∀ call ∈ calls, call.Accepted tensors → call.index ≠ index) ∨
      ∃ call, Last tensors calls index call := by
  induction calls with
  | nil => exact Or.inl (by simp)
  | cons first rest ih =>
      rcases ih with untouched | ⟨call, accepted, same, before, behind, split, untouched⟩
      · by_cases touches : first.Accepted tensors ∧ first.index = index
        · exact Or.inr ⟨first, touches.1, touches.2, [], rest, rfl, untouched⟩
        · exact Or.inl (List.forall_mem_cons.mpr
            ⟨fun accepted same => touches ⟨accepted, same⟩, untouched⟩)
      · exact Or.inr ⟨call, accepted, same, first :: before, behind, by rw [split]; rfl, untouched⟩

end WriteCall

namespace Arrays

def zeros (tensors : List Tensor) : Arrays :=
  tensors.map fun tensor => ⟨tensor.elementType, List.replicate tensor.elementCount 0⟩

def read (arrays : Arrays) (elementType : ElementType) (index : Nat) :
    Except ExecutionError (List (Element elementType)) :=
  match arrays[index]? with
  | none => .error (.tensorIndexOutOfBounds index arrays.length)
  | some array =>
      if same : array.elementType = elementType then .ok (same ▸ array.elements)
      else .error (.elementTypeMismatch array.elementType elementType)

def write (arrays : Arrays) (call : WriteCall) : Except ExecutionError Arrays := do
  let elements ← arrays.read call.elementType call.index
  if elements.length = call.data.length then
    return arrays.set call.index call.array
  else
    throw (.dataLength call.index elements.length call.data.length)

def after (arrays : Arrays) (call : WriteCall) : Arrays :=
  match arrays.write call with
  | .ok result => result
  | .error _ => arrays

def afterAll (arrays : Arrays) (calls : List WriteCall) : Arrays := calls.foldl after arrays

def Fit (tensors : List Tensor) (arrays : Arrays) : Prop :=
  arrays.map (fun array => (array.elementType, array.elements.length)) =
    tensors.map fun tensor => (tensor.elementType, tensor.elementCount)

section

variable {tensors : List Tensor} {arrays : Arrays} {call : WriteCall}

theorem fit_zeros (tensors : List Tensor) : (zeros tensors).Fit tensors := by
  simp [Fit, zeros]

theorem Fit.getElem?_iff (fit : arrays.Fit tensors) (index : Nat) (elementType : ElementType)
    (length : Nat) :
    (∃ elements, arrays[index]? = some ⟨elementType, elements⟩ ∧ length = elements.length) ↔
      ∃ tensor, tensors[index]? = some tensor ∧ tensor.elementType = elementType ∧
        length = tensor.elementCount := by
  have same := congrArg (fun outlines => outlines[index]? = some (elementType, length)) fit
  simp only [List.getElem?_map, Option.map_eq_some_iff, Prod.mk.injEq, @eq_comm Nat _ length]
    at same
  rw [← same]
  constructor
  · rintro ⟨elements, found, sameLength⟩
    exact ⟨_, found, rfl, sameLength⟩
  · rintro ⟨⟨_, elements⟩, found, sameType, sameLength⟩
    cases sameType
    exact ⟨elements, found, sameLength⟩

theorem read_ok_iff {elementType : ElementType} {index : Nat}
    {elements : List (Element elementType)} :
    arrays.read elementType index = .ok elements ↔
      arrays[index]? = some ⟨elementType, elements⟩ := by
  cases found : arrays[index]? with
  | none => simp [read, found]
  | some array =>
      obtain ⟨arrayType, present⟩ := array
      by_cases same : arrayType = elementType
      · subst same
        simp [read, found]
      · simp [read, found, same]

theorem write_ok_iff (fit : arrays.Fit tensors) {result : Arrays} :
    arrays.write call = .ok result ↔
      call.Accepted tensors ∧ result = arrays.set call.index call.array := by
  rw [WriteCall.Accepted, ← fit.getElem?_iff, write, bind_eq_ok_iff]
  simp only [read_ok_iff]
  constructor
  · rintro ⟨elements, found, written⟩
    split at written
    · rename_i sameLength
      cases written
      exact ⟨⟨elements, found, sameLength.symm⟩, rfl⟩
    · cases written
  · rintro ⟨⟨elements, found, sameLength⟩, same⟩
    refine ⟨elements, found, ?_⟩
    rw [if_pos sameLength.symm, same]
    rfl

theorem after_of_accepted (fit : arrays.Fit tensors) (accepted : call.Accepted tensors) :
    arrays.after call = arrays.set call.index call.array := by
  rw [after, (write_ok_iff fit).mpr ⟨accepted, rfl⟩]

theorem after_of_not_accepted (fit : arrays.Fit tensors) (refused : ¬call.Accepted tensors) :
    arrays.after call = arrays := by
  cases written : arrays.write call with
  | ok result => exact absurd ((write_ok_iff fit).mp written).1 refused
  | error failure => rw [after, written]

theorem Fit.after (fit : arrays.Fit tensors) (call : WriteCall) :
    (arrays.after call).Fit tensors := by
  by_cases accepted : call.Accepted tensors
  · rw [after_of_accepted fit accepted, Fit, List.map_set, fit]
    obtain ⟨tensor, found, sameType, sameLength⟩ := accepted
    refine List.ext_getElem? fun index => ?_
    rw [List.getElem?_set]
    split
    · rename_i here
      subst here
      have bound := (List.getElem?_eq_some_iff.mp found).1
      rw [if_pos (by simpa using bound), List.getElem?_map, found]
      simp [WriteCall.array, sameType, sameLength]
    · rfl
  · rwa [after_of_not_accepted fit accepted]

theorem Fit.afterAll (fit : arrays.Fit tensors) (calls : List WriteCall) :
    (arrays.afterAll calls).Fit tensors := by
  induction calls generalizing arrays with
  | nil => exact fit
  | cons call calls ih => exact ih (fit.after call)

theorem afterAll_append (arrays : Arrays) (before behind : List WriteCall) :
    arrays.afterAll (before ++ behind) = (arrays.afterAll before).afterAll behind :=
  List.foldl_append

theorem getElem?_afterAll_of_untouched (fit : arrays.Fit tensors) {calls : List WriteCall}
    {index : Nat}
    (untouched : ∀ call ∈ calls, call.Accepted tensors → call.index ≠ index) :
    (arrays.afterAll calls)[index]? = arrays[index]? := by
  induction calls generalizing arrays with
  | nil => rfl
  | cons call calls ih =>
      obtain ⟨first, others⟩ := List.forall_mem_cons.mp untouched
      rw [afterAll, List.foldl_cons, ← afterAll, ih (fit.after call) others]
      by_cases accepted : call.Accepted tensors
      · rw [after_of_accepted fit accepted, List.getElem?_set_ne (first accepted)]
      · rw [after_of_not_accepted fit accepted]

theorem getElem?_afterAll_of_last (fit : arrays.Fit tensors) {calls : List WriteCall} {index : Nat}
    (last : WriteCall.Last tensors calls index call) :
    (arrays.afterAll calls)[index]? = some call.array := by
  obtain ⟨accepted, rfl, before, behind, rfl, untouched⟩ := last
  have fitBefore := fit.afterAll before
  rw [afterAll_append, afterAll, List.foldl_cons, ← afterAll,
    getElem?_afterAll_of_untouched (fitBefore.after call) untouched,
    after_of_accepted fitBefore accepted, List.getElem?_set_self']
  obtain ⟨_, found, sameType, _⟩ := accepted
  obtain ⟨elements, present, _⟩ := (fitBefore.getElem?_iff _ _ _).mpr ⟨_, found, sameType, rfl⟩
  rw [present]
  rfl

end

end Arrays

namespace Store

def arrays (store : Store) : Arrays :=
  store.slots.map fun slot => ⟨slot.elementType, slot.span.view (store.pools slot.elementType)⟩

def after (store : Store) (call : WriteCall) : Store :=
  match store.write call.elementType call.index call.data with
  | .ok result => result
  | .error _ => store

def afterAll (store : Store) (calls : List WriteCall) : Store := calls.foldl after store

theorem arrays_getElem? (store : Store) (index : Nat) :
    store.arrays[index]? = store.slots[index]?.map fun slot =>
      ⟨slot.elementType, slot.span.view (store.pools slot.elementType)⟩ :=
  List.getElem?_map

theorem read_arrays (store : Store) (elementType : ElementType) (index : Nat) :
    store.read elementType index = store.arrays.read elementType index := by
  cases found : store.slots[index]? with
  | none =>
      simp [read, typedSpan, slot, Arrays.read, found, arrays, bind, Except.bind]
  | some slot =>
      rw [read_eq found, contents, spanAt_of_slot found, Arrays.read, arrays_getElem?, found]
      obtain ⟨slotType, offset, length⟩ := slot
      by_cases same : slotType = elementType
      · subst same
        simp
      · simp [same]

section

variable {tensors : List Tensor} {store : Store}

theorem arrays_ofGraph {graph : CompactGraph} (created : ofGraph graph = .ok store) :
    store.arrays = Arrays.zeros graph.tensors := by
  have fits := fits_of_ofGraph created
  obtain ⟨slots, _, same⟩ := ofGraph_ok_iff.mp created
  refine List.ext_getElem? fun index => ?_
  rw [arrays_getElem?, Arrays.zeros, List.getElem?_map]
  cases found : graph.tensors[index]? with
  | none =>
      have beyond := List.getElem?_eq_none_iff.mp found
      rw [List.getElem?_eq_none_iff.mpr (fits.holds.length_eq ▸ beyond)]
      rfl
  | some tensor =>
      obtain ⟨slot, slotFound, sameType, sameLength⟩ := fits.slot? found
      have within := fits.within slot (List.mem_of_getElem? slotFound)
      have zero : slot.span.view (store.pools slot.elementType) =
          List.replicate slot.length 0 := by
        rw [same, poolLength, List.length_replicate] at within
        rw [same, Span.view, List.drop_replicate, List.take_replicate]
        congr 1
        simp only [Span.Within, Span.length, TensorSlot.span] at within ⊢
        omega
      rw [slotFound, Option.map_some, Option.map_some, zero, sameLength]
      obtain ⟨slotType, offset, length⟩ := slot
      simp only at sameType
      subst sameType
      rfl

theorem arrays_withPool_patch (fits : store.Fits tensors) {index : Nat} {slot : TensorSlot}
    (found : store.slots[index]? = some slot) {data : List (Element slot.elementType)}
    (fitting : data.length = slot.span.length) :
    (store.withPool slot.elementType
        (slot.span.patch data (store.pools slot.elementType))).arrays =
      store.arrays.set index ⟨slot.elementType, data⟩ := by
  have within := fits.within slot (List.mem_of_getElem? found)
  refine List.ext_getElem? fun position => ?_
  rw [List.getElem?_set, arrays_getElem?, arrays_getElem?]
  change (store.slots[position]?.map _) = _
  by_cases here : index = position
  · subst here
    have bound := (List.getElem?_eq_some_iff.mp found).1
    rw [if_pos rfl, if_pos (by simpa [arrays] using bound), found, Option.map_some,
      pools_withPool, Span.view_patch within fitting]
  · rw [if_neg here]
    cases otherFound : store.slots[position]? with
    | none => rfl
    | some other =>
        refine congrArg (fun elements => some (TypedArray.mk other.elementType elements)) ?_
        by_cases sameType : slot.elementType = other.elementType
        · have apart := fits.apart_of_ne found otherFound sameType here
          obtain ⟨otherType, offset, length⟩ := other
          simp only at sameType
          subst sameType
          rw [pools_withPool]
          exact Span.view_patch_of_apart within fitting apart.symm
        · rw [pools_withPool_of_ne store _ sameType]

theorem map_arrays_write (fits : store.Fits tensors) (call : WriteCall) :
    (store.write call.elementType call.index call.data).map arrays = store.arrays.write call := by
  obtain ⟨elementType, index, data⟩ := call
  have reads := store.read_arrays elementType index
  simp only [Arrays.write, ← reads]
  cases found : store.slots[index]? with
  | none => simp [write, read, typedSpan, Store.slot, found, bind, Except.bind, Except.map]
  | some slot =>
      rw [read_eq found]
      by_cases sameType : slot.elementType = elementType
      · subst sameType
        have within := fits.within slot (List.mem_of_getElem? found)
        have present : (store.contents slot.elementType index).length = slot.span.length := by
          rw [contents, spanAt_of_slot found, Span.length_view within]
        simp only [write, typedSpan, Store.slot, found, bind, Except.bind, if_true, pure,
          Except.pure, present]
        by_cases fitting : slot.span.length = data.length
        · simp only [fitting, if_true, Except.map, WriteCall.array]
          rw [arrays_withPool_patch fits found fitting.symm]
        · simp only [fitting, if_false, Except.map, throw, throwThe, MonadExceptOf.throw]
      · simp [write, typedSpan, Store.slot, found, sameType, bind, Except.bind, Except.map, throw,
          throwThe, MonadExceptOf.throw]

theorem Fits.after (fits : store.Fits tensors) (call : WriteCall) :
    (store.after call).Fits tensors := by
  rw [Store.after]
  cases written : store.write call.elementType call.index call.data with
  | ok result => exact fits.of_sameLayout (write_sameLayout fits written)
  | error failure => exact fits

theorem arrays_after (fits : store.Fits tensors) (call : WriteCall) :
    (store.after call).arrays = store.arrays.after call := by
  rw [after, Arrays.after, ← map_arrays_write fits call]
  cases store.write call.elementType call.index call.data with
  | ok result => rfl
  | error failure => rfl

theorem Fits.afterAll (fits : store.Fits tensors) (calls : List WriteCall) :
    (store.afterAll calls).Fits tensors := by
  induction calls generalizing store with
  | nil => exact fits
  | cons call calls ih => exact ih (fits.after call)

theorem arrays_afterAll (fits : store.Fits tensors) (calls : List WriteCall) :
    (store.afterAll calls).arrays = store.arrays.afterAll calls := by
  induction calls generalizing store with
  | nil => rfl
  | cons call calls ih =>
      rw [afterAll, List.foldl_cons, ← afterAll, ih (fits.after call), arrays_after fits call]
      rfl

theorem exists_write_iff (fits : store.Fits tensors) (fit : store.arrays.Fit tensors)
    (call : WriteCall) :
    (∃ result, store.write call.elementType call.index call.data = .ok result) ↔
      call.Accepted tensors := by
  have commutes := map_arrays_write fits call
  constructor
  · rintro ⟨result, written⟩
    rw [written] at commutes
    exact ((Arrays.write_ok_iff fit).mp commutes.symm).1
  · intro accepted
    rw [(Arrays.write_ok_iff fit).mpr ⟨accepted, rfl⟩] at commutes
    cases written : store.write call.elementType call.index call.data with
    | ok result => exact ⟨result, rfl⟩
    | error failure =>
        rw [written] at commutes
        cases commutes

theorem after_of_refused {call : WriteCall}
    (refused : ¬∃ result, store.write call.elementType call.index call.data = .ok result) :
    store.after call = store := by
  cases written : store.write call.elementType call.index call.data with
  | ok result => exact absurd ⟨result, written⟩ refused
  | error failure => rw [after, written]

end

/-- Whatever is written to the pools, they are read like one array for each tensor: a call succeeds
if it fits its tensor, changes nothing otherwise, and a tensor holds what was last written to it. -/
theorem arrays_independent {graph : CompactGraph} {store : Store}
    (created : ofGraph graph = .ok store) (calls : List WriteCall) :
    (∀ elementType index, (store.afterAll calls).read elementType index =
      ((Arrays.zeros graph.tensors).afterAll calls).read elementType index) ∧
    (∀ call : WriteCall,
      (∃ result, (store.afterAll calls).write call.elementType call.index call.data = .ok result) ↔
        ∃ tensor, graph.tensors[call.index]? = some tensor ∧
          tensor.elementType = call.elementType ∧ call.data.length = tensor.elementCount) ∧
    (∀ call : WriteCall, ¬call.Accepted graph.tensors →
      store.afterAll (calls ++ [call]) = store.afterAll calls) ∧
    ∀ index tensor, graph.tensors[index]? = some tensor →
      (∀ call, WriteCall.Last graph.tensors calls index call →
        call.elementType = tensor.elementType ∧
          (store.afterAll calls).read call.elementType index = .ok call.data) ∧
      ((∀ call, ¬WriteCall.Last graph.tensors calls index call) →
        (store.afterAll calls).read tensor.elementType index =
          .ok (List.replicate tensor.elementCount 0)) := by
  have fits := fits_of_ofGraph created
  have fit := Arrays.fit_zeros graph.tensors
  have sameArrays : (store.afterAll calls).arrays = (Arrays.zeros graph.tensors).afterAll calls := by
    rw [arrays_afterAll fits, arrays_ofGraph created]
  have sameReads : ∀ elementType index, (store.afterAll calls).read elementType index =
      ((Arrays.zeros graph.tensors).afterAll calls).read elementType index := by
    intro elementType index
    rw [read_arrays, sameArrays]
  have succeeds := exists_write_iff (fits.afterAll calls)
    (by rw [sameArrays]; exact fit.afterAll calls)
  refine ⟨sameReads, succeeds, fun call refused => ?_, fun index tensor found => ⟨?_, ?_⟩⟩
  · rw [← succeeds] at refused
    rw [afterAll, List.foldl_append]
    exact after_of_refused refused
  · intro call last
    obtain ⟨⟨_, named, sameType, _⟩, same, _⟩ := id last
    rw [same, found] at named
    cases named
    rw [sameReads, Arrays.read_ok_iff]
    exact ⟨sameType.symm, Arrays.getElem?_afterAll_of_last fit last⟩
  · intro never
    have untouched := (WriteCall.untouched_or_last graph.tensors calls index).resolve_right
      fun ⟨call, last⟩ => never call last
    rw [sameReads, Arrays.read_ok_iff, Arrays.getElem?_afterAll_of_untouched fit untouched,
      Arrays.zeros, List.getElem?_map, found]
    rfl

def interleavedCalls : List WriteCall :=
  [⟨.i16, 1, [7, 8, 9]⟩, ⟨.f32, 2, [5]⟩, ⟨.i16, 3, [1, 2, 3, 4]⟩,
    ⟨.i16, 1, [6]⟩, ⟨.u16, 1, [4, 5, 6]⟩, ⟨.f32, 9, [5]⟩]

theorem arrays_independent_interleaved :
    ∃ graph compactGraph store,
      Graph.build interleavedTensors [interleavedSum] ⟨8, 8⟩ = .ok graph ∧
        graph.compact = .ok compactGraph ∧ ofGraph compactGraph = .ok store ∧
        (store.afterAll interleavedCalls).read .i16 1 = .ok [7, 8, 9] ∧
        (store.afterAll interleavedCalls).read .f32 4 = .ok [0] := by
  obtain ⟨graph, compactGraph, store, built, compacted, created, tensors⟩ :
      ∃ graph compactGraph store,
        Graph.build interleavedTensors [interleavedSum] ⟨8, 8⟩ = .ok graph ∧
          graph.compact = .ok compactGraph ∧ ofGraph compactGraph = .ok store ∧
          compactGraph.tensors = interleavedTensors :=
    ⟨_, _, _, rfl, rfl, rfl, rfl⟩
  obtain ⟨_, _, _, holds⟩ := arrays_independent created interleavedCalls
  rw [tensors] at holds
  have refused : ∀ later ∈ interleavedCalls.tail, later.Accepted interleavedTensors →
      later.index ≠ 1 := by
    simp only [interleavedCalls, List.tail_cons, List.forall_mem_cons, WriteCall.Accepted]
    refine ⟨by decide, by decide, ?_, ?_, by decide, by simp⟩
    · rintro ⟨_, found, _, sameLength⟩
      cases found
      exact absurd sameLength (by decide)
    · rintro ⟨_, found, sameType, _⟩
      cases found
      exact absurd sameType (by decide)
  have untouched : ∀ call ∈ interleavedCalls, call.index ≠ 4 := by simp [interleavedCalls]
  have written := (holds 1 _ rfl).1 ⟨.i16, 1, [7, 8, 9]⟩
    ⟨⟨_, rfl, rfl, rfl⟩, rfl, [], _, rfl, refused⟩
  have unwritten := (holds 4 _ rfl).2 fun call ⟨_, same, before, behind, split, _⟩ =>
    untouched call (by simp [split]) same
  exact ⟨graph, compactGraph, store, built, compacted, created, written.2, unwritten⟩

end Store

end TensorGraph
