import Mathlib.Data.List.Forall2
import TensorGraph.Graph.Connections
import TensorGraph.Proofs.Results

/-!
The check on connections: it passes exactly if every name stands for a tensor, no tensor has two
writers, and none has too many readers. Positions listed for a tensor are in increasing order.
-/

namespace TensorGraph

namespace Connections

variable {α : Type}

theorem mem_positions {condition : α → Bool} {items : List α} {position : Nat} :
    position ∈ positions condition items ↔
      ∃ item, items[position]? = some item ∧ condition item = true := by
  simp only [positions, List.mem_map, List.mem_filter, Prod.exists]
  constructor
  · rintro ⟨item, index, ⟨listed, holds⟩, same⟩
    subst same
    exact ⟨item, List.mk_mem_zipIdx_iff_getElem?.mp listed, holds⟩
  · rintro ⟨item, listed, holds⟩
    exact ⟨item, position, ⟨List.mk_mem_zipIdx_iff_getElem?.mpr listed, holds⟩, rfl⟩

theorem pairwise_zipIdx (items : List α) (start : Nat) :
    (items.zipIdx start).Pairwise fun first second => first.2 < second.2 := by
  induction items generalizing start with
  | nil => exact List.Pairwise.nil
  | cons item items ih =>
      rw [List.zipIdx_cons, List.pairwise_cons]
      refine ⟨fun entry listed => ?_, ih (start + 1)⟩
      have bound := List.le_snd_of_mem_zipIdx listed
      omega

theorem positions_pairwise (condition : α → Bool) (items : List α) :
    (positions condition items).Pairwise (· < ·) :=
  List.pairwise_map.mpr ((pairwise_zipIdx items 0).filter _)

theorem nodup_positions (condition : α → Bool) (items : List α) :
    (positions condition items).Nodup :=
  (positions_pairwise condition items).imp fun {_ _} before => Nat.ne_of_lt before

theorem positions_append (condition : α → Bool) (left right : List α) :
    positions condition (left ++ right) =
      positions condition left ++ (positions condition right).map (left.length + ·) := by
  simp only [positions, List.zipIdx_append, List.filter_append, List.map_append, Nat.zero_add]
  have shifted : right.zipIdx left.length =
      right.zipIdx.map fun entry => (entry.1, left.length + entry.2) := List.zipIdx_eq_map_add
  rw [shifted, List.filter_map, List.map_map, List.map_map]
  rfl

theorem positions_cons (condition : α → Bool) (first : α) (rest : List α) :
    positions condition (first :: rest) =
      (if condition first then [0] else []) ++ (positions condition rest).map (1 + ·) := by
  have alone : positions condition [first] = if condition first then [0] else [] := by
    cases holds : condition first <;> simp [positions, holds]
  rw [← List.singleton_append, positions_append, alone]
  rfl

theorem positions_snoc (condition : α → Bool) (items : List α) (last : α) :
    positions condition (items ++ [last]) =
      positions condition items ++ if condition last then [items.length] else [] := by
  rw [positions_append]
  cases holds : condition last <;> simp [positions, holds]

theorem find?_eq_head?_positions (condition : α → Bool) (items : List α) :
    items.find? condition = (positions condition items).head?.bind fun position =>
      items[position]? := by
  induction items with
  | nil => rfl
  | cons first rest ih =>
      rw [List.find?_cons, positions_cons]
      cases holds : condition first with
      | true => simp
      | false =>
          simp only [ih, Bool.false_eq_true, if_false, List.nil_append, List.head?_map,
            Option.bind_map]
          congr 1
          funext position
          rw [Function.comp_apply, Nat.add_comm, List.getElem?_cons_succ]

theorem length_positions_append (condition : α → Bool) (left right : List α) :
    (positions condition (left ++ right)).length =
      (positions condition left).length + (positions condition right).length := by
  rw [positions_append, List.length_append, List.length_map]

theorem length_positions_singleton (condition : α → Bool) (item : α) :
    (positions condition [item]).length = if condition item then 1 else 0 := by
  cases holds : condition item <;> simp [positions, holds]

theorem length_positions (condition : α → Bool) (items : List α) :
    (positions condition items).length = items.countP condition := by
  induction items with
  | nil => rfl
  | cons item rest ih =>
      rw [← List.singleton_append, length_positions_append, length_positions_singleton, ih,
        List.countP_append, List.countP_singleton]

theorem checkInputs_ok_iff (tensors : List TensorId) (listed : List Operation)
    (operation : OperationId) (inputs : List TensorId) :
    checkInputs tensors listed operation inputs = .ok () ↔
      ∀ input ∈ inputs, input ∈ tensors ∧ (readers listed input).length ≤ Limit.fanOut := by
  induction inputs with
  | nil => simp [checkInputs]
  | cons input rest ih =>
      simp only [checkInputs, List.forall_mem_cons]
      split
      · rename_i known
        simp only [seq_eq_ok_iff, ih, checkWithin]
        split
        · rename_i crowded
          simp [known, Nat.not_le_of_lt crowded]
        · rename_i room
          simp [known, Nat.le_of_not_lt room]
      · rename_i unknown
        simp [unknown]

theorem checkOutputs_ok_iff (tensors : List TensorId) (earlier : List Operation)
    (operation : OperationId) (outputs : List TensorId) :
    checkOutputs tensors earlier operation outputs = .ok () ↔
      ∀ output ∈ outputs, output ∈ tensors ∧ ∀ other ∈ earlier, other.writes output = false := by
  induction outputs with
  | nil => simp [checkOutputs]
  | cons output rest ih =>
      simp only [checkOutputs, List.forall_mem_cons]
      split
      · rename_i known
        cases found : earlier.find? fun other => other.writes output with
        | some other =>
            have writes : other.writes output = true := by simpa using List.find?_some found
            have clash : ¬∀ other ∈ earlier, other.writes output = false := fun free => by
              simp [free other (List.mem_of_find?_eq_some found)] at writes
            simp [clash]
        | none =>
            have free : ∀ other ∈ earlier, other.writes output = false := by
              simpa using List.find?_eq_none.mp found
            simp only [ih, known, true_and]
            exact ⟨fun others => ⟨free, others⟩, fun both => both.2⟩
      · rename_i unknown
        simp [unknown]

structure Sound (tensors : List TensorId) (operations : List Operation) : Prop where
  inputsKnown : ∀ operation ∈ operations, ∀ tensor, operation.reads tensor = true →
    tensor ∈ tensors
  outputsKnown : ∀ operation ∈ operations, ∀ tensor, operation.writes tensor = true →
    tensor ∈ tensors
  singleWriter : operations.Pairwise fun first second =>
    ∀ tensor, first.writes tensor = true → second.writes tensor = false
  fanOut : ∀ tensor, (readers operations tensor).length ≤ Limit.fanOut

theorem reads_iff {operation : Operation} {tensor : TensorId} :
    operation.reads tensor = true ↔ operation.isGroup = false ∧ tensor ∈ operation.inputs := by
  simp [Operation.reads]

theorem writes_iff {operation : Operation} {tensor : TensorId} :
    operation.writes tensor = true ↔ operation.isGroup = false ∧ tensor ∈ operation.outputs := by
  simp [Operation.writes]

theorem length_readers_snoc (earlier : List Operation) (operation : Operation) (tensor : TensorId) :
    (readers (earlier ++ [operation]) tensor).length =
      (readers earlier tensor).length + if operation.reads tensor then 1 else 0 := by
  rw [readers, length_positions_append, length_positions_singleton, readers]

theorem checkFrom_cons_ok_iff (tensors : List TensorId) (earlier rest : List Operation)
    (operation : Operation) :
    checkFrom tensors earlier (operation :: rest) = .ok () ↔
      (∀ tensor, operation.reads tensor = true → tensor ∈ tensors ∧
        (readers (earlier ++ [operation]) tensor).length ≤ Limit.fanOut) ∧
      (∀ tensor, operation.writes tensor = true → tensor ∈ tensors ∧
        ∀ other ∈ earlier, other.writes tensor = false) ∧
      checkFrom tensors (earlier ++ [operation]) rest = .ok () := by
  cases isGroup : operation.isGroup with
  | true =>
      have silent : ∀ tensor, operation.reads tensor = false ∧ operation.writes tensor = false := by
        simp [Operation.reads, Operation.writes, isGroup]
      simp [checkFrom, isGroup, silent]
  | false =>
      simp only [checkFrom, isGroup, Bool.not_false, if_true, seq_eq_ok_iff,
        checkInputs_ok_iff, checkOutputs_ok_iff, reads_iff, writes_iff, true_and]

theorem writesApart_symm {first second : Operation}
    (apart : ∀ tensor, first.writes tensor = true → second.writes tensor = false) :
    ∀ tensor, second.writes tensor = true → first.writes tensor = false := by
  intro tensor secondWrites
  by_contra firstWrites
  rw [Bool.not_eq_false] at firstWrites
  rw [apart tensor firstWrites] at secondWrites
  cases secondWrites

theorem checkFrom_ok_iff (tensors : List TensorId) (earlier operations : List Operation)
    (room : ∀ tensor, (readers earlier tensor).length ≤ Limit.fanOut) :
    checkFrom tensors earlier operations = .ok () ↔
      (∀ operation ∈ operations, ∀ tensor, operation.reads tensor = true → tensor ∈ tensors) ∧
      (∀ operation ∈ operations, ∀ tensor, operation.writes tensor = true →
        tensor ∈ tensors ∧ ∀ other ∈ earlier, other.writes tensor = false) ∧
      (operations.Pairwise fun first second =>
        ∀ tensor, first.writes tensor = true → second.writes tensor = false) ∧
      ∀ tensor, (readers (earlier ++ operations) tensor).length ≤ Limit.fanOut := by
  induction operations generalizing earlier with
  | nil => simpa [checkFrom] using room
  | cons operation rest ih =>
      rw [checkFrom_cons_ok_iff, List.pairwise_cons]
      constructor
      · rintro ⟨inputs, outputs, checked⟩
        have nextRoom : ∀ tensor,
            (readers (earlier ++ [operation]) tensor).length ≤ Limit.fanOut := by
          intro tensor
          cases reads : operation.reads tensor with
          | true => exact (inputs tensor reads).2
          | false =>
              rw [length_readers_snoc, reads]
              exact room tensor
        obtain ⟨restInputs, restOutputs, restSingle, restRoom⟩ := (ih _ nextRoom).mp checked
        refine ⟨List.forall_mem_cons.mpr ⟨fun tensor reads => (inputs tensor reads).1, restInputs⟩,
          List.forall_mem_cons.mpr ⟨outputs, ?_⟩, ⟨?_, restSingle⟩, by simpa using restRoom⟩
        · intro other member tensor writes
          have known := restOutputs other member tensor writes
          exact ⟨known.1, fun before listed => known.2 before (List.mem_append_left _ listed)⟩
        · exact fun other member => writesApart_symm fun tensor writes =>
            (restOutputs other member tensor writes).2 operation (by simp)
      · rintro ⟨inputs, outputs, ⟨single, restSingle⟩, allRoom⟩
        obtain ⟨firstInputs, restInputs⟩ := List.forall_mem_cons.mp inputs
        obtain ⟨firstOutputs, restOutputs⟩ := List.forall_mem_cons.mp outputs
        have nextRoom : ∀ tensor,
            (readers (earlier ++ [operation]) tensor).length ≤ Limit.fanOut := by
          intro tensor
          have whole := allRoom tensor
          rw [show earlier ++ operation :: rest = (earlier ++ [operation]) ++ rest by simp,
            readers, length_positions_append] at whole
          exact Nat.le_trans (Nat.le_add_right _ _) whole
        refine ⟨fun tensor reads => ⟨firstInputs tensor reads, nextRoom tensor⟩, firstOutputs,
          (ih _ nextRoom).mpr ⟨restInputs, ?_, restSingle, by simpa using allRoom⟩⟩
        intro other member tensor writes
        refine ⟨(restOutputs other member tensor writes).1, ?_⟩
        intro before listed
        rcases List.mem_append.mp listed with old | last
        · exact (restOutputs other member tensor writes).2 before old
        · rw [List.mem_singleton.mp last]
          exact writesApart_symm (single other member) tensor writes

theorem check_ok_iff (tensors : List Tensor) (operations : List Operation) :
    check tensors operations = .ok () ↔
      Sound (tensors.map fun tensor => tensor.id) operations := by
  rw [check, checkFrom_ok_iff _ _ _ fun tensor => by simp [readers, positions]]
  constructor
  · rintro ⟨inputs, outputs, single, room⟩
    exact ⟨inputs, fun operation member tensor writes =>
      (outputs operation member tensor writes).1, single, room⟩
  · intro sound
    exact ⟨sound.inputsKnown, fun operation member tensor writes =>
      ⟨sound.outputsKnown operation member tensor writes, by simp⟩, sound.singleWriter,
      sound.fanOut⟩

theorem head?_writers_eq_some_iff {tensors : List TensorId} {operations : List Operation}
    (sound : Sound tensors operations) {tensor : TensorId} {position : Nat} :
    (writers operations tensor).head? = some position ↔
      ∃ operation, operations[position]? = some operation ∧ operation.writes tensor = true := by
  have alone : ∀ first second, first < second → first ∈ writers operations tensor →
      second ∉ writers operations tensor := by
    intro first second before firstListed secondListed
    obtain ⟨earlier, earlierFound, earlierWrites⟩ := mem_positions.mp firstListed
    obtain ⟨later, laterFound, laterWrites⟩ := mem_positions.mp secondListed
    obtain ⟨firstBound, rfl⟩ := List.getElem?_eq_some_iff.mp earlierFound
    obtain ⟨secondBound, rfl⟩ := List.getElem?_eq_some_iff.mp laterFound
    have clash := List.pairwise_iff_getElem.mp sound.singleWriter first second firstBound
      secondBound before tensor earlierWrites
    rw [laterWrites] at clash
    cases clash
  rw [← mem_positions]
  change (writers operations tensor).head? = some position ↔ position ∈ writers operations tensor
  constructor
  · exact List.mem_of_mem_head?
  · intro listed
    have increasing : (writers operations tensor).Pairwise (· < ·) := positions_pairwise _ _
    cases found : writers operations tensor with
    | nil => simp [found] at listed
    | cons first rest =>
        rw [found] at listed increasing alone
        rcases List.mem_cons.mp listed with same | later
        · rw [same, List.head?_cons]
        · exact absurd listed
            (alone first position ((List.pairwise_cons.mp increasing).1 position later) (by simp))

/-- Position by position, the tensors with the given names. -/
def Named (tensors : List Tensor) (positions : List Nat) (names : List TensorId) : Prop :=
  List.Forall₂ (fun position name =>
    ∃ tensor, tensors[position]? = some tensor ∧ tensor.id = name) positions names

theorem locate_named {tensors : List Tensor} {names : List TensorId}
    (known : ∀ name ∈ names, name ∈ tensors.map fun tensor => tensor.id) :
    Named tensors (locate tensors names) names := by
  induction names with
  | nil => exact List.Forall₂.nil
  | cons name rest ih =>
      obtain ⟨first, others⟩ := List.forall_mem_cons.mp known
      have present : ∃ position,
          tensors.findIdx? (fun tensor => tensor.id = name) = some position := by
        obtain ⟨tensor, member, same⟩ := List.mem_map.mp first
        rw [← Option.isSome_iff_exists, List.findIdx?_isSome, List.any_eq_true]
        exact ⟨tensor, member, by simpa using same⟩
      obtain ⟨position, found⟩ := present
      have head : locate tensors (name :: rest) = position :: locate tensors rest := by
        simp [locate, found]
      rw [head]
      refine List.Forall₂.cons ?_ (ih others)
      obtain ⟨bound, same, _⟩ := List.findIdx?_eq_some_iff_getElem.mp found
      exact ⟨tensors[position], List.getElem?_eq_getElem bound, by simpa using same⟩

theorem Named.nodup {tensors : List Tensor} {positions : List Nat} {names : List TensorId}
    (named : Named tensors positions names) (unique : names.Nodup) : positions.Nodup := by
  induction named with
  | nil => exact List.nodup_nil
  | @cons position name positions names first rest ih =>
      obtain ⟨notLater, restUnique⟩ := List.nodup_cons.mp unique
      refine List.nodup_cons.mpr ⟨fun later => notLater ?_, ih restUnique⟩
      obtain ⟨tensor, found, same⟩ := first
      obtain ⟨other, listed, otherTensor, otherFound, otherSame⟩ := exists_of_forall₂ rest later
      rw [found] at otherFound
      cases otherFound
      rwa [← same, otherSame]

theorem position_eq_of_id_eq {tensors : List Tensor} (unique : (tensors.map Tensor.id).Nodup)
    {first second : Nat} {firstTensor secondTensor : Tensor}
    (firstFound : tensors[first]? = some firstTensor)
    (secondFound : tensors[second]? = some secondTensor)
    (same : firstTensor.id = secondTensor.id) : first = second := by
  have bound := (List.getElem?_eq_some_iff.mp firstFound).1
  refine (List.getElem?_inj (by simpa using bound) unique).mp ?_
  rw [List.getElem?_map, List.getElem?_map, firstFound, secondFound, Option.map_some,
    Option.map_some, same]

theorem Named.eq {tensors : List Tensor} {positions others : List Nat} {names : List TensorId}
    (named : Named tensors positions names) (othersNamed : Named tensors others names)
    (unique : (tensors.map Tensor.id).Nodup) : positions = others := by
  induction named generalizing others with
  | nil =>
      cases othersNamed
      rfl
  | cons first _ ih =>
      cases othersNamed with
      | cons otherFirst rest =>
          obtain ⟨tensor, found, same⟩ := first
          obtain ⟨other, otherFound, otherSame⟩ := otherFirst
          rw [ih rest, position_eq_of_id_eq unique found otherFound (same.trans otherSame.symm)]

theorem Named.mem_iff {tensors : List Tensor} {positions : List Nat} {names : List TensorId}
    (named : Named tensors positions names) (unique : (tensors.map Tensor.id).Nodup)
    {position : Nat} :
    position ∈ positions ↔
      ∃ tensor, tensors[position]? = some tensor ∧ tensor.id ∈ names := by
  constructor
  · intro member
    obtain ⟨name, listed, tensor, found, same⟩ := exists_of_forall₂ named member
    exact ⟨tensor, found, same ▸ listed⟩
  · rintro ⟨tensor, found, listed⟩
    obtain ⟨other, member, otherTensor, otherFound, same⟩ :=
      exists_of_forall₂ (List.Forall₂.flip named) listed
    exact position_eq_of_id_eq unique otherFound found same ▸ member

theorem Named.getElem?_iff {tensors : List Tensor} {positions : List Nat} {names : List TensorId}
    (named : Named tensors positions names) (unique : (tensors.map Tensor.id).Nodup)
    {place position : Nat} :
    positions[place]? = some position ↔
      ∃ tensor, tensors[position]? = some tensor ∧ names[place]? = some tensor.id := by
  induction named generalizing place with
  | nil => simp
  | cons first _ ih =>
      cases place with
      | succ place => simpa only [List.getElem?_cons_succ] using ih
      | zero =>
          obtain ⟨tensor, found, rfl⟩ := first
          simp only [List.getElem?_cons_zero, Option.some.injEq]
          constructor
          · rintro rfl
            exact ⟨tensor, found, rfl⟩
          · rintro ⟨other, otherFound, same⟩
            exact position_eq_of_id_eq unique found otherFound same

end Connections

end TensorGraph
