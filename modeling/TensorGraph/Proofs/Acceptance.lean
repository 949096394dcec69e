import TensorGraph.Proofs.Cycles
import TensorGraph.Proofs.Obtained
import TensorGraph.Proofs.Operations
import TensorGraph.Proofs.WellFormed

/-!
Which descriptors can be built into a graph. Apart from the places of group members, nothing that is
asked of the operations depends on the order in which they are listed.
-/

namespace TensorGraph

open Operation (ids)

namespace Operation

def Feeds (producer consumer : Operation) : Prop :=
  ∃ tensor, producer.writes tensor = true ∧ consumer.reads tensor = true

def FeedsWithin (operations : List Operation) (producer consumer : Operation) : Prop :=
  producer ∈ operations ∧ consumer ∈ operations ∧ producer.Feeds consumer

def Acyclic (operations : List Operation) : Prop :=
  ∀ operation, ¬Relation.TransGen (FeedsWithin operations) operation operation

theorem Acyclic.of_subset {operations others : List Operation} (acyclic : Acyclic operations)
    (inside : others ⊆ operations) : Acyclic others := by
  intro operation circle
  refine acyclic operation (Relation.TransGen.mono ?_ operation operation circle)
  rintro producer consumer ⟨producerListed, consumerListed, feeds⟩
  exact ⟨inside producerListed, inside consumerListed, feeds⟩

end Operation

namespace Connections

theorem countP_le_one_iff {α : Type} (condition : α → Bool) (items : List α) :
    items.countP condition ≤ 1 ↔
      items.Pairwise fun first second => condition first = true → condition second = false := by
  induction items with
  | nil => simp
  | cons item rest ih =>
      rw [List.countP_cons, List.pairwise_cons, ← ih]
      by_cases holds : condition item = true
      · have none : rest.countP condition = 0 ↔ ∀ other ∈ rest, condition other = false := by
          simp [List.countP_eq_zero]
        simp only [holds, if_true, forall_const, ← none]
        omega
      · simp [holds]

theorem pairwise_writes_iff {operations : List Operation} :
    (operations.Pairwise fun first second =>
        ∀ tensor, first.writes tensor = true → second.writes tensor = false) ↔
      ∀ tensor, operations.countP (fun operation => operation.writes tensor) ≤ 1 := by
  simp only [countP_le_one_iff, List.pairwise_iff_getElem]
  exact ⟨fun apart tensor first second firstBound secondBound before =>
      apart first second firstBound secondBound before tensor,
    fun apart first second firstBound secondBound before tensor =>
      apart tensor first second firstBound secondBound before⟩

theorem countP_eq_zero_of_unknown {tensors : List TensorId} {operations : List Operation}
    {uses : Operation → TensorId → Bool}
    (known : ∀ operation ∈ operations, ∀ tensor, uses operation tensor = true → tensor ∈ tensors)
    {tensor : TensorId} (unknown : tensor ∉ tensors) :
    operations.countP (fun operation => uses operation tensor) = 0 :=
  List.countP_eq_zero.mpr fun operation member isUsed =>
    unknown (known operation member tensor isUsed)

theorem Sound.perm {tensors : List TensorId} {operations others : List Operation}
    (sound : Sound tensors operations) (same : operations.Perm others) : Sound tensors others where
  inputsKnown operation member := sound.inputsKnown operation (same.mem_iff.mpr member)
  outputsKnown operation member := sound.outputsKnown operation (same.mem_iff.mpr member)
  singleWriter := by
    have counts := pairwise_writes_iff.mp sound.singleWriter
    refine pairwise_writes_iff.mpr fun tensor => ?_
    rw [← same.countP_eq]
    exact counts tensor
  fanOut tensor := by
    have count := sound.fanOut tensor
    rw [readers, length_positions] at count ⊢
    rwa [← same.countP_eq]

theorem Sound.of_sublist {tensors names : List TensorId} {operations kept : List Operation}
    (sound : Sound tensors operations) (selection : kept.Sublist operations)
    (named : ∀ operation ∈ kept, ∀ name ∈ tensors,
      operation.reads name = true ∨ operation.writes name = true → name ∈ names) :
    Sound names kept where
  inputsKnown operation member name reads :=
    named operation member name
      (sound.inputsKnown operation (selection.subset member) name reads) (Or.inl reads)
  outputsKnown operation member name writes :=
    named operation member name
      (sound.outputsKnown operation (selection.subset member) name writes) (Or.inr writes)
  singleWriter := sound.singleWriter.sublist selection
  fanOut name := by
    have count := sound.fanOut name
    rw [readers, length_positions] at count ⊢
    exact Nat.le_trans selection.countP_le count

end Connections

namespace Graph

section Connected

variable {tensors : List Tensor} {operations : List Operation}

theorem lists_connectedSources_iff
    (sound : Connections.Sound (tensors.map fun tensor => tensor.id) operations)
    {producer consumer : Nat} :
    (connectedSources tensors operations).Lists consumer producer ↔
      ∃ writer reader, operations[producer]? = some writer ∧ operations[consumer]? = some reader ∧
        writer.Feeds reader := by
  have named : ∀ reader ∈ operations, reader.isGroup = false →
      Connections.Named tensors (Connections.operationNode tensors reader).inputs reader.inputs := by
    intro reader member plain
    exact @connected_inputs default tensors operations [] sound
      (Connections.operationNode tensors reader) (List.mem_map_of_mem member) plain
  have produced : ∀ (position : Nat) (tensor : Tensor), tensors[position]? = some tensor →
      (((tensors.map (Connections.tensorNode operations))[position]?).bind TensorNode.producer =
          some producer ↔
        ∃ writer, operations[producer]? = some writer ∧ writer.writes tensor.id = true) := by
    intro position tensor found
    rw [List.getElem?_map, found]
    exact Connections.head?_writers_eq_some_iff sound
  constructor
  · rintro ⟨entries, listed, member⟩
    rw [connectedSources, sources, List.map_map, List.getElem?_map, Option.map_eq_some_iff] at listed
    obtain ⟨reader, found, same⟩ := listed
    subst same
    obtain ⟨position, isInput, written⟩ := List.mem_map.mp member
    cases isGroup : reader.isGroup with
    | true => simp [Connections.operationNode, isGroup] at isInput
    | false =>
        obtain ⟨name, listed, tensor, tensorFound, same⟩ :=
          exists_of_forall₂ (named reader (List.mem_of_getElem? found) isGroup) isInput
        obtain ⟨writer, writerFound, writes⟩ := (produced position tensor tensorFound).mp written
        exact ⟨writer, reader, writerFound, found, tensor.id, writes,
          Connections.reads_iff.mpr ⟨isGroup, same ▸ listed⟩⟩
  · rintro ⟨writer, reader, writerFound, found, name, writes, reads⟩
    obtain ⟨plain, listed⟩ := Connections.reads_iff.mp reads
    obtain ⟨position, isInput, tensor, tensorFound, same⟩ :=
      exists_of_forall₂ (named reader (List.mem_of_getElem? found) plain).flip listed
    subst same
    refine ⟨(Connections.operationNode tensors reader).inputs.map fun input =>
      ((tensors.map (Connections.tensorNode operations))[input]?).bind TensorNode.producer, ?_,
      List.mem_map.mpr ⟨position, isInput,
        (produced position tensor tensorFound).mpr ⟨writer, writerFound, writes⟩⟩⟩
    rw [connectedSources, sources, List.map_map, List.getElem?_map, found]
    rfl

theorem acyclic_connectedSources_iff
    (sound : Connections.Sound (tensors.map fun tensor => tensor.id) operations)
    (unique : (ids operations).Nodup) :
    (∀ node, ¬Relation.TransGen (connectedSources tensors operations).Lists node node) ↔
      Operation.Acyclic operations := by
  constructor
  · intro acyclic operation circle
    obtain ⟨node, around⟩ := circle_of_simulation
      (fun producer consumer =>
        (connectedSources tensors operations).Lists consumer producer)
      (fun operation position => operations[position]? = some operation)
      (fun producer _ feeds => List.mem_iff_getElem?.mp feeds.1)
      (fun producer consumer position feeds found => by
        obtain ⟨next, nextFound⟩ := List.mem_iff_getElem?.mp feeds.2.1
        exact ⟨next, nextFound, (lists_connectedSources_iff sound).mpr
          ⟨producer, consumer, found, nextFound, feeds.2.2⟩⟩)
      (fun operation _ position other _ found otherFound => by
        have bound := (List.getElem?_eq_some_iff.mp found).1
        exact (List.getElem?_inj bound unique.of_map).mp (found.trans otherFound.symm)) circle
    exact acyclic node (Relation.transGen_swap.mp around)
  · intro acyclic node circle
    obtain ⟨operation, around⟩ := circle_of_simulation
      (fun consumer producer => Operation.FeedsWithin operations producer consumer)
      (fun position operation => operations[position]? = some operation)
      (fun consumer producer lists => by
        obtain ⟨_, reader, _, found, _⟩ := (lists_connectedSources_iff sound).mp lists
        exact ⟨reader, found⟩)
      (fun consumer producer reader lists found => by
        obtain ⟨writer, other, writerFound, otherFound, feeds⟩ :=
          (lists_connectedSources_iff sound).mp lists
        rw [found] at otherFound
        cases otherFound
        exact ⟨writer, writerFound, List.mem_of_getElem? writerFound, List.mem_of_getElem? found,
          feeds⟩)
      (fun position _ operation other _ found otherFound =>
        Option.some.inj (found.symm.trans otherFound))
      circle
    exact acyclic operation (Relation.transGen_swap.mp around)

end Connected

theorem connectedSources_closed {tensors : List Tensor} {operations : List Operation}
    (sound : Connections.Sound (tensors.map fun tensor => tensor.id) operations) :
    (connectedSources tensors operations).Closed := by
  intro consumer producer lists
  obtain ⟨writer, _, found, _⟩ := (lists_connectedSources_iff sound).mp lists
  rw [length_connectedSources]
  exact (List.getElem?_eq_some_iff.mp found).1

/-- The conditions on groups, on connections and on circles are put to the arranged operations, but
it makes no difference to put them to the operations as they are listed. -/
theorem exists_build_iff {tensors : List Tensor} {operations : List Operation}
    {capacity : Capacity} :
    (∃ graph, build tensors operations capacity = .ok graph) ↔
      Acceptable tensors operations capacity ∧ Grouping.Sound operations ∧
        Connections.Sound (tensors.map fun tensor => tensor.id) operations ∧
        Operation.Acyclic operations := by
  constructor
  · rintro ⟨graph, built⟩
    obtain ⟨acceptable, arranged, grouped, checked, known, ranked, _⟩ := build_ok_iff.mp built
    obtain ⟨_, same⟩ := arrangeGroups_ok acceptable.operationIds grouped
    have unique : (ids arranged).Nodup := (same.map _).nodup_iff.mpr acceptable.operationIds
    have sound := (Connections.check_ok_iff tensors arranged).mp checked
    have acyclic := (ranked_iff_acyclic (connectedSources_closed sound)).mp ⟨known, ranked⟩
    rw [acyclic_connectedSources_iff sound unique] at acyclic
    simp only [arrangeGroups, seq_eq_ok_iff] at grouped
    exact ⟨acceptable, (Grouping.check_ok_iff operations).mp grouped.1, sound.perm same,
      acyclic.of_subset same.symm.subset⟩
  · rintro ⟨acceptable, groups, sound, acyclic⟩
    have checked := (Grouping.check_ok_iff operations).mpr groups
    have grouped : arrangeGroups operations = .ok (Grouping.layout operations) := by
      simp only [arrangeGroups, seq_eq_ok_iff]
      exact ⟨checked, rfl⟩
    have same := (Grouping.layout_perm acceptable.operationIds groups).symm
    have unique : (ids (Grouping.layout operations)).Nodup :=
      (same.map _).nodup_iff.mp acceptable.operationIds
    have arrangedSound := sound.perm same
    obtain ⟨known, ranked⟩ := (ranked_iff_acyclic (connectedSources_closed arrangedSound)).mpr
      ((acyclic_connectedSources_iff arrangedSound unique).mpr (acyclic.of_subset same.symm.subset))
    exact ⟨_, build_ok_iff.mpr ⟨acceptable, _, grouped,
      (Connections.check_ok_iff _ _).mpr arrangedSound, known, ranked, rfl⟩⟩

end Graph

namespace Graph

variable {tensors : List Tensor} {operations : List Operation} {capacity : Capacity}
  {graph : Graph}

theorem acyclic_of_build (built : build tensors operations capacity = .ok graph) :
    Operation.Acyclic graph.operationList := by
  obtain ⟨_, _, _, acyclic⟩ := exists_build_iff.mp ⟨graph, build_descriptors built⟩
  exact acyclic

theorem sound_of_build (built : build tensors operations capacity = .ok graph) :
    Connections.Sound (graph.tensorList.map fun tensor => tensor.id) graph.operationList := by
  obtain ⟨_, _, sound, _⟩ := exists_build_iff.mp ⟨graph, build_descriptors built⟩
  exact sound

end Graph

namespace Grouping

theorem placed_iff {operations : List Operation} :
    Placed operations ↔
      ∀ (header : Nat) (marker : Operation), operations[header]? = some marker →
        ∀ id ∈ marker.memberIds, ∃ (position : Nat) (member : Operation),
          header < position ∧ operations[position]? = some member ∧ member.id = id := by
  induction operations with
  | nil => simp [Placed]
  | cons operation rest ih =>
      rw [Placed, ih]
      constructor
      · rintro ⟨here, behind⟩ header marker found id listed
        cases header with
        | zero =>
            cases found
            obtain ⟨member, present, same⟩ := List.mem_map.mp (here id listed)
            obtain ⟨position, memberFound⟩ := List.mem_iff_getElem?.mp present
            exact ⟨position + 1, member, by omega, memberFound, same⟩
        | succ header =>
            obtain ⟨position, member, before, memberFound, same⟩ :=
              behind header marker found id listed
            exact ⟨position + 1, member, by omega, memberFound, same⟩
      · intro behind
        refine ⟨fun id listed => ?_, fun header marker found id listed => ?_⟩
        · obtain ⟨position, member, before, memberFound, same⟩ := behind 0 operation rfl id listed
          obtain ⟨position, rfl⟩ := Nat.exists_eq_succ_of_ne_zero (by omega : position ≠ 0)
          exact List.mem_map.mpr ⟨member, List.mem_of_getElem? memberFound, same⟩
        · obtain ⟨position, member, before, memberFound, same⟩ :=
            behind (header + 1) marker found id listed
          obtain ⟨position, rfl⟩ := Nat.exists_eq_succ_of_ne_zero (by omega : position ≠ 0)
          exact ⟨position, member, by omega, memberFound, same⟩

theorem noMarker_iff {operations : List Operation} :
    (∀ member ∈ claimed operations, member ∉ markers operations) ↔
      ∀ group ∈ operations, ∀ member ∈ operations, member.id ∈ group.memberIds →
        member.isGroup = false := by
  constructor
  · intro noMarker group groupListed member memberListed listed
    by_contra isGroup
    rw [Bool.not_eq_false] at isGroup
    exact noMarker member.id (mem_claimed.mpr ⟨group, groupListed, listed⟩)
      (mem_markers.mpr ⟨member, memberListed, isGroup, rfl⟩)
  · intro plain id isClaimed isMarker
    obtain ⟨group, groupListed, listed⟩ := mem_claimed.mp isClaimed
    obtain ⟨marker, markerListed, isGroup, same⟩ := mem_markers.mp isMarker
    subst same
    rw [plain group groupListed marker markerListed listed] at isGroup
    cases isGroup

end Grouping

namespace Operation

theorem Constructible.fitsGroup {operation : Operation}
    (constructible : operation.Constructible) (isGroup : operation.isGroup = true) :
    FitsGroup operation.memberIds operation.id := by
  rw [memberIds_of_isGroup isGroup]
  rcases constructible with ⟨_, _, _, made⟩ | ⟨_, _, _, created⟩
  · exact (group_ok_iff.mp made).1
  · exact absurd created (not_create_of_isGroup isGroup)

theorem Constructible.nodup_memberIds {operation : Operation}
    (constructible : operation.Constructible) : operation.memberIds.Nodup := by
  cases isGroup : operation.isGroup with
  | false => simp [memberIds_of_not_isGroup isGroup]
  | true => exact (constructible.fitsGroup isGroup).once

end Operation

namespace Connections

theorem sound_iff {tensors : List Tensor} {operations : List Operation} :
    Sound (tensors.map fun tensor => tensor.id) operations ↔
      (∀ operation ∈ operations, operation.isGroup = false →
        ∀ name ∈ operation.inputs ++ operation.outputs, ∃ tensor ∈ tensors, tensor.id = name) ∧
      (∀ tensor ∈ tensors,
        operations.countP (fun operation => operation.writes tensor.id) ≤ 1) ∧
      ∀ tensor ∈ tensors,
        operations.countP (fun operation => operation.reads tensor.id) ≤ Limit.fanOut := by
  constructor
  · intro sound
    refine ⟨fun operation member plain name listed => ?_, fun tensor _ =>
      pairwise_writes_iff.mp sound.singleWriter tensor.id, fun tensor _ => ?_⟩
    · rw [← List.mem_map]
      rcases List.mem_append.mp listed with isInput | isOutput
      · exact sound.inputsKnown operation member name (reads_iff.mpr ⟨plain, isInput⟩)
      · exact sound.outputsKnown operation member name (writes_iff.mpr ⟨plain, isOutput⟩)
    · rw [← length_positions]
      exact sound.fanOut tensor.id
  · rintro ⟨known, single, room⟩
    have inputsKnown : ∀ operation ∈ operations, ∀ name, operation.reads name = true →
        name ∈ tensors.map fun tensor => tensor.id := by
      intro operation member name reads
      obtain ⟨plain, listed⟩ := reads_iff.mp reads
      exact List.mem_map.mpr
        (known operation member plain name (List.mem_append_left _ listed))
    have outputsKnown : ∀ operation ∈ operations, ∀ name, operation.writes name = true →
        name ∈ tensors.map fun tensor => tensor.id := by
      intro operation member name writes
      obtain ⟨plain, listed⟩ := writes_iff.mp writes
      exact List.mem_map.mpr
        (known operation member plain name (List.mem_append_right _ listed))
    -- Counts of names without a tensor are zero, since nobody reads or writes them.
    refine ⟨inputsKnown, outputsKnown, pairwise_writes_iff.mpr fun name => ?_, fun name => ?_⟩
    · by_cases isTensor : name ∈ tensors.map fun tensor => tensor.id
      · obtain ⟨tensor, member, same⟩ := List.mem_map.mp isTensor
        exact same ▸ single tensor member
      · simp [countP_eq_zero_of_unknown outputsKnown isTensor]
    · rw [readers, length_positions]
      by_cases isTensor : name ∈ tensors.map fun tensor => tensor.id
      · obtain ⟨tensor, member, same⟩ := List.mem_map.mp isTensor
        exact same ▸ room tensor member
      · simp [countP_eq_zero_of_unknown inputsKnown isTensor]

end Connections

namespace Graph

structure Buildable (tensors : List Tensor) (operations : List Operation) (capacity : Capacity) :
    Prop where
  tensorCount : tensors.length ≤ capacity.tensors.toNat
  operationCount : operations.length ≤ capacity.operations.toNat
  tensorsValid : ∀ tensor ∈ tensors, tensor.validate = .ok ()
  tensorIds : (tensors.map Tensor.id).Nodup
  operationsConstructible : ∀ operation ∈ operations, operation.Constructible
  operationIds : (ids operations).Nodup
  noNestedGroups : ∀ group ∈ operations, ∀ member ∈ operations, member.id ∈ group.memberIds →
    member.isGroup = false
  membersOnce : operations.Pairwise fun first second =>
    List.Disjoint first.memberIds second.memberIds
  membersBehind : ∀ (header : Nat) (marker : Operation), operations[header]? = some marker →
    ∀ id ∈ marker.memberIds, ∃ (position : Nat) (member : Operation),
      header < position ∧ operations[position]? = some member ∧ member.id = id
  namesKnown : ∀ operation ∈ operations, operation.isGroup = false →
    ∀ name ∈ operation.inputs ++ operation.outputs, ∃ tensor ∈ tensors, tensor.id = name
  singleProducer : ∀ tensor ∈ tensors,
    operations.countP (fun operation => operation.writes tensor.id) ≤ 1
  fanOut : ∀ tensor ∈ tensors,
    operations.countP (fun operation => operation.reads tensor.id) ≤ Limit.fanOut
  acyclic : Operation.Acyclic operations

theorem buildable_iff {tensors : List Tensor} {operations : List Operation}
    {capacity : Capacity} :
    Buildable tensors operations capacity ↔
      Acceptable tensors operations capacity ∧ Grouping.Sound operations ∧
        Connections.Sound (tensors.map fun tensor => tensor.id) operations ∧
        Operation.Acyclic operations := by
  constructor
  · intro buildable
    refine ⟨?_, ?_, ?_, buildable.acyclic⟩
    · exact {
        buildable with
        operationsValid := fun operation member =>
          Operation.validate_ok_iff.mpr (buildable.operationsConstructible operation member) }
    · have once : (Grouping.claimed operations).Nodup := List.nodup_flatMap.mpr
        ⟨fun operation member =>
          (buildable.operationsConstructible operation member).nodup_memberIds,
          buildable.membersOnce⟩
      exact ⟨once, Grouping.noMarker_iff.mpr buildable.noNestedGroups,
        Grouping.placed_iff.mpr buildable.membersBehind⟩
    · exact Connections.sound_iff.mpr
        ⟨buildable.namesKnown, buildable.singleProducer, buildable.fanOut⟩
  · rintro ⟨acceptable, groups, sound, acyclic⟩
    obtain ⟨namesKnown, singleProducer, fanOut⟩ := Connections.sound_iff.mp sound
    exact {
      acceptable with
      operationsConstructible := fun operation member =>
        Operation.validate_ok_iff.mp (acceptable.operationsValid operation member)
      noNestedGroups := Grouping.noMarker_iff.mp groups.noMarker
      membersOnce := (List.nodup_flatMap.mp groups.claimedOnce).2
      membersBehind := Grouping.placed_iff.mp groups.placed
      namesKnown
      singleProducer
      fanOut
      acyclic }

end Graph

end TensorGraph
