import TensorGraph.Operation
import TensorGraph.Proofs.Results

/-! The check on single operations: it passes those that their constructor would have built. -/

namespace TensorGraph

theorem checkWithin_ok_iff {resource : Resource} {limit requested : Nat} :
    checkWithin resource limit requested = .ok () ↔ requested ≤ limit := by
  simp only [checkWithin]
  split
  · rename_i beyond
    simp [Nat.not_le_of_lt beyond]
  · rename_i within
    simp [Nat.le_of_not_lt within]

namespace Operation

theorem outputFault_eq_none_iff {inputs earlier outputs : List TensorId} :
    outputFault inputs earlier outputs = none ↔
      outputs.Nodup ∧ ∀ output ∈ outputs, output ∉ earlier ∧ output ∉ inputs := by
  induction outputs generalizing earlier with
  | nil => simp [outputFault]
  | cons output rest ih =>
      rw [outputFault, List.nodup_cons, List.forall_mem_cons]
      split
      · rename_i repeated
        simp [repeated]
      · rename_i new
        split
        · rename_i isRead
          simp [isRead]
        · rename_i notRead
          rw [ih]
          constructor
          · rintro ⟨unique, fresh⟩
            refine ⟨⟨fun later => ?_, unique⟩, ⟨new, notRead⟩, fun other member => ?_⟩
            · exact (fresh output later).1 (by simp)
            · exact ⟨fun before => (fresh other member).1 (by simp [before]),
                (fresh other member).2⟩
          · rintro ⟨⟨notLater, unique⟩, _, fresh⟩
            refine ⟨unique, fun other member => ⟨?_, (fresh other member).2⟩⟩
            rw [List.mem_append, List.mem_singleton]
            rintro (before | same)
            · exact (fresh other member).1 before
            · exact notLater (same ▸ member)

structure Computes (operation : Operation) : Prop where
  typed : ∃ elementType, operation.elementType = some elementType
  writesSomething : operation.outputs ≠ []
  outputsOnce : operation.outputs.Nodup
  notRead : ∀ output ∈ operation.outputs, output ∉ operation.inputs

structure Equipped (kind : OperationKind) (elementType : ElementType) (inputs : Nat)
    (parameters : Parameters) : Prop where
  enough : kind.minInputs ≤ inputs
  atMost : inputs ≤ kind.maxInputs
  parameters : parameters.length.toNat = kind.parameterSize elementType

theorem fault_eq_none_iff {kind : OperationKind} {elementType : ElementType}
    {inputs outputs : List TensorId} {parameters : Parameters} :
    fault kind elementType inputs outputs parameters = none ↔
      Equipped kind elementType inputs.length parameters ∧
        outputs ≠ [] ∧ outputs.Nodup ∧ ∀ output ∈ outputs, output ∉ inputs := by
  rw [fault]
  split
  · rename_i wrongCount
    simp only [reduceCtorEq, false_iff]
    exact fun ⟨equipped, _⟩ => wrongCount.elim (Nat.not_lt_of_le equipped.enough)
      (Nat.not_lt_of_le equipped.atMost)
  · rename_i rightCount
    rw [not_or, Nat.not_lt, Nat.not_lt] at rightCount
    split
    · rename_i empty
      simp [List.isEmpty_iff.mp empty]
    · rename_i written
      rw [List.isEmpty_iff] at written
      cases found : outputFault inputs [] outputs with
      | some repeated =>
          simp only [reduceCtorEq, false_iff]
          rintro ⟨_, _, once, apart⟩
          rw [outputFault_eq_none_iff.mpr ⟨once, fun output listed =>
            ⟨List.not_mem_nil, apart output listed⟩⟩] at found
          cases found
      | none =>
          obtain ⟨once, apart⟩ := outputFault_eq_none_iff.mp found
          have notRead := fun output listed => (apart output listed).2
          by_cases sameLength : parameters.length.toNat = kind.parameterSize elementType
          · simp only [sameLength, if_true, true_iff]
            exact ⟨⟨rightCount.1, rightCount.2, sameLength⟩, written, once, notRead⟩
          · simp only [sameLength, if_false, reduceCtorEq, false_iff]
            exact fun ⟨equipped, _⟩ => sameLength equipped.parameters

theorem create_ok_iff {id : OperationId} {kind : OperationKind} {elementType : ElementType}
    {inputs outputs : List TensorId} {parameters : Parameters} {operation : Operation} :
    create id kind elementType inputs outputs parameters = .ok operation ↔
      kind.isGroup = false ∧ inputs.length ≤ Limit.inputs ∧ outputs.length ≤ Limit.outputs ∧
        fault kind elementType inputs outputs parameters = none ∧
        operation = ⟨⟨kind, some elementType, inputs, outputs, parameters⟩, id⟩ := by
  rw [create]
  cases isMarker : kind.isGroup with
  | true =>
      simp only [if_true, Bool.true_eq_false, false_and, iff_false]
      intro created
      cases created
  | false =>
      simp only [Bool.false_eq_true, if_false, seq_eq_ok_iff, checkWithin_ok_iff, true_and]
      refine and_congr_right fun _ => and_congr_right fun _ => ?_
      cases fault kind elementType inputs outputs parameters with
      | some found => simp only [reduceCtorEq, false_and]
      | none => simp [pure, Except.pure, eq_comm]

theorem repeatedMember_eq_none_iff {group : OperationId} {earlier members : List OperationId} :
    repeatedMember group earlier members = none ↔
      members.Nodup ∧ ∀ member ∈ members, member ∉ earlier ∧ member ≠ group := by
  induction members generalizing earlier with
  | nil => simp [repeatedMember]
  | cons member rest ih =>
      rw [repeatedMember, List.nodup_cons, List.forall_mem_cons]
      by_cases repeated : member ∈ earlier ∨ member = group
      · rw [if_pos repeated]
        simp only [reduceCtorEq, false_iff]
        rintro ⟨_, ⟨new, other⟩, _⟩
        exact repeated.elim new other
      · rw [if_neg repeated, ih]
        rw [not_or] at repeated
        constructor
        · rintro ⟨unique, fresh⟩
          refine ⟨⟨fun later => (fresh member later).1 (by simp), unique⟩, repeated, ?_⟩
          exact fun other listed => ⟨fun before => (fresh other listed).1 (by simp [before]),
            (fresh other listed).2⟩
        · rintro ⟨⟨notLater, unique⟩, _, fresh⟩
          refine ⟨unique, fun other listed => ⟨?_, (fresh other listed).2⟩⟩
          rw [List.mem_append, List.mem_singleton]
          rintro (before | same)
          · exact (fresh other listed).1 before
          · exact notLater (same ▸ listed)

/-- What the constructor of groups asks of the members. -/
structure FitsGroup (members : List OperationId) (group : OperationId) : Prop where
  atLeastTwo : 2 ≤ members.length
  within : members.length ≤ Limit.inputs
  once : members.Nodup
  notItself : group ∉ members

instance (members : List OperationId) (group : OperationId) :
    Decidable (FitsGroup members group) :=
  decidable_of_iff (2 ≤ members.length ∧ members.length ≤ Limit.inputs ∧ members.Nodup ∧
      group ∉ members)
    ⟨fun ⟨atLeastTwo, within, once, notItself⟩ => ⟨atLeastTwo, within, once, notItself⟩,
      fun fits => ⟨fits.atLeastTwo, fits.within, fits.once, fits.notItself⟩⟩

theorem group_ok_iff {id : OperationId} {members : List OperationId} {pinned : Bool}
    {operation : Operation} :
    group id members pinned = .ok operation ↔ FitsGroup members id ∧
      operation = ⟨⟨.group pinned, none, members, [], .empty⟩, id⟩ := by
  have unrepeated : repeatedMember id [] members = none ↔ members.Nodup ∧ id ∉ members := by
    rw [repeatedMember_eq_none_iff]
    refine and_congr_right fun _ => ⟨fun fresh listed => (fresh id listed).2 rfl, ?_⟩
    exact fun absent member listed => ⟨List.not_mem_nil, fun same => absent (same ▸ listed)⟩
  rw [group, seq_eq_ok_iff, checkWithin_ok_iff]
  by_cases few : members.length < 2
  · rw [if_pos few]
    refine ⟨fun ⟨_, made⟩ => ?_, fun ⟨fits, _⟩ => absurd fits.atLeastTwo (by omega)⟩
    cases made
  · rw [if_neg few]
    cases repeated : repeatedMember id [] members with
    | some member =>
        refine ⟨fun ⟨_, made⟩ => ?_, fun ⟨fits, _⟩ => ?_⟩
        · cases made
        · rw [unrepeated.mpr ⟨fits.once, fits.notItself⟩] at repeated
          cases repeated
    | none =>
        obtain ⟨once, notItself⟩ := unrepeated.mp repeated
        constructor
        · rintro ⟨within, made⟩
          cases made
          exact ⟨⟨by omega, within, once, notItself⟩, rfl⟩
        · rintro ⟨fits, rfl⟩
          exact ⟨fits.within, rfl⟩

/-- The constructor for the kind of the operation takes what the operation holds. -/
def Constructible (operation : Operation) : Prop :=
  (∃ pinned made, operation.kind = .group pinned ∧
    group operation.id operation.inputs pinned = .ok made) ∨
  ∃ elementType made, operation.elementType = some elementType ∧
    create operation.id operation.kind elementType operation.inputs operation.outputs
      operation.parameters = .ok made

theorem not_create_of_isGroup {id : OperationId} {kind : OperationKind}
    {elementType : ElementType} {inputs outputs : List TensorId} {parameters : Parameters}
    {operation : Operation} (isMarker : kind.isGroup = true) :
    create id kind elementType inputs outputs parameters ≠ .ok operation := by
  rw [create, if_pos isMarker]
  intro created
  cases created

theorem validate_ok_iff {operation : Operation} :
    operation.validate = .ok () ↔ operation.Constructible := by
  rw [validate, Constructible]
  split
  · rename_i pinned isMarker
    rw [discard_eq_ok_iff]
    constructor
    · rintro ⟨made, built⟩
      exact Or.inl ⟨pinned, made, isMarker, built⟩
    · rintro (⟨other, made, sameKind, built⟩ | ⟨_, _, _, created⟩)
      · rw [isMarker] at sameKind
        cases sameKind
        exact ⟨made, built⟩
      · exact absurd created (not_create_of_isGroup (by rw [isMarker]; rfl))
  · rename_i notMarker
    cases sameType : operation.elementType with
    | none =>
        simp only [reduceCtorEq, false_and, exists_false, or_false, false_iff]
        rintro ⟨pinned, _, isMarker, _⟩
        exact notMarker pinned isMarker
    | some elementType =>
        simp only [discard_eq_ok_iff, Option.some.injEq, exists_and_left, exists_eq_left']
        refine ⟨Or.inr, fun either => either.resolve_left ?_⟩
        rintro ⟨pinned, isMarker, _⟩
        exact notMarker pinned isMarker

theorem exists_faultless_of_validate {operation : Operation} (valid : operation.validate = .ok ())
    (plain : operation.isGroup = false) :
    ∃ elementType, operation.elementType = some elementType ∧
      fault operation.kind elementType operation.inputs operation.outputs operation.parameters =
        none := by
  rcases validate_ok_iff.mp valid with ⟨_, _, isMarker, _⟩ | ⟨elementType, _, sameType, created⟩
  · rw [isGroup, isMarker] at plain
    cases plain
  · obtain ⟨_, _, _, faultless, _⟩ := create_ok_iff.mp created
    exact ⟨elementType, sameType, faultless⟩

theorem computes_of_validate {operation : Operation} (valid : operation.validate = .ok ())
    (plain : operation.isGroup = false) : operation.Computes := by
  obtain ⟨elementType, sameType, faultless⟩ := exists_faultless_of_validate valid plain
  obtain ⟨_, written, unique, apart⟩ := fault_eq_none_iff.mp faultless
  exact ⟨⟨elementType, sameType⟩, written, unique, apart⟩

theorem exists_equipped_of_validate {operation : Operation} (valid : operation.validate = .ok ())
    (plain : operation.isGroup = false) :
    ∃ elementType, operation.elementType = some elementType ∧
      Equipped operation.kind elementType operation.inputs.length operation.parameters := by
  obtain ⟨elementType, sameType, faultless⟩ := exists_faultless_of_validate valid plain
  exact ⟨elementType, sameType, (fault_eq_none_iff.mp faultless).1⟩

end Operation

end TensorGraph
