import TensorGraph.Kernel.Matrix
import TensorGraph.Proofs.Tensors

/-!
The kernels overwrite their output. Whether one finishes, and what it leaves when it does, depends on
the length of the output but on nothing that was in it before.
-/

namespace TensorGraph

namespace Kernel

variable {α : Type}

structure Overwrites (length : Nat) (kernel : List α → Progress α) : Prop where
  keepsLength : ∀ before, before.length = length → (kernel before).contents.length = length
  sameFault : ∀ before other, before.length = length → other.length = length →
    (kernel before).fault = (kernel other).fault
  sameContents : ∀ before other, before.length = length → other.length = length →
    (kernel before).fault = none → (kernel before).contents = (kernel other).contents

namespace Overwrites

variable {length : Nat}

theorem of_eq {kernel known : List α → Progress α} (overwrites : Overwrites length known)
    (same : ∀ before, before.length = length → kernel before = known before) :
    Overwrites length kernel := by
  constructor
  case keepsLength =>
    intro before beforeLength
    rw [same before beforeLength]
    exact overwrites.keepsLength before beforeLength
  case sameFault =>
    intro before other beforeLength otherLength
    rw [same before beforeLength, same other otherLength]
    exact overwrites.sameFault before other beforeLength otherLength
  case sameContents =>
    intro before other beforeLength otherLength
    rw [same before beforeLength, same other otherLength]
    exact overwrites.sameContents before other beforeLength otherLength

theorem stopped (fault : KernelFault) :
    Overwrites length fun before : List α => .stopped before fault where
  keepsLength _ beforeLength := beforeLength
  sameFault _ _ _ _ := rfl
  sameContents _ _ _ _ finished := by cases finished

theorem constant {progress : Progress α} (fitting : progress.contents.length = length) :
    Overwrites length fun _ => progress where
  keepsLength _ _ := fitting
  sameFault _ _ _ _ := rfl
  sameContents _ _ _ _ _ := rfl

end Overwrites

/-- A computation that yields contents of the given length, the same from all earlier contents of
that length. -/
structure Replaces (length : Nat) (computation : List α → Except KernelFault (List α)) : Prop where
  fitting : ∀ before contents, before.length = length → computation before = .ok contents →
    contents.length = length
  same : ∀ before other, before.length = length → other.length = length →
    computation before = computation other

namespace Replaces

variable {length : Nat} {computation : List α → Except KernelFault (List α)}

theorem overwrites (replaces : Replaces length computation) :
    Overwrites length fun before => .ofExcept before (computation before) := by
  constructor
  case keepsLength =>
    intro before beforeLength
    cases computed : computation before with
    | error fault => exact beforeLength
    | ok contents => exact replaces.fitting before contents beforeLength computed
  case sameFault =>
    intro before other beforeLength otherLength
    rw [replaces.same before other beforeLength otherLength]
    cases computation other with
    | error fault => rfl
    | ok contents => rfl
  case sameContents =>
    intro before other beforeLength otherLength finished
    rw [replaces.same before other beforeLength otherLength] at finished ⊢
    cases computed : computation other with
    | error fault =>
        rw [computed] at finished
        cases finished
    | ok contents => rfl

/-- The earlier contents are used for their length only. -/
theorem of_constant {result : Except KernelFault (List α)}
    (constant : ∀ before, before.length = length → computation before = result)
    (fitting : ∀ contents, result = .ok contents → contents.length = length) :
    Replaces length computation := by
  constructor
  case fitting =>
    intro before contents beforeLength computed
    exact fitting contents ((constant before beforeLength).symm.trans computed)
  case same =>
    intro before other beforeLength otherLength
    rw [constant before beforeLength, constant other otherLength]

theorem of_length (task : Nat → Except KernelFault (List α))
    (fitting : ∀ contents, task length = .ok contents → contents.length = length) :
    Replaces length fun before => task before.length :=
  of_constant (fun _ beforeLength => congrArg task beforeLength) fitting

theorem bind {β : Type} {first : Except KernelFault β}
    {next : β → List α → Except KernelFault (List α)}
    (replaces : ∀ value, first = .ok value → Replaces length (next value)) :
    Replaces length fun before => first >>= fun value => next value before := by
  cases computed : first with
  | error fault => exact of_constant (fun _ _ => rfl) (fun _ impossible => by cases impossible)
  | ok value => exact replaces value computed

theorem error (fault : KernelFault) :
    Replaces length fun _ => (.error fault : Except KernelFault (List α)) :=
  of_constant (fun _ _ => rfl) fun _ impossible => by cases impossible

theorem ite {condition : Prop} [Decidable condition]
    {left right : List α → Except KernelFault (List α)}
    (leftReplaces : condition → Replaces length left)
    (rightReplaces : ¬condition → Replaces length right) :
    Replaces length fun before => if condition then left before else right before := by
  by_cases holds : condition
  · simpa only [holds, if_true] using leftReplaces holds
  · simpa only [holds, if_false] using rightReplaces holds

end Replaces

theorem length_of_operandOfLength {operands : List (List α)} {position length : Nat}
    {operand : List α} (found : operandOfLength operands position length = .ok operand) :
    operand.length = length := by
  simp only [operandOfLength, bind_eq_ok_iff] at found
  obtain ⟨candidate, _, checked⟩ := found
  split at checked
  · rename_i fitting
    cases checked
    exact fitting
  · cases checked

section Elementwise

variable {function : α → α → Except KernelFault α} {length : Nat}

theorem length_combine (elements operands : List α) :
    (combine function elements operands).contents.length = elements.length := by
  induction elements generalizing operands with
  | nil => rfl
  | cons element elements ih =>
      cases operands with
      | nil => rfl
      | cons operand operands =>
          rw [combine]
          split
          · rfl
          · rw [List.length_cons, ih, List.length_cons]

theorem length_combineAll (position : Nat) (operands : List (List α)) (output : List α) :
    (combineAll function position operands output).contents.length = output.length := by
  induction operands generalizing position output with
  | nil => rfl
  | cons operand operands ih =>
      rw [combineAll]
      split
      · rw [Progress.andThen]
        split
        · exact length_combine output operand
        · rw [ih, length_combine]
      · rfl

theorem fold_overwrites (operands : List (List α)) :
    Overwrites length (fold function operands) := by
  cases found : operandOfLength operands 0 length with
  | error fault =>
      refine (Overwrites.stopped fault).of_eq fun before beforeLength => ?_
      rw [fold, beforeLength, found]
  | ok first =>
      have fitting : (combineAll function 1 (operands.drop 1) first).contents.length = length := by
        rw [length_combineAll]
        exact length_of_operandOfLength found
      refine (Overwrites.constant fitting).of_eq fun before beforeLength => ?_
      rw [fold, beforeLength, found]

theorem combine_alike (value : α → Except KernelFault α) {operand before other : List α}
    (beforeLength : before.length = operand.length) (otherLength : other.length = operand.length) :
    (combine (fun _ element => value element) before operand).fault =
        (combine (fun _ element => value element) other operand).fault ∧
      ((combine (fun _ element => value element) before operand).fault = none →
        (combine (fun _ element => value element) before operand).contents =
          (combine (fun _ element => value element) other operand).contents) := by
  induction operand generalizing before other with
  | nil =>
      rw [List.length_eq_zero_iff.mp beforeLength, List.length_eq_zero_iff.mp otherLength]
      exact ⟨rfl, fun _ => rfl⟩
  | cons element operand ih =>
      obtain ⟨first, before, rfl⟩ := List.exists_cons_of_length_eq_add_one beforeLength
      obtain ⟨second, other, rfl⟩ := List.exists_cons_of_length_eq_add_one otherLength
      rw [combine, combine]
      cases value element with
      | error fault => exact ⟨rfl, fun finished => by cases finished⟩
      | ok result =>
          have rest := ih (Nat.succ.inj beforeLength) (Nat.succ.inj otherLength)
          exact ⟨rest.1, fun finished => congrArg (result :: ·) (rest.2 finished)⟩

theorem combine_overwrites (value : α → Except KernelFault α) (operand : List α) :
    Overwrites operand.length fun before =>
      combine (fun _ element => value element) before operand where
  keepsLength _ beforeLength := (length_combine _ _).trans beforeLength
  sameFault _ _ beforeLength otherLength := (combine_alike value beforeLength otherLength).1
  sameContents _ _ beforeLength otherLength := (combine_alike value beforeLength otherLength).2

theorem mapOperand_overwrites (value : α → Except KernelFault α) (operands : List (List α)) :
    Overwrites length (mapOperand value operands) := by
  cases found : operandOfLength operands 0 length with
  | error fault =>
      refine (Overwrites.stopped fault).of_eq fun before beforeLength => ?_
      rw [mapOperand, beforeLength, found]
  | ok operand =>
      have overwrites := combine_overwrites value operand
      rw [length_of_operandOfLength found] at overwrites
      refine overwrites.of_eq fun before beforeLength => ?_
      rw [mapOperand, beforeLength, found]

theorem withScalar_overwrites (scalar : Option α) (operands : List (List α)) :
    Overwrites length (withScalar function scalar operands) := by
  cases scalar with
  | none => exact Overwrites.stopped (.computation .missingScalar)
  | some value => exact mapOperand_overwrites (fun element => function element value) operands

theorem copy_overwrites (operands : List (List α)) : Overwrites length (copy operands) :=
  (Replaces.of_length (operandOfLength operands 0)
    fun _ found => length_of_operandOfLength found).overwrites

theorem fill_overwrites (scalar : Option α) : Overwrites length (fill scalar) := by
  refine Replaces.overwrites <| .bind fun value _ => ?_
  have constant : ∀ before : List α, before.length = length →
      (Except.ok (before.map fun _ => value) : Except KernelFault (List α)) =
        .ok (List.replicate length value) := by
    intro before beforeLength
    rw [List.map_const', beforeLength]
  refine .of_constant constant fun contents same => ?_
  cases same
  exact List.length_replicate

theorem axpy_overwrites (arithmetic : Arithmetic α) (scalar : Option α)
    (operands : List (List α)) : Overwrites length (axpy arithmetic scalar operands) := by
  refine Replaces.overwrites <| .of_length (fun count => do
    let factor ← requireScalar scalar
    let left ← operandOfLength operands 0 count
    let right ← operandOfLength operands 1 count
    return List.zipWith
      (fun element addend => arithmetic.add (arithmetic.mul factor element) addend) left right) ?_
  intro contents computed
  simp only [bind_eq_ok_iff] at computed
  obtain ⟨_, _, left, leftFound, right, rightFound, same⟩ := computed
  cases same
  rw [List.length_zipWith, length_of_operandOfLength leftFound,
    length_of_operandOfLength rightFound, Nat.min_self]

theorem reduce_overwrites (reduction : List α → Except KernelFault α) (operands : List (List α)) :
    Overwrites length (reduce reduction operands) := by
  refine Replaces.overwrites <| .of_length (fun count =>
    if count = 1 then do
      let operand ← operandAt operands 0
      let value ← reduction operand
      return [value]
    else
      throw (.operands (.reductionLength count))) ?_
  intro contents computed
  split at computed
  · rename_i single
    simp only [bind_eq_ok_iff] at computed
    obtain ⟨_, _, _, _, same⟩ := computed
    cases same
    exact single.symm
  · cases computed

end Elementwise

section Matrix

variable {length : Nat}

theorem fill_replaces {form : MatrixForm} (exact : form.rows * form.columns = length)
    (value : Nat → Nat → α) :
    Replaces length fun before => .ok (form.fill value before) := by
  constructor
  case fitting =>
    intro before contents beforeLength same
    cases same
    rw [MatrixForm.fill, List.length_mapIdx, beforeLength]
  case same =>
    intro before other beforeLength otherLength
    refine congrArg Except.ok (List.ext_getElem ?_ ?_)
    · rw [MatrixForm.fill, MatrixForm.fill, List.length_mapIdx, List.length_mapIdx, beforeLength,
        otherLength]
    · intro position bound _
      rw [MatrixForm.fill, List.length_mapIdx, beforeLength] at bound
      simp only [MatrixForm.fill, List.getElem_mapIdx, exact, bound, if_true]

def FirstOutputCounts (length : Nat) (outputs : List Tensor) : Prop :=
  ∀ tensor form, firstOutput outputs = .ok tensor → tensor.matrixForm = .ok form →
    form.rows * form.columns = length

variable {inputs outputs : List Tensor} (arithmetic : Arithmetic α) (operands : List (List α))

theorem matrixCombine_replaces (function : α → α → α) (counts : FirstOutputCounts length outputs) :
    Replaces length (matrixCombine arithmetic function inputs outputs operands) := by
  refine .bind fun output outputFound => .bind fun form formFound => ?_
  refine .bind fun leftTensor _ => .bind fun leftForm _ => .bind fun rightTensor _ =>
    .bind fun rightForm _ => .bind fun left _ => .bind fun right _ => ?_
  exact fill_replaces (counts output form outputFound formFound) _

theorem matrixTranspose_replaces (counts : FirstOutputCounts length outputs) :
    Replaces length (matrixTranspose arithmetic inputs outputs operands) := by
  refine .bind fun input _ => .bind fun output outputFound => ?_
  refine .bind fun inputForm _ => .bind fun form formFound => ?_
  refine .ite (fun _ => .bind fun operand _ => ?_) fun _ => .error _
  exact fill_replaces (counts output form outputFound formFound) _

theorem matrixMul_replaces (counts : FirstOutputCounts length outputs) :
    Replaces length (matrixMul arithmetic inputs outputs operands) := by
  refine .bind fun leftTensor _ => .bind fun rightTensor _ => .bind fun output outputFound => ?_
  refine .bind fun leftForm _ => .bind fun rightForm _ => ?_
  refine .ite (fun _ => .bind fun form formFound => ?_) fun _ => .error _
  refine .ite (fun _ => .bind fun left _ => .bind fun right _ => ?_) fun _ => .error _
  exact fill_replaces (counts output form outputFound formFound) _

theorem matrixArrayAdd_replaces (counts : FirstOutputCounts length outputs) :
    Replaces length (matrixArrayAdd arithmetic inputs outputs operands) := by
  refine .bind fun matrixTensor _ => .bind fun output outputFound => ?_
  refine .bind fun matrixForm _ => .bind fun form formFound => ?_
  refine .ite (fun _ => .bind fun matrix _ => .bind fun array _ => ?_) fun _ => .error _
  exact fill_replaces (counts output form outputFound formFound) _

theorem matrixArrayMul_replaces :
    Replaces length (matrixArrayMul arithmetic inputs operands) := by
  refine .bind fun matrixTensor _ => .bind fun form _ => .bind fun matrix _ =>
    .bind fun array _ => ?_
  refine .of_length (fun count =>
    if count = form.rows then
      .ok ((List.range form.rows).map fun row =>
        sumOfProducts arithmetic form.columns
          (fun column => form.entry arithmetic.zero matrix row column)
          (fun column => array[column]?.getD arithmetic.zero))
    else
      .error (.operands (.arrayProductMismatch matrixTensor.shape form.columns count))) ?_
  intro contents computed
  split at computed
  · rename_i rowCount
    cases computed
    rw [List.length_map, List.length_range, rowCount]
  · cases computed

end Matrix

end Kernel

end TensorGraph
