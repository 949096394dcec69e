import TensorGraph.Kernel.Guarded
import TensorGraph.Proofs.Guarded
import TensorGraph.Proofs.KernelFaults

/-!
The standard kernels with every access guarded: to the descriptors and the operands of a call, to
single elements, and between contents that are copied. On a call with enough operands of the right
lengths all accesses are in range.
-/

namespace TensorGraph

namespace Guarded

variable {α : Type}

section Entries

theorem place?_eq {tensor : Tensor} {form : MatrixForm} (isForm : tensor.matrixForm = .ok form)
    (position : Nat × Nat) :
    place? tensor position =
      some (form.layout.offset form.rows form.columns position.1 position.2) := by
  rw [Tensor.matrixForm] at isForm
  split at isForm
  · rename_i rows columns shape
    cases isForm
    rw [place?, shape]
    cases tensor.layout with
    | rowMajor => rfl
    | colMajor => rfl
  · cases isForm

theorem entryAt?_eq {inputs : List Tensor} {operands : List (List α)}
    (filled : Kernel.Filled inputs operands) {index : Nat} {tensor : Tensor} {form : MatrixForm}
    {contents : List α} (listed : inputs[index]? = some tensor)
    (isForm : tensor.matrixForm = .ok form) (held : operandAt operands index = .ok contents)
    (absent : α) {position : Nat × Nat} (rowBound : position.1 < form.rows)
    (columnBound : position.2 < form.columns) :
    entryAt? tensor contents position =
      some (form.entry absent contents position.1 position.2) := by
  obtain ⟨valid, length⟩ := filled index tensor contents listed (Kernel.operandAt_ok_iff.mp held)
  rw [Kernel.elementCount_of_matrixForm valid isForm] at length
  have bound := form.layout.offset_lt rowBound columnBound
  rw [← length] at bound
  simp only [entryAt?, place?_eq isForm, MatrixForm.entry, List.getElem?_eq_getElem bound,
    Option.bind_eq_bind, Option.bind_some, Option.getD_some]

end Entries

theorem Agrees.input {β : Type} {inputs : List Tensor} {index : Nat} {tensor : Tensor}
    {next : Tensor → Guarded KernelFault β} {rest : Tensor → Except KernelFault β}
    (listed : inputs[index]? = some tensor) (agrees : Agrees (next tensor) (rest tensor)) :
    Agrees (access inputs[index]? >>= next) (Kernel.inputAt inputs index >>= rest) :=
  .access_bind listed (.bind_ok (Kernel.inputAt_ok_iff.mpr listed) agrees)

section Matrices

variable {arithmetic : Arithmetic α} {inputs further : List Tensor} {first : Tensor}
  {operands : List (List α)} {output : List α}

theorem matrixCombine_agrees (function : α → α → α) (filled : Kernel.Filled inputs operands)
    (enough : 2 ≤ inputs.length) (valid : first.validate = .ok ())
    (length : output.length = first.elementCount) :
    Agrees (matrixCombine function inputs (first :: further) operands output)
      (Kernel.matrixCombine arithmetic function inputs (first :: further) operands output) := by
  have leftListed : inputs[0]? = some inputs[0] := List.getElem?_eq_getElem (by omega)
  have rightListed : inputs[1]? = some inputs[1] := List.getElem?_eq_getElem (by omega)
  refine .access_bind rfl (.bind_ok rfl (.bind (.of_plain _) fun form isForm => ?_))
  refine .access_bind leftListed (.access_bind rightListed ?_)
  refine .bind_ok (Kernel.inputAt_ok_iff.mpr leftListed)
    (.bind (.of_plain _) fun _ leftSame => ?_)
  refine .bind_ok (Kernel.inputAt_ok_iff.mpr rightListed)
    (.bind (.of_plain _) fun _ rightSame => ?_)
  refine .bind (.of_plain _) fun left leftHeld => .bind (.of_plain _) fun right rightHeld => ?_
  obtain ⟨leftIsForm, leftRows, leftColumns⟩ := Kernel.sameFormAs_ok_iff.mp leftSame
  obtain ⟨rightIsForm, rightRows, rightColumns⟩ := Kernel.sameFormAs_ok_iff.mp rightSame
  rw [Kernel.elementCount_of_matrixForm valid isForm] at length
  refine .of_access (writeEach?_eq_fill (fun _ => mem_positions)
    (fun position _ => place?_eq isForm position) (fun position member => ?_)
    arithmetic.zero length)
  obtain ⟨rowBound, columnBound⟩ := mem_positions.mp member
  simp only [entryAt?_eq filled leftListed leftIsForm leftHeld arithmetic.zero
      (leftRows ▸ rowBound) (leftColumns ▸ columnBound),
    entryAt?_eq filled rightListed rightIsForm rightHeld arithmetic.zero
      (rightRows ▸ rowBound) (rightColumns ▸ columnBound), Option.bind_eq_bind, Option.bind_some]
  rfl

theorem matrixTranspose_agrees (filled : Kernel.Filled inputs operands)
    (enough : 1 ≤ inputs.length) (valid : first.validate = .ok ())
    (length : output.length = first.elementCount) :
    Agrees (matrixTranspose inputs (first :: further) operands output)
      (Kernel.matrixTranspose arithmetic inputs (first :: further) operands output) := by
  have listed : inputs[0]? = some inputs[0] := List.getElem?_eq_getElem (by omega)
  refine .input listed (.bind_ok rfl ?_)
  refine .bind (.of_plain _) fun sourceForm isSourceForm => .access_bind rfl ?_
  refine .bind (.of_plain _) fun form isForm => .ite (fun swapped => ?_) fun _ => .of_plain _
  refine .bind (.of_plain _) fun operand held => .of_access ?_
  rw [Kernel.elementCount_of_matrixForm valid isForm] at length
  -- The entries are written in the order of the source, column by column of the target.
  have written := @writeEach?_eq_fill _ form
    ((positions sourceForm.rows sourceForm.columns).map Prod.swap) (fun position => by
      rw [swapped.1, swapped.2, ← Prod.swap_swap position,
        List.mem_map_of_injective Prod.swap_injective, mem_positions]
      exact and_comm)
    (place? first) (fun position => entryAt? inputs[0] operand position.swap)
    (fun row column => sourceForm.entry arithmetic.zero operand column row)
    (fun position _ => place?_eq isForm position)
    (List.forall_mem_map.mpr fun position member =>
      entryAt?_eq filled listed isSourceForm held arithmetic.zero (mem_positions.mp member).1
        (mem_positions.mp member).2) arithmetic.zero output length
  rw [writeEach?, List.foldlM_map] at written
  exact written

theorem sumOfProducts?_eq {count : Nat} {left? right? : Nat → Option α} {left right : Nat → α}
    (leftFound : ∀ position < count, left? position = some (left position))
    (rightFound : ∀ position < count, right? position = some (right position)) :
    sumOfProducts? arithmetic count left? right? =
      some (Kernel.sumOfProducts arithmetic count left right) := by
  refine foldlM_eq_some (fun position member total => ?_) arithmetic.zero
  have bound := List.mem_range.mp member
  rw [leftFound position bound, rightFound position bound]
  rfl

theorem matrixMul_agrees (filled : Kernel.Filled inputs operands) (enough : 2 ≤ inputs.length)
    (valid : first.validate = .ok ()) (length : output.length = first.elementCount) :
    Agrees (matrixMul arithmetic inputs (first :: further) operands output)
      (Kernel.matrixMul arithmetic inputs (first :: further) operands output) := by
  have leftListed : inputs[0]? = some inputs[0] := List.getElem?_eq_getElem (by omega)
  have rightListed : inputs[1]? = some inputs[1] := List.getElem?_eq_getElem (by omega)
  refine .input leftListed (.input rightListed (.access_bind rfl (.bind_ok rfl ?_)))
  refine .bind (.of_plain _) fun leftForm isLeftForm => .bind (.of_plain _)
    fun rightForm isRightForm => .ite (fun inner => ?_) fun _ => .of_plain _
  refine .bind (.of_plain _) fun form isForm => .ite (fun outer => ?_) fun _ => .of_plain _
  refine .bind (.of_plain _) fun left leftHeld => .bind (.of_plain _) fun right rightHeld => ?_
  rw [Kernel.elementCount_of_matrixForm valid isForm] at length
  refine .of_access (writeEach?_eq_fill (fun _ => by rw [mem_positions, outer.1, outer.2])
    (fun position _ => place?_eq isForm position) (fun position member => ?_)
    arithmetic.zero length)
  obtain ⟨rowBound, columnBound⟩ := mem_positions.mp member
  refine sumOfProducts?_eq (fun place bound => ?_) (fun place bound => ?_)
  · exact entryAt?_eq filled leftListed isLeftForm leftHeld arithmetic.zero rowBound bound
  · exact entryAt?_eq filled rightListed isRightForm rightHeld arithmetic.zero (inner ▸ bound)
      columnBound

theorem matrixArrayMul_agrees (filled : Kernel.Filled inputs operands)
    (enough : 1 ≤ inputs.length) :
    Agrees (matrixArrayMul arithmetic inputs operands output)
      (Kernel.matrixArrayMul arithmetic inputs operands output) := by
  have listed : inputs[0]? = some inputs[0] := List.getElem?_eq_getElem (by omega)
  refine .input listed ?_
  refine .bind (.of_plain _) fun form isForm => .bind (.of_plain _) fun matrix held => ?_
  refine .bind (.of_plain _) fun array arrayHeld => .ite (fun fitting => ?_) fun _ => .of_plain _
  have arrayLength := (Kernel.operandOfLength_ok_iff.mp arrayHeld).2
  refine .of_access ?_
  rw [fitting]
  refine mapM_eq_some fun row member => ?_
  refine sumOfProducts?_eq (fun column bound => ?_) fun column bound => ?_
  · exact entryAt?_eq filled listed isForm held arithmetic.zero (List.mem_range.mp member) bound
  · rw [List.getElem?_eq_getElem (arrayLength ▸ bound), Option.getD_some]

theorem matrixArrayAdd_agrees (filled : Kernel.Filled inputs operands)
    (enough : 1 ≤ inputs.length) (valid : first.validate = .ok ())
    (length : output.length = first.elementCount) :
    Agrees (matrixArrayAdd arithmetic inputs (first :: further) operands output)
      (Kernel.matrixArrayAdd arithmetic inputs (first :: further) operands output) := by
  have listed : inputs[0]? = some inputs[0] := List.getElem?_eq_getElem (by omega)
  refine .input listed (.access_bind rfl (.bind_ok rfl ?_))
  refine .bind (.of_plain _) fun matrixForm isMatrixForm => .bind (.of_plain _)
    fun form isForm => .ite (fun alike => ?_) fun _ => .of_plain _
  refine .bind (.of_plain _) fun matrix held => .bind (.of_plain _) fun array arrayHeld => ?_
  have arrayLength := (Kernel.operandOfLength_ok_iff.mp arrayHeld).2
  simp only [MatrixForm.sameDimensions, Bool.and_eq_true, decide_eq_true_eq] at alike
  rw [Kernel.elementCount_of_matrixForm valid isForm] at length
  refine .of_access (writeEach?_eq_fill (fun _ => by rw [mem_positions, alike.1, alike.2])
    (fun position _ => place?_eq isForm position) (fun position member => ?_)
    arithmetic.zero length)
  obtain ⟨rowBound, columnBound⟩ := mem_positions.mp member
  simp only [entryAt?_eq filled listed isMatrixForm held arithmetic.zero rowBound columnBound,
    List.getElem?_eq_getElem (arrayLength ▸ columnBound), Option.bind_eq_bind, Option.bind_some,
    Option.getD_some]
  rfl

end Matrices

section Progress

theorem Agrees.progress_eq {before : List α} {guarded : Guarded KernelFault (List α)}
    {computed : Except KernelFault (List α)} (agrees : Agrees guarded computed) :
    progress before guarded = some (.ofExcept before computed) := by
  rw [Agrees] at agrees
  rw [progress, agrees]
  rfl

theorem fold_eq (function : α → α → Except KernelFault α) (operands : List (List α))
    (output : List α) :
    fold function operands output = some (Kernel.fold function operands output) := by
  rw [fold, Kernel.fold]
  cases found : operandOfLength operands 0 output.length with
  | error fault => rfl
  | ok first =>
      have same := (Kernel.operandOfLength_ok_iff.mp found).2
      simp only [copyOver?_eq_some same.symm, Option.map_some]

theorem copy_eq (operands : List (List α)) (output : List α) :
    copy operands output = some (Kernel.copy operands output) := by
  rw [Kernel.copy, ← bind_pure (operandOfLength operands 0 output.length)]
  refine Agrees.progress_eq (.bind (.of_plain _) fun operand found => .of_access ?_)
  exact copyOver?_eq_some (Kernel.operandOfLength_ok_iff.mp found).2.symm

theorem reduce_eq (reduction : List α → Except KernelFault α) (operands : List (List α))
    (output : List α) :
    reduce reduction operands output = some (Kernel.reduce reduction operands output) := by
  refine Agrees.progress_eq (.ite (fun single => ?_) fun _ => .of_plain _)
  refine .bind (.of_plain _) fun operand _ => .bind (.of_plain _) fun value _ => .of_access ?_
  obtain ⟨element, rfl⟩ := List.length_eq_one_iff.mp single
  rfl

theorem primary_eq {arithmetic : Arithmetic α} {scalar : Option α} {kind : OperationKind}
    {inputs further : List Tensor} {first : Tensor} {operands : List (List α)} {output : List α}
    (filled : Kernel.Filled inputs operands) (enough : kind.minInputs ≤ inputs.length)
    (valid : first.validate = .ok ()) (length : output.length = first.elementCount) :
    primary arithmetic scalar kind inputs (first :: further) operands output =
      some (Kernel.primary arithmetic scalar kind inputs (first :: further) operands output) := by
  cases kind with
  | elementAdd | elementSub | elementMul | elementDiv => exact fold_eq _ operands output
  | copy => exact copy_eq operands output
  | arraySum | arrayMean => exact reduce_eq _ operands output
  | matrixAdd | matrixSub =>
      exact (matrixCombine_agrees _ filled enough valid length).progress_eq
  | matrixTranspose => exact (matrixTranspose_agrees filled enough valid length).progress_eq
  | matrixMul => exact (matrixMul_agrees filled enough valid length).progress_eq
  | matrixArrayMul =>
      exact (matrixArrayMul_agrees filled (Nat.le_of_succ_le enough)).progress_eq
  | matrixArrayAdd =>
      exact (matrixArrayAdd_agrees filled (Nat.le_of_succ_le enough) valid length).progress_eq
  | fill | exp | sin | cos | abs | scalarAdd | scalarSub | scalarMul | scalarDiv | arrayAxpy => rfl
  | elementRandom | matrixInverse | group | zero | identity => rfl

end Progress

section Calls

theorem copyToOthers_eq {first : Tensor} {contents : List α}
    (length : contents.length = first.elementCount) {descriptors tensors : List Tensor}
    {position : Nat} (standing : descriptors.drop position = tensors) {others : List (List α)}
    (lengths : others.map List.length = tensors.map Tensor.elementCount) :
    copyToOthers descriptors first contents position others =
      some (Kernel.copyToOthers first contents tensors others) := by
  induction others generalizing position tensors with
  | nil =>
      rw [List.map_nil, eq_comm, List.map_eq_nil_iff] at lengths
      rw [lengths]
      rfl
  | cons other others ih =>
      obtain ⟨tensor, rest, rfl, otherLength, restLengths⟩ :=
        List.map_eq_cons_iff.mp lengths.symm
      have found : descriptors[position]? = some tensor := by
        rw [← List.head?_drop, standing, List.head?_cons]
      have behind : descriptors.drop (position + 1) = rest := by
        rw [← List.tail_drop, standing, List.tail_cons]
      rw [copyToOthers, Kernel.copyToOthers, found, Option.bind_eq_bind, Option.bind_some]
      by_cases alike : tensor.shape = first.shape ∧ tensor.layout = first.layout
      · have sameLength : other.length = contents.length := by
          rw [length, ← otherLength, Tensor.elementCount, Tensor.elementCount, alike.1]
        rw [if_pos alike, if_pos alike, copyOver?_eq_some sameLength, ih behind restLengths.symm]
        rfl
      · rw [if_neg alike, if_neg alike]
        rfl

theorem execute_eq {elementType : ElementType} {call : KernelCall elementType}
    (provided : call.Provided) :
    execute call = some (KernelSet.standardExecute elementType call) := by
  obtain ⟨position, operation, kind, inputs, outputs, parameters, operands, before⟩ := call
  obtain ⟨⟨valid, lengths⟩, filled, held, equipped, written⟩ := provided
  simp only at valid lengths filled held equipped written
  obtain ⟨first, further, rfl⟩ := List.exists_cons_of_ne_nil written
  obtain ⟨output, others, rfl, length, otherLengths⟩ := List.map_eq_cons_iff.mp lengths
  rw [execute, KernelSet.standardExecute]
  cases elementType.arithmetic with
  | none => rfl
  | some arithmetic =>
      have firstValid := valid first (by simp)
      have sameLength := (Kernel.primary_overwrites arithmetic (parameters.scalar? elementType)
        kind inputs operands (Kernel.firstOutputCounts firstValid further)).keepsLength output
          length
      simp only [compute, Kernel.compute, primary_eq filled equipped.enough firstValid length,
        Option.bind_eq_bind, Option.bind_some]
      cases (Kernel.primary arithmetic (parameters.scalar? elementType) kind inputs
          (first :: further) operands output).fault with
      | some fault => rfl
      | none =>
          simp only [List.getElem?_cons_zero, Option.bind_some,
            copyToOthers_eq sameLength (show (first :: further).drop 1 = further from rfl)
              otherLengths]
          rfl

end Calls

end Guarded

end TensorGraph
