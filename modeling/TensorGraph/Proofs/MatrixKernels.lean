import TensorGraph.Proofs.MirroredOutputs

/-!
Kernels on matrices. They succeed on operands whose dimensions match, in whatever layouts, and leave
an output of which every entry is the one that the operation asks for.
-/

namespace TensorGraph

namespace Kernel

variable {α : Type} {arithmetic : Arithmetic α} {inputs outputs : List Tensor} {first : Tensor}
  {operands : List (List α)} {output : List α}

/-- The tensor at a position is a matrix of the given dimensions, in either layout. -/
def MatrixAt (tensors : List Tensor) (position rows columns : Nat) : Prop :=
  ∃ tensor layout, tensors[position]? = some tensor ∧
    tensor.matrixForm = .ok ⟨rows, columns, layout⟩

theorem IsMatrix.matrixAt {position : Nat} {form : MatrixForm} {contents : List α}
    (isMatrix : IsMatrix inputs operands position form contents) :
    MatrixAt inputs position form.rows form.columns := by
  obtain ⟨tensor, listed, isForm, _⟩ := isMatrix
  exact ⟨tensor, form.layout, listed, isForm⟩

theorem matrixAt_of_head (head : outputs.head? = some first) {form : MatrixForm}
    (isForm : first.matrixForm = .ok form) : MatrixAt outputs 0 form.rows form.columns := by
  rw [List.head?_eq_getElem?] at head
  exact ⟨first, form.layout, head, isForm⟩

/-- Dimensions of the operands and of the first output as a kernel on matrices asks for them. -/
def DimensionsMatch (inputs outputs : List Tensor) (contents : Views α) : OperationKind → Prop
  | .matrixAdd | .matrixSub => ∃ rows columns, MatrixAt inputs 0 rows columns ∧
      MatrixAt inputs 1 rows columns ∧ MatrixAt outputs 0 rows columns
  | .matrixTranspose => ∃ rows columns, MatrixAt inputs 0 rows columns ∧
      MatrixAt outputs 0 columns rows
  | .matrixMul => ∃ rows inner columns, MatrixAt inputs 0 rows inner ∧
      MatrixAt inputs 1 inner columns ∧ MatrixAt outputs 0 rows columns
  | .matrixArrayMul => ∃ rows columns, MatrixAt inputs 0 rows columns ∧
      contents.inputs[1]?.map List.length = some columns ∧
      contents.outputs[0]?.map List.length = some rows
  | .matrixArrayAdd => ∃ rows columns, MatrixAt inputs 0 rows columns ∧
      contents.inputs[1]?.map List.length = some columns ∧ MatrixAt outputs 0 rows columns
  | _ => False

section Success

theorem firstOutput_ok_iff {tensors : List Tensor} {tensor : Tensor} :
    firstOutput tensors = .ok tensor ↔ tensors[0]? = some tensor := by
  cases tensors with
  | nil => simp [firstOutput]
  | cons head rest => simp [firstOutput]

theorem exists_operand (held : operands.length = inputs.length) {position : Nat} {tensor : Tensor}
    (listed : inputs[position]? = some tensor) : ∃ operand, operands[position]? = some operand := by
  have bound := (List.getElem?_eq_some_iff.mp listed).1
  exact ⟨_, List.getElem?_eq_getElem (held ▸ bound)⟩

theorem exists_matrixCombine (held : operands.length = inputs.length) {rows columns : Nat}
    (function : α → α → α) (leftAt : MatrixAt inputs 0 rows columns)
    (rightAt : MatrixAt inputs 1 rows columns) (target : MatrixAt outputs 0 rows columns) :
    ∃ result, matrixCombine arithmetic function inputs outputs operands output = .ok result := by
  obtain ⟨leftTensor, _, leftListed, leftForm⟩ := leftAt
  obtain ⟨rightTensor, _, rightListed, rightForm⟩ := rightAt
  obtain ⟨tensor, _, listed, form⟩ := target
  obtain ⟨left, leftFound⟩ := exists_operand held leftListed
  obtain ⟨right, rightFound⟩ := exists_operand held rightListed
  simp only [matrixCombine, bind_eq_ok_iff, firstOutput_ok_iff, inputAt_ok_iff, operandAt_ok_iff,
    sameFormAs_ok_iff]
  exact ⟨_, tensor, listed, _, form, leftTensor, leftListed, _, ⟨leftForm, rfl, rfl⟩, rightTensor,
    rightListed, _, ⟨rightForm, rfl, rfl⟩, left, leftFound, right, rightFound, rfl⟩

theorem exists_matrixTranspose (held : operands.length = inputs.length) {rows columns : Nat}
    (source : MatrixAt inputs 0 rows columns) (target : MatrixAt outputs 0 columns rows) :
    ∃ result, matrixTranspose arithmetic inputs outputs operands output = .ok result := by
  obtain ⟨sourceTensor, _, sourceListed, sourceForm⟩ := source
  obtain ⟨tensor, _, listed, form⟩ := target
  obtain ⟨operand, found⟩ := exists_operand held sourceListed
  simp only [matrixTranspose, inputAt_ok_iff.mpr sourceListed, firstOutput_ok_iff.mpr listed,
    sourceForm, form, operandAt_ok_iff.mpr found, bind, Except.bind, and_self, if_true]
  exact ⟨_, rfl⟩

theorem exists_matrixMul (held : operands.length = inputs.length) {rows inner columns : Nat}
    (leftAt : MatrixAt inputs 0 rows inner) (rightAt : MatrixAt inputs 1 inner columns)
    (target : MatrixAt outputs 0 rows columns) :
    ∃ result, matrixMul arithmetic inputs outputs operands output = .ok result := by
  obtain ⟨leftTensor, _, leftListed, leftForm⟩ := leftAt
  obtain ⟨rightTensor, _, rightListed, rightForm⟩ := rightAt
  obtain ⟨tensor, _, listed, form⟩ := target
  obtain ⟨left, leftFound⟩ := exists_operand held leftListed
  obtain ⟨right, rightFound⟩ := exists_operand held rightListed
  simp only [matrixMul, inputAt_ok_iff.mpr leftListed, inputAt_ok_iff.mpr rightListed,
    firstOutput_ok_iff.mpr listed, leftForm, rightForm, form, operandAt_ok_iff.mpr leftFound,
    operandAt_ok_iff.mpr rightFound, bind, Except.bind, and_self, if_true]
  exact ⟨_, rfl⟩

theorem exists_matrixArrayMul (held : operands.length = inputs.length) {columns : Nat}
    (source : MatrixAt inputs 0 output.length columns)
    (array : operands[1]?.map List.length = some columns) :
    ∃ result, matrixArrayMul arithmetic inputs operands output = .ok result := by
  obtain ⟨tensor, _, listed, form⟩ := source
  obtain ⟨matrix, found⟩ := exists_operand held listed
  obtain ⟨array, arrayFound, length⟩ := Option.map_eq_some_iff.mp array
  simp only [matrixArrayMul, inputAt_ok_iff.mpr listed, form, operandAt_ok_iff.mpr found,
    operandOfLength_ok_iff.mpr ⟨arrayFound, length⟩, bind, Except.bind, if_true]
  exact ⟨_, rfl⟩

theorem exists_matrixArrayAdd (held : operands.length = inputs.length) {rows columns : Nat}
    (source : MatrixAt inputs 0 rows columns)
    (array : operands[1]?.map List.length = some columns)
    (target : MatrixAt outputs 0 rows columns) :
    ∃ result, matrixArrayAdd arithmetic inputs outputs operands output = .ok result := by
  obtain ⟨matrixTensor, _, matrixListed, matrixForm⟩ := source
  obtain ⟨tensor, _, listed, form⟩ := target
  obtain ⟨matrix, found⟩ := exists_operand held matrixListed
  obtain ⟨array, arrayFound, length⟩ := Option.map_eq_some_iff.mp array
  simp only [matrixArrayAdd, inputAt_ok_iff.mpr matrixListed, firstOutput_ok_iff.mpr listed,
    matrixForm, form, MatrixForm.sameDimensions, operandAt_ok_iff.mpr found,
    operandOfLength_ok_iff.mpr ⟨arrayFound, length⟩, bind, Except.bind, decide_true, Bool.and_self,
    if_true]
  exact ⟨_, rfl⟩

theorem ofExcept_finished {computed : Except KernelFault (List α)}
    (succeeds : ∃ result, computed = .ok result) :
    (Progress.ofExcept output computed).fault = none := by
  obtain ⟨result, rfl⟩ := succeeds
  rfl

theorem finished_of_dimensionsMatch {scalar : Option α} {kind : OperationKind}
    {before : List (List α)} (held : operands.length = inputs.length)
    (head : before[0]? = some output)
    (matching : DimensionsMatch inputs outputs ⟨operands, before⟩ kind) :
    (primary arithmetic scalar kind inputs outputs operands output).fault = none := by
  cases kind with
  | matrixAdd | matrixSub =>
      obtain ⟨rows, columns, left, right, target⟩ := matching
      exact ofExcept_finished (exists_matrixCombine held _ left right target)
  | matrixTranspose =>
      obtain ⟨rows, columns, source, target⟩ := matching
      exact ofExcept_finished (exists_matrixTranspose held source target)
  | matrixMul =>
      obtain ⟨rows, inner, columns, left, right, target⟩ := matching
      exact ofExcept_finished (exists_matrixMul held left right target)
  | matrixArrayMul =>
      obtain ⟨rows, columns, source, array, written⟩ := matching
      rw [head, Option.map_some, Option.some.injEq] at written
      exact ofExcept_finished (exists_matrixArrayMul held (written ▸ source) array)
  | matrixArrayAdd =>
      obtain ⟨rows, columns, source, array, target⟩ := matching
      exact ofExcept_finished (exists_matrixArrayAdd held source array target)
  | _ => exact matching.elim

end Success

section Meaning

variable {scalar : Option α} {kind : OperationKind} {result other : List α}

theorem dimensionsMatch_of_means (isMatrixKind : kind ∈ matrixKinds) {before : List (List α)}
    (target : outputs.head? = some first) (head : before[0]? = some output)
    (length : result.length = output.length)
    (means : Means arithmetic scalar inputs first operands result kind) :
    DimensionsMatch inputs outputs ⟨operands, before⟩ kind := by
  cases kind with
  | matrixAdd | matrixSub =>
      obtain ⟨form, _, _, _, _, isForm, left, right, ⟨leftRows, leftColumns⟩,
        ⟨rightRows, rightColumns⟩, _⟩ := means
      have leftAt := left.matrixAt
      have rightAt := right.matrixAt
      rw [leftRows, leftColumns] at leftAt
      rw [rightRows, rightColumns] at rightAt
      exact ⟨_, _, leftAt, rightAt, matrixAt_of_head target isForm⟩
  | matrixTranspose =>
      obtain ⟨form, _, _, isForm, source, rows, columns, _⟩ := means
      have sourceAt := source.matrixAt
      rw [← rows, ← columns] at sourceAt
      exact ⟨_, _, sourceAt, matrixAt_of_head target isForm⟩
  | matrixMul =>
      obtain ⟨form, _, _, _, _, isForm, left, right, inner, rows, columns, _⟩ := means
      have leftAt := left.matrixAt
      have rightAt := right.matrixAt
      rw [inner, ← rows] at leftAt
      rw [← columns] at rightAt
      exact ⟨_, _, _, leftAt, rightAt, matrixAt_of_head target isForm⟩
  | matrixArrayMul =>
      obtain ⟨form, _, array, source, found, arrayLength, computed⟩ := means
      rw [computed, List.length_map, List.length_range] at length
      refine ⟨_, _, source.matrixAt, ?_, ?_⟩
      · exact Option.map_eq_some_iff.mpr ⟨array, found, arrayLength⟩
      · exact Option.map_eq_some_iff.mpr ⟨output, head, length.symm⟩
  | matrixArrayAdd =>
      obtain ⟨form, _, _, array, isForm, source, found, arrayLength, rows, columns, _⟩ := means
      have sourceAt := source.matrixAt
      rw [← rows, ← columns] at sourceAt
      rw [← columns] at arrayLength
      exact ⟨_, _, sourceAt, Option.map_eq_some_iff.mpr ⟨array, found, arrayLength⟩,
        matrixAt_of_head target isForm⟩
  | _ => exact absurd isMatrixKind (by simp [matrixKinds])

end Meaning

theorem fitted_of_forall₂ (fits : List.Forall₂ Tensor.Fits inputs operands) :
    Fitted inputs operands := by
  intro position tensor contents listed found
  obtain ⟨operand, same, fitting⟩ := getElem?_of_forall₂ fits listed
  rw [found] at same
  cases same
  exact fitting

end Kernel

namespace KernelCall

open Kernel (DimensionsMatch Means matrixKinds)

structure Sized {elementType : ElementType} (call : KernelCall elementType) : Prop where
  inputs : List.Forall₂ Tensor.Fits call.inputs call.contents.inputs
  outputs : List.Forall₂ Tensor.Fits call.outputs call.contents.outputs

variable {elementType : ElementType} {call : KernelCall elementType}
  {arithmetic : Arithmetic (Element elementType)} {first : Tensor}
  {output : List (Element elementType)}

theorem Sized.fits_first (sized : call.Sized) (writes : call.WritesFirst first output) :
    first.Fits output := by
  obtain ⟨further, others, outputs, contents, _⟩ := writes.exists_further
  have fits := sized.outputs
  rw [outputs, contents] at fits
  exact (List.forall₂_cons.mp fits).1

theorem course_of_finished (sized : call.Sized) (writes : call.WritesFirst first output)
    (finished : (call.course arithmetic output).fault = none) :
    (call.course arithmetic output).contents.length = output.length ∧
      Means arithmetic (call.parameters.scalar? elementType) call.inputs first
        call.contents.inputs (call.course arithmetic output).contents call.kind := by
  obtain ⟨further, _, outputs, _⟩ := writes.exists_further
  have fits := sized.fits_first writes
  rw [course, outputs] at finished ⊢
  have counts : Kernel.FirstOutputCounts output.length (first :: further) := by
    intro tensor form found isForm
    cases found
    exact (fits.length_eq isForm).symm
  have overwrites := Kernel.primary_overwrites arithmetic (call.parameters.scalar? elementType)
    call.kind call.inputs call.contents.inputs counts
  have fitted := Kernel.fitted_of_forall₂ sized.inputs
  exact ⟨overwrites.keepsLength output rfl, Kernel.means_of_primary fitted fits finished⟩

/-- A kernel on matrices succeeds where the dimensions match and the further outputs mirror the first.
All outputs then hold the one result that the operation has for its operands. -/
theorem matrix_outcome (known : elementType.arithmetic = some arithmetic)
    (isMatrixKind : call.kind ∈ matrixKinds) (sized : call.Sized)
    (writes : call.WritesFirst first output) :
    ((KernelSet.standardExecute elementType call).error = none ↔
      DimensionsMatch call.inputs call.outputs call.contents call.kind ∧ call.Mirrored) ∧
    ((KernelSet.standardExecute elementType call).error = none →
      ∃ result, (KernelSet.standardExecute elementType call).outputs =
          call.outputs.map (fun _ => result) ∧
        result.length = output.length ∧
        ∀ other, Means arithmetic (call.parameters.scalar? elementType) call.inputs first
          call.contents.inputs other call.kind ↔ other = result) := by
  have ends := error_eq_none_iff known writes
  have head : call.contents.outputs[0]? = some output :=
    List.head?_eq_getElem?.symm.trans writes.contents
  constructor
  · rw [ends]
    refine and_congr_left fun _ => ⟨fun finished => ?_, fun matching => ?_⟩
    · obtain ⟨length, means⟩ := course_of_finished sized writes finished
      exact Kernel.dimensionsMatch_of_means isMatrixKind writes.tensor head length means
    · exact Kernel.finished_of_dimensionsMatch sized.inputs.length_eq.symm head matching
  · intro finished
    obtain ⟨length, means⟩ := course_of_finished sized writes (ends.mp finished).1
    refine ⟨_, outputs_of_finished known writes finished, length, fun other => ⟨?_, ?_⟩⟩
    · exact fun otherMeans => Kernel.Means.unique_of_matrixKind isMatrixKind otherMeans means
    · rintro rfl
      exact means

def mixedLayoutsCall : KernelCall .i8 where
  position := 0
  operation := 1
  kind := .matrixMul
  inputs := [⟨1, .i8, ⟨[2, 3]⟩, .host, .rowMajor⟩, ⟨2, .i8, ⟨[3, 1]⟩, .host, .colMajor⟩]
  outputs := [⟨3, .i8, ⟨[2, 1]⟩, .host, .colMajor⟩, ⟨4, .i8, ⟨[2, 1]⟩, .host, .colMajor⟩]
  parameters := .empty
  contents := ⟨[[1, 2, 3, 4, 5, 6], [1, 0, -1]], [[0, 0], [0, 0]]⟩

theorem matrix_outcome_mixed_layouts :
    (KernelSet.standardExecute .i8 mixedLayoutsCall).error = none ∧
      ∃ result, (KernelSet.standardExecute .i8 mixedLayoutsCall).outputs = [result, result] ∧
        ∀ other, Kernel.MultipliesMatrices (.signed 8) mixedLayoutsCall.inputs
          ⟨3, .i8, ⟨[2, 1]⟩, .host, .colMajor⟩ mixedLayoutsCall.contents.inputs other ↔
            other = result := by
  have sized : mixedLayoutsCall.Sized :=
    ⟨.cons rfl (.cons rfl .nil), .cons rfl (.cons rfl .nil)⟩
  have writes : mixedLayoutsCall.WritesFirst ⟨3, .i8, ⟨[2, 1]⟩, .host, .colMajor⟩ [0, 0] :=
    ⟨rfl, rfl, rfl⟩
  have matching : DimensionsMatch mixedLayoutsCall.inputs mixedLayoutsCall.outputs
      mixedLayoutsCall.contents .matrixMul :=
    ⟨2, 3, 1, ⟨_, .rowMajor, rfl, rfl⟩, ⟨_, .colMajor, rfl, rfl⟩, ⟨_, .colMajor, rfl, rfl⟩⟩
  have mirrored : mixedLayoutsCall.Mirrored := by
    rintro first ⟨⟩
    decide
  have outcome := matrix_outcome rfl (by decide) sized writes
  have finished := outcome.1.mpr ⟨matching, mirrored⟩
  obtain ⟨result, outputs, _, unique⟩ := outcome.2 finished
  exact ⟨finished, result, outputs, unique⟩

end KernelCall

end TensorGraph
