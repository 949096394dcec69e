import TensorGraph.Proofs.KernelMeaning
import TensorGraph.Proofs.StandardKernels

/-! Whenever the standard kernels finish, every output holds what the operation means. -/

namespace TensorGraph

variable {α : Type}

namespace Tensor

def Fits (tensor : Tensor) (contents : List α) : Prop :=
  contents.length = (tensor.shape.dimensions.map UInt64.toNat).prod

theorem fits_of_validate {tensor : Tensor} (valid : tensor.validate = .ok ()) {contents : List α}
    (length : contents.length = tensor.elementCount) : tensor.Fits contents :=
  length.trans (dimensions_of_validate valid).2.2

theorem Fits.length_eq {tensor : Tensor} {contents : List α} (fits : tensor.Fits contents)
    {form : MatrixForm} (isMatrix : tensor.matrixForm = .ok form) :
    contents.length = form.rows * form.columns := by
  rw [matrixForm] at isMatrix
  split at isMatrix
  · rename_i rows columns shape
    cases isMatrix
    rw [fits, shape]
    simp
  · cases isMatrix

end Tensor

namespace Kernel

def Filled (inputs : List Tensor) (operands : List (List α)) : Prop :=
  ∀ (position : Nat) (tensor : Tensor) (contents : List α), inputs[position]? = some tensor →
    operands[position]? = some contents →
    tensor.validate = .ok () ∧ contents.length = tensor.elementCount

def Fitted (inputs : List Tensor) (operands : List (List α)) : Prop :=
  ∀ (position : Nat) (tensor : Tensor) (contents : List α), inputs[position]? = some tensor →
    operands[position]? = some contents → tensor.Fits contents

theorem Filled.fitted {inputs : List Tensor} {operands : List (List α)}
    (filled : Filled inputs operands) : Fitted inputs operands := by
  intro position tensor contents listed found
  obtain ⟨valid, length⟩ := filled position tensor contents listed found
  exact Tensor.fits_of_validate valid length

theorem exists_of_ofExcept {before : List α} {computed : Except KernelFault (List α)}
    (finished : (Progress.ofExcept before computed).fault = none) :
    ∃ contents, computed = .ok contents ∧
      (Progress.ofExcept before computed).contents = contents := by
  cases computed with
  | error fault => cases finished
  | ok contents => exact ⟨contents, rfl, rfl⟩

theorem holds_of_ofExcept {before : List α} {computed : Except KernelFault (List α)}
    (finished : (Progress.ofExcept before computed).fault = none) {property : List α → Prop}
    (holds : ∀ {contents}, computed = .ok contents → property contents) :
    property (Progress.ofExcept before computed).contents := by
  obtain ⟨contents, succeeded, same⟩ := exists_of_ofExcept finished
  rw [same]
  exact holds succeeded

theorem operandAt_ok_iff {operands : List (List α)} {position : Nat} {operand : List α} :
    operandAt operands position = .ok operand ↔ operands[position]? = some operand := by
  rw [operandAt]
  cases operands[position]? with
  | none => simp
  | some found => simp

theorem operandOfLength_ok_iff {operands : List (List α)} {position length : Nat}
    {operand : List α} :
    operandOfLength operands position length = .ok operand ↔
      operands[position]? = some operand ∧ operand.length = length := by
  simp only [operandOfLength, bind_eq_ok_iff, operandAt_ok_iff]
  constructor
  · rintro ⟨candidate, found, checked⟩
    by_cases fitting : candidate.length = length
    · simp only [fitting, if_true, pure, Except.pure, Except.ok.injEq] at checked
      subst checked
      exact ⟨found, fitting⟩
    · simp [fitting, throw, throwThe, MonadExceptOf.throw] at checked
  · rintro ⟨found, fitting⟩
    exact ⟨operand, found, by simp [fitting, pure, Except.pure]⟩

section Elementwise

variable {function : α → α → Except KernelFault α} {step : α → α → Option α}

theorem forall₂_of_combine {elements operand : List α} (same : elements.length = operand.length)
    (finished : (combine function elements operand).fault = none) :
    List.Forall₂ (fun pair value => function pair.1 pair.2 = .ok value) (elements.zip operand)
      (combine function elements operand).contents := by
  induction elements generalizing operand with
  | nil => exact List.Forall₂.nil
  | cons element elements ih =>
      cases operand with
      | nil => cases same
      | cons addend operand =>
          rw [combine] at finished ⊢
          cases computed : function element addend with
          | error fault =>
              simp only [computed] at finished
              cases finished
          | ok value =>
              simp only [computed] at finished ⊢
              exact List.Forall₂.cons computed (ih (Nat.succ.inj same) finished)

theorem getElem?_of_combine {elements operand : List α} (same : elements.length = operand.length)
    (finished : (combine function elements operand).fault = none) {position : Nat} {element : α}
    (found : elements[position]? = some element) :
    ∃ addend value, operand[position]? = some addend ∧
      (combine function elements operand).contents[position]? = some value ∧
      function element addend = .ok value := by
  have bound := (List.getElem?_eq_some_iff.mp found).1
  obtain ⟨addend, here⟩ : ∃ addend, operand[position]? = some addend :=
    ⟨_, List.getElem?_eq_getElem (same ▸ bound)⟩
  have both : (elements.zip operand)[position]? = some (element, addend) :=
    List.getElem?_zip_eq_some.mpr ⟨found, here⟩
  obtain ⟨value, valueFound, computed⟩ :=
    getElem?_of_forall₂ (forall₂_of_combine same finished) both
  exact ⟨addend, value, here, valueFound, computed⟩

theorem foldlM_of_combineAll
    (agrees : ∀ left right value, function left right = .ok value → step left right = some value)
    {start : Nat} {operands : List (List α)} {output : List α}
    (finished : (combineAll function start operands output).fault = none) :
    (∀ operand ∈ operands, operand.length = output.length) ∧
      ∀ position first value, output[position]? = some first →
        (combineAll function start operands output).contents[position]? = some value →
        (column operands position).foldlM step first = some value := by
  induction operands generalizing start output with
  | nil =>
      refine ⟨by simp, fun position first value found valueFound => ?_⟩
      rw [combineAll, Progress.finished, found] at valueFound
      exact valueFound
  | cons operand operands ih =>
      rw [combineAll] at finished ⊢
      by_cases same : operand.length = output.length
      · rw [if_pos same] at finished ⊢
        rw [Progress.andThen] at finished ⊢
        cases combined : (combine function output operand).fault with
        | some fault => simp [combined] at finished
        | none =>
            simp only [combined] at finished ⊢
            obtain ⟨lengths, folded⟩ := ih finished
            rw [length_combine] at lengths
            refine ⟨List.forall_mem_cons.mpr ⟨same, lengths⟩, fun position first value found => ?_⟩
            obtain ⟨addend, next, addendFound, nextFound, computed⟩ :=
              getElem?_of_combine same.symm combined found
            intro valueFound
            rw [column_cons addendFound, List.foldlM_cons, agrees first addend next computed]
            exact folded position next value nextFound valueFound
      · rw [if_neg same] at finished
        cases finished

theorem combinesTo_of_fold
    (agrees : ∀ left right value, function left right = .ok value → step left right = some value)
    {operands : List (List α)} {output : List α}
    (finished : (fold function operands output).fault = none) :
    CombinesTo step operands (fold function operands output).contents := by
  rw [fold] at finished ⊢
  cases found : operandOfLength operands 0 output.length with
  | error fault =>
      simp only [found] at finished
      cases finished
  | ok first =>
      simp only [found] at finished ⊢
      obtain ⟨firstFound, _⟩ := operandOfLength_ok_iff.mp found
      have split : operands = first :: operands.drop 1 := by
        cases operands with
        | nil => cases firstFound
        | cons head rest =>
            cases firstFound
            rfl
      obtain ⟨lengths, folded⟩ := foldlM_of_combineAll agrees finished
      constructor
      · rw [length_combineAll, split]
        exact List.forall_mem_cons.mpr ⟨rfl, lengths⟩
      · intro position element elementFound
        have bound := (List.getElem?_eq_some_iff.mp elementFound).1
        rw [length_combineAll] at bound
        have here := List.getElem?_eq_getElem bound
        refine ⟨_, _, ?_, folded position _ element here elementFound⟩
        conv_lhs => rw [split]
        exact column_cons here

theorem mapsTo_of_mapOperand {value : α → Except KernelFault α} {image : α → Option α}
    (agrees : ∀ element result, value element = .ok result → image element = some result)
    {operands : List (List α)} {output : List α}
    (finished : (mapOperand value operands output).fault = none) :
    MapsTo image operands (mapOperand value operands output).contents := by
  rw [mapOperand] at finished ⊢
  cases found : operandOfLength operands 0 output.length with
  | error fault =>
      simp only [found] at finished
      cases finished
  | ok operand =>
      simp only [found] at finished ⊢
      obtain ⟨operandFound, length⟩ := operandOfLength_ok_iff.mp found
      refine ⟨operand, operandFound, ?_⟩
      have related := forall₂_of_combine length.symm finished
      have images := related.imp fun pair result computed => agrees pair.2 result computed
      have mapped : List.Forall₂ (fun element result => image element = some result)
          ((output.zip operand).map Prod.snd)
          (combine (fun _ element => value element) output operand).contents :=
        List.forall₂_map_left_iff.mpr images
      rwa [List.map_snd_zip (Nat.le_of_eq length)] at mapped

theorem exists_mapsTo_of_withScalar {image : α → α → Option α}
    (agrees : ∀ left right value, function left right = .ok value → image left right = some value)
    {scalar : Option α} {operands : List (List α)} {output : List α}
    (finished : (withScalar function scalar operands output).fault = none) :
    ∃ value, scalar = some value ∧ MapsTo (fun element => image element value) operands
      (withScalar function scalar operands output).contents := by
  cases scalar with
  | none => cases finished
  | some value =>
      exact ⟨value, rfl, mapsTo_of_mapOperand (fun element => agrees element value) finished⟩

theorem eq_of_fill {scalar : Option α} {output : List α}
    (finished : (fill scalar output).fault = none) :
    ∃ value, scalar = some value ∧ ∀ element ∈ (fill scalar output).contents, element = value := by
  cases scalar with
  | none => cases finished
  | some value =>
      refine ⟨value, rfl, fun element member => ?_⟩
      obtain ⟨_, _, same⟩ := List.mem_map.mp member
      exact same.symm

theorem getElem?_of_copy {operands : List (List α)} {output : List α}
    (finished : (copy operands output).fault = none) :
    operands[0]? = some (copy operands output).contents := by
  obtain ⟨contents, computed, same⟩ := exists_of_ofExcept finished
  rw [copy, same]
  exact (operandOfLength_ok_iff.mp computed).1

theorem eq_zipWith_of_axpy {arithmetic : Arithmetic α} {scalar : Option α}
    {operands : List (List α)} {output : List α}
    (finished : (axpy arithmetic scalar operands output).fault = none) :
    ∃ factor left right, scalar = some factor ∧ operands[0]? = some left ∧
      operands[1]? = some right ∧ left.length = right.length ∧
      (axpy arithmetic scalar operands output).contents = List.zipWith
        (fun element addend => arithmetic.add (arithmetic.mul factor element) addend)
        left right := by
  obtain ⟨contents, computed, same⟩ := exists_of_ofExcept finished
  simp only [bind_eq_ok_iff, operandOfLength_ok_iff] at computed
  obtain ⟨factor, given, left, ⟨leftFound, leftLength⟩, right, ⟨rightFound, rightLength⟩, result⟩ :=
    computed
  refine ⟨factor, left, right, ?_, leftFound, rightFound, leftLength.trans rightLength.symm, ?_⟩
  · cases scalar with
    | none => cases given
    | some value => exact congrArg some (Except.ok.inj given)
  · rw [axpy, same]
    exact (Except.ok.inj result).symm

theorem eq_singleton_of_reduce {reduction : List α → Except KernelFault α}
    {operands : List (List α)} {output : List α}
    (finished : (reduce reduction operands output).fault = none) :
    ∃ operand value, operands[0]? = some operand ∧ reduction operand = .ok value ∧
      (reduce reduction operands output).contents = [value] := by
  obtain ⟨contents, computed, same⟩ := exists_of_ofExcept finished
  by_cases single : output.length = 1
  · simp only [single, if_true, bind_eq_ok_iff, operandAt_ok_iff] at computed
    obtain ⟨operand, found, value, reduced, result⟩ := computed
    refine ⟨operand, value, found, reduced, ?_⟩
    rw [reduce, same]
    exact (Except.ok.inj result).symm
  · simp only [single, if_false] at computed
    cases computed

end Elementwise

section Matrices

variable {arithmetic : Arithmetic α} {inputs further : List Tensor} {first : Tensor}
  {operands : List (List α)} {output contents : List α}

theorem inputAt_ok_iff {tensors : List Tensor} {position : Nat} {tensor : Tensor} :
    inputAt tensors position = .ok tensor ↔ tensors[position]? = some tensor := by
  rw [inputAt]
  cases tensors[position]? with
  | none => simp
  | some found => simp

theorem sameFormAs_ok_iff {form operandForm : MatrixForm} {output operand : Tensor} :
    sameFormAs form output operand = .ok operandForm ↔
      operand.matrixForm = .ok operandForm ∧ operandForm.rows = form.rows ∧
        operandForm.columns = form.columns := by
  have alike (found : MatrixForm) : found.sameDimensions form = true ↔
      found.rows = form.rows ∧ found.columns = form.columns := by
    simp only [MatrixForm.sameDimensions, Bool.and_eq_true, decide_eq_true_eq]
  simp only [sameFormAs, bind_eq_ok_iff, alike]
  constructor
  · rintro ⟨found, isMatrix, checked⟩
    split at checked
    · rename_i same
      cases checked
      exact ⟨isMatrix, same⟩
    · cases checked
  · rintro ⟨isMatrix, same⟩
    exact ⟨operandForm, isMatrix, if_pos same⟩

theorem isMatrix_of_found (fitted : Fitted inputs operands) {position : Nat} {tensor : Tensor}
    {form : MatrixForm} {operand : List α} (tensorFound : inputs[position]? = some tensor)
    (isMatrix : tensor.matrixForm = .ok form) (found : operands[position]? = some operand) :
    IsMatrix inputs operands position form operand := by
  have fits := fitted position tensor operand tensorFound found
  exact ⟨tensor, tensorFound, isMatrix, found, fits.length_eq isMatrix⟩

theorem combinesMatrices_of_matrixCombine {function : α → α → α} (fitted : Fitted inputs operands)
    (fits : first.Fits output)
    (computed : matrixCombine arithmetic function inputs (first :: further) operands output =
      .ok contents) :
    CombinesMatrices arithmetic inputs first operands contents function := by
  simp only [matrixCombine, bind_eq_ok_iff, inputAt_ok_iff, operandAt_ok_iff] at computed
  obtain ⟨_, same, form, isForm, leftTensor, leftListed, leftForm, leftSame, rightTensor,
    rightListed, rightForm, rightSame, left, leftFound, right, rightFound, result⟩ := computed
  cases same
  cases result
  obtain ⟨leftIsMatrix, leftAlike⟩ := sameFormAs_ok_iff.mp leftSame
  obtain ⟨rightIsMatrix, rightAlike⟩ := sameFormAs_ok_iff.mp rightSame
  exact ⟨form, leftForm, rightForm, left, right, isForm,
    isMatrix_of_found fitted leftListed leftIsMatrix leftFound,
    isMatrix_of_found fitted rightListed rightIsMatrix rightFound, leftAlike, rightAlike,
    form.holds_fill _ _ (fits.length_eq isForm)⟩

theorem transposes_of_matrixTranspose (fitted : Fitted inputs operands)
    (fits : first.Fits output)
    (computed : matrixTranspose arithmetic inputs (first :: further) operands output =
      .ok contents) :
    Transposes arithmetic inputs first operands contents := by
  simp only [matrixTranspose, bind_eq_ok_iff, inputAt_ok_iff] at computed
  obtain ⟨tensor, listed, _, same, operandForm, isMatrix, form, isForm, computed⟩ := computed
  cases same
  by_cases fitting : form.rows = operandForm.columns ∧ form.columns = operandForm.rows
  · rw [if_pos fitting, bind_eq_ok_iff] at computed
    obtain ⟨operand, found, result⟩ := computed
    cases result
    exact ⟨form, operandForm, operand, isForm,
      isMatrix_of_found fitted listed isMatrix (operandAt_ok_iff.mp found), fitting.1, fitting.2,
      form.holds_fill _ _ (fits.length_eq isForm)⟩
  · rw [if_neg fitting] at computed
    cases computed

theorem multipliesMatrices_of_matrixMul (fitted : Fitted inputs operands)
    (fits : first.Fits output)
    (computed : matrixMul arithmetic inputs (first :: further) operands output = .ok contents) :
    MultipliesMatrices arithmetic inputs first operands contents := by
  simp only [matrixMul, bind_eq_ok_iff, inputAt_ok_iff] at computed
  obtain ⟨leftTensor, leftListed, rightTensor, rightListed, _, same, leftForm, leftIsMatrix,
    rightForm, rightIsMatrix, computed⟩ := computed
  cases same
  by_cases inner : leftForm.columns = rightForm.rows
  · rw [if_pos inner, bind_eq_ok_iff] at computed
    obtain ⟨form, isForm, computed⟩ := computed
    by_cases outer : form.rows = leftForm.rows ∧ form.columns = rightForm.columns
    · rw [if_pos outer] at computed
      simp only [bind_eq_ok_iff, operandAt_ok_iff] at computed
      obtain ⟨left, leftFound, right, rightFound, result⟩ := computed
      cases result
      exact ⟨form, leftForm, rightForm, left, right, isForm,
        isMatrix_of_found fitted leftListed leftIsMatrix leftFound,
        isMatrix_of_found fitted rightListed rightIsMatrix rightFound, inner, outer.1, outer.2,
        form.holds_fill _ _ (fits.length_eq isForm)⟩
    · rw [if_neg outer] at computed
      cases computed
  · rw [if_neg inner] at computed
    cases computed

theorem multipliesArray_of_matrixArrayMul (fitted : Fitted inputs operands)
    (computed : matrixArrayMul arithmetic inputs operands output = .ok contents) :
    MultipliesArray arithmetic inputs operands contents := by
  simp only [matrixArrayMul, bind_eq_ok_iff, inputAt_ok_iff, operandAt_ok_iff,
    operandOfLength_ok_iff] at computed
  obtain ⟨tensor, listed, form, isMatrix, matrix, found, array, ⟨arrayFound, arrayLength⟩,
    computed⟩ := computed
  by_cases fitting : output.length = form.rows
  · rw [if_pos fitting] at computed
    exact ⟨form, matrix, array, isMatrix_of_found fitted listed isMatrix found, arrayFound,
      arrayLength, (Except.ok.inj computed).symm⟩
  · rw [if_neg fitting] at computed
    cases computed

theorem addsArray_of_matrixArrayAdd (fitted : Fitted inputs operands)
    (fits : first.Fits output)
    (computed : matrixArrayAdd arithmetic inputs (first :: further) operands output =
      .ok contents) :
    AddsArray arithmetic inputs first operands contents := by
  simp only [matrixArrayAdd, bind_eq_ok_iff, inputAt_ok_iff] at computed
  obtain ⟨tensor, listed, _, same, matrixForm, isMatrix, form, isForm, computed⟩ := computed
  cases same
  by_cases alike : form.sameDimensions matrixForm = true
  · rw [if_pos alike] at computed
    simp only [bind_eq_ok_iff, operandAt_ok_iff, operandOfLength_ok_iff] at computed
    obtain ⟨matrix, found, array, ⟨arrayFound, arrayLength⟩, result⟩ := computed
    cases result
    simp only [MatrixForm.sameDimensions, Bool.and_eq_true, decide_eq_true_eq] at alike
    exact ⟨form, matrixForm, matrix, array, isForm,
      isMatrix_of_found fitted listed isMatrix found, arrayFound, arrayLength, alike.1, alike.2,
      form.holds_fill _ _ (fits.length_eq isForm)⟩
  · rw [if_neg alike] at computed
    cases computed

end Matrices

section Standard

variable {arithmetic : Arithmetic α} {scalar : Option α} {kind : OperationKind}
  {inputs outputs further : List Tensor} {first : Tensor} {operands : List (List α)}

theorem divide?_of_divide {left right value : α}
    (computed : divide arithmetic left right = .ok value) :
    arithmetic.divide? left right = some value := by
  rw [divide] at computed
  cases found : arithmetic.divide? left right with
  | none => simp [found] at computed
  | some quotient => simpa [found] using computed

theorem divide?_of_mean {elements : List α} {value : α}
    (computed : mean arithmetic elements = .ok value) :
    arithmetic.divide? (sum arithmetic elements) (arithmetic.ofCount elements.length) =
      some value := by
  rw [mean] at computed
  split at computed
  · rename_i quotient divided
    cases computed
    exact divided
  · cases computed

theorem unary?_of_apply {function : UnaryFunction} {element value : α}
    (computed : apply arithmetic function element = .ok value) :
    arithmetic.unary? function element = some value := by
  rw [apply] at computed
  cases found : arithmetic.unary? function element with
  | none => simp [found] at computed
  | some result => simpa [found] using computed

theorem eq_of_faultless {function : α → α → α} (left right value : α)
    (computed : faultless function left right = .ok value) :
    some (function left right) = some value :=
  congrArg some (Except.ok.inj computed)

theorem means_of_primary (fitted : Fitted inputs operands) {output : List α}
    (fits : first.Fits output)
    (finished :
      (primary arithmetic scalar kind inputs (first :: further) operands output).fault = none) :
    Means arithmetic scalar inputs first operands
      (primary arithmetic scalar kind inputs (first :: further) operands output).contents kind := by
  cases kind with
  | elementAdd | elementSub | elementMul => exact combinesTo_of_fold eq_of_faultless finished
  | elementDiv => exact combinesTo_of_fold (fun _ _ _ => divide?_of_divide) finished
  | fill => exact eq_of_fill finished
  | copy => exact getElem?_of_copy finished
  | exp | sin | cos | abs => exact mapsTo_of_mapOperand (fun _ _ => unary?_of_apply) finished
  | scalarAdd | scalarSub | scalarMul =>
      exact exists_mapsTo_of_withScalar eq_of_faultless finished
  | scalarDiv => exact exists_mapsTo_of_withScalar (fun _ _ _ => divide?_of_divide) finished
  | arrayAxpy => exact eq_zipWith_of_axpy finished
  | arraySum =>
      obtain ⟨operand, value, found, reduced, same⟩ := eq_singleton_of_reduce finished
      cases reduced
      exact ⟨operand, found, same⟩
  | arrayMean =>
      obtain ⟨operand, value, found, reduced, same⟩ := eq_singleton_of_reduce finished
      exact ⟨operand, value, found, divide?_of_mean reduced, same⟩
  | matrixAdd | matrixSub =>
      exact holds_of_ofExcept finished (combinesMatrices_of_matrixCombine fitted fits)
  | matrixTranspose =>
      exact holds_of_ofExcept finished (transposes_of_matrixTranspose fitted fits)
  | matrixMul =>
      exact holds_of_ofExcept finished (multipliesMatrices_of_matrixMul fitted fits)
  | matrixArrayMul =>
      exact holds_of_ofExcept finished (multipliesArray_of_matrixArrayMul fitted)
  | matrixArrayAdd =>
      exact holds_of_ofExcept finished (addsArray_of_matrixArrayAdd fitted fits)
  | elementRandom | matrixInverse | group | zero | identity => cases finished

theorem copyToOthers_finished {contents : List α} {tensors : List Tensor} {others : List (List α)}
    (counted : others.length = tensors.length)
    (finished : (copyToOthers first contents tensors others).2 = none) :
    (copyToOthers first contents tensors others).1 = tensors.map (fun _ => contents) ∧
      ∀ tensor ∈ tensors, tensor.shape = first.shape ∧ tensor.layout = first.layout := by
  induction tensors generalizing others with
  | nil =>
      rw [List.length_eq_zero_iff.mp counted]
      exact ⟨rfl, by simp⟩
  | cons tensor tensors ih =>
      obtain ⟨other, others, rfl⟩ := List.exists_cons_of_length_eq_add_one counted
      by_cases alike : tensor.shape = first.shape ∧ tensor.layout = first.layout
      · simp only [copyToOthers, alike, and_self, if_true] at finished ⊢
        obtain ⟨copies, others⟩ := ih (Nat.succ.inj counted) finished
        rw [copies]
        exact ⟨rfl, List.forall_mem_cons.mpr ⟨alike, others⟩⟩
      · rw [copyToOthers, if_neg alike] at finished
        cases finished

theorem matrixForm_ok_iff_of_alike {tensor other : Tensor} (sameShape : tensor.shape = other.shape)
    (sameLayout : tensor.layout = other.layout) {form : MatrixForm} :
    tensor.matrixForm = .ok form ↔ other.matrixForm = .ok form := by
  rw [Tensor.matrixForm, Tensor.matrixForm, sameShape, sameLayout]
  split
  · rfl
  · simp

theorem yields_iff_of_alike {tensor other : Tensor} (sameShape : tensor.shape = other.shape)
    (sameLayout : tensor.layout = other.layout) {result : List α} :
    Yields arithmetic scalar inputs tensor operands result kind ↔
      Yields arithmetic scalar inputs other operands result kind := by
  have form := fun form => @matrixForm_ok_iff_of_alike _ _ sameShape sameLayout form
  have count : tensor.elementCount = other.elementCount := congrArg Shape.elementCount sameShape
  rw [Yields, Yields, count]
  cases kind with
  | matrixAdd | matrixSub | matrixTranspose | matrixMul | matrixArrayAdd =>
      simp only [Means, CombinesMatrices, Transposes, MultipliesMatrices, AddsArray, form]
  | _ => exact Iff.rfl

/-- Where the kernels finish, all outputs hold what the operation means. -/
theorem yields_of_compute (filled : Filled inputs operands)
    (valid : ∀ tensor ∈ outputs, tensor.validate = .ok ()) {before : List (List α)}
    (lengths : before.map List.length = outputs.map Tensor.elementCount)
    (finished : (compute arithmetic scalar kind inputs outputs ⟨operands, before⟩).2 = none) :
    ∃ result,
      (compute arithmetic scalar kind inputs outputs ⟨operands, before⟩).1 =
        outputs.map (fun _ => result) ∧
      ∀ tensor ∈ outputs, Yields arithmetic scalar inputs tensor operands result kind := by
  cases outputs with
  | nil => cases finished
  | cons first further =>
      obtain ⟨output, others, rfl, length, otherLengths⟩ := List.map_eq_cons_iff.mp lengths
      have firstValid := valid first (by simp)
      simp only [compute] at finished ⊢
      cases stopped :
          (primary arithmetic scalar kind inputs (first :: further) operands output).fault with
      | some fault =>
          simp only [stopped] at finished
          cases finished
      | none =>
          simp only [stopped] at finished ⊢
          have counted : others.length = further.length := by
            simpa using congrArg List.length otherLengths
          obtain ⟨copies, alike⟩ := copyToOthers_finished counted finished
          have overwrites := primary_overwrites arithmetic scalar kind inputs operands
            (firstOutputCounts firstValid further)
          have yields : Yields arithmetic scalar inputs first operands
              (primary arithmetic scalar kind inputs (first :: further) operands output).contents
              kind :=
            ⟨overwrites.keepsLength output length,
              means_of_primary filled.fitted (Tensor.fits_of_validate firstValid length) stopped⟩
          refine ⟨_, by rw [copies]; rfl, List.forall_mem_cons.mpr ⟨yields, ?_⟩⟩
          intro tensor member
          obtain ⟨sameShape, sameLayout⟩ := alike tensor member
          exact (yields_iff_of_alike sameShape sameLayout).mpr yields

end Standard

end Kernel

end TensorGraph
