import TensorGraph.Proofs.KernelCorrectness
import TensorGraph.Proofs.Operations

/-!
How the standard kernels can stop on an operation that was checked when it was built: on operands
that do not fit one another, and on a quotient that the element type does not have.
-/

namespace TensorGraph

theorem Operation.Equipped.exists_scalar {kind : OperationKind} {elementType : ElementType}
    {inputs : Nat} {parameters : Parameters}
    (equipped : Equipped kind elementType inputs parameters)
    (takesScalar : kind.parameterSize elementType = elementType.byteSize) :
    ∃ value, parameters.scalar? elementType = some value := by
  rw [Parameters.scalar?, if_pos (equipped.parameters.trans takesScalar)]
  exact ⟨_, rfl⟩

namespace ElementType

theorem total_of_isFloat {elementType : ElementType} (isFloat : elementType.isFloat = true)
    {arithmetic : Arithmetic (Element elementType)}
    (known : elementType.arithmetic = some arithmetic) :
    (∀ left right, ∃ quotient, arithmetic.divide? left right = some quotient) ∧
      ∀ function element, ∃ value, arithmetic.unary? function element = some value := by
  cases elementType with
  | f32 | f64 =>
      cases known
      exact ⟨fun _ _ => ⟨_, rfl⟩, fun _ _ => ⟨_, rfl⟩⟩
  | f16 => cases known
  | u8 | u16 | u32 | u64 | i8 | i16 | i32 | i64 => cases isFloat

end ElementType

namespace Kernel

variable {α β : Type}

/-- A quotient that an operation asks for and that its element type does not have. -/
inductive LacksQuotient (arithmetic : Arithmetic α) (scalar : Option α)
    (operands : List (List α)) : OperationKind → ComputationFault → Prop
  | elementDiv {position : Nat} {first : α} {rest : List α} :
      column operands position = first :: rest → rest.foldlM arithmetic.divide? first = none →
      LacksQuotient arithmetic scalar operands .elementDiv .divisionByZero
  | scalarDiv {operand : List α} {dividend divisor : α} :
      operands[0]? = some operand → dividend ∈ operand → scalar = some divisor →
      arithmetic.divide? dividend divisor = none →
      LacksQuotient arithmetic scalar operands .scalarDiv .divisionByZero
  | arrayMean {operand : List α} :
      operands[0]? = some operand →
      arithmetic.divide? (sum arithmetic operand) (arithmetic.ofCount operand.length) = none →
      LacksQuotient arithmetic scalar operands .arrayMean .zeroMeanCount

theorem LacksQuotient.isFloat_eq_false {elementType : ElementType}
    {arithmetic : Arithmetic (Element elementType)} {scalar : Option (Element elementType)}
    {operands : List (List (Element elementType))} {kind : OperationKind}
    {fault : ComputationFault} (lacking : LacksQuotient arithmetic scalar operands kind fault)
    (known : elementType.arithmetic = some arithmetic) : elementType.isFloat = false := by
  rw [← Bool.not_eq_true]
  intro isFloat
  have divides := (ElementType.total_of_isFloat isFloat known).1
  cases lacking with
  | @elementDiv _ first rest _ stopped =>
      obtain ⟨quotient, divided⟩ := exists_foldlM_of_total divides rest first
      rw [divided] at stopped
      cases stopped
  | @scalarDiv _ dividend divisor _ _ _ stopped =>
      obtain ⟨quotient, divided⟩ := divides dividend divisor
      rw [divided] at stopped
      cases stopped
  | arrayMean _ stopped =>
      obtain ⟨quotient, divided⟩ := divides _ _
      rw [divided] at stopped
      cases stopped

/-- Faults that the checks made at construction leave possible. -/
inductive Foreseen (arithmetic : Arithmetic α) (scalar : Option α) (operands : List (List α))
    (kind : OperationKind) : KernelFault → Prop
  | mismatch (fault : OperandFault) : Foreseen arithmetic scalar operands kind (.operands fault)
  | quotient {fault : ComputationFault} : LacksQuotient arithmetic scalar operands kind fault →
      Foreseen arithmetic scalar operands kind (.computation fault)

def IsMismatch (fault : KernelFault) : Prop := ∃ mismatch, fault = .operands mismatch

theorem IsMismatch.foreseen {arithmetic : Arithmetic α} {scalar : Option α}
    {operands : List (List α)} {kind : OperationKind} {fault : KernelFault}
    (isMismatch : IsMismatch fault) : Foreseen arithmetic scalar operands kind fault := by
  obtain ⟨mismatch, rfl⟩ := isMismatch
  exact .mismatch mismatch

def NeedsFit (computed : Except KernelFault β) : Prop :=
  ∀ fault, computed = .error fault → IsMismatch fault

namespace NeedsFit

theorem ok (value : β) : NeedsFit (.ok value : Except KernelFault β) := by
  rintro fault ⟨⟩

theorem error (mismatch : OperandFault) :
    NeedsFit (.error (.operands mismatch) : Except KernelFault β) := by
  rintro fault ⟨⟩
  exact ⟨mismatch, rfl⟩

theorem bind {first : Except KernelFault α} {next : α → Except KernelFault β}
    (firstFits : NeedsFit first) (nextFits : ∀ value, first = .ok value → NeedsFit (next value)) :
    NeedsFit (first >>= next) := by
  intro fault failed
  rcases bind_eq_error_iff.mp failed with here | ⟨value, computed, later⟩
  · exact firstFits fault here
  · exact nextFits value computed fault later

theorem ite {condition : Prop} [Decidable condition] {left right : Except KernelFault β}
    (leftFits : condition → NeedsFit left) (rightFits : ¬condition → NeedsFit right) :
    NeedsFit (if condition then left else right) := by
  by_cases holds : condition
  · rw [if_pos holds]
    exact leftFits holds
  · rw [if_neg holds]
    exact rightFits holds

end NeedsFit

theorem needsFit_operandAt {operands : List (List α)} {position : Nat}
    (bound : position < operands.length) : NeedsFit (operandAt operands position) := by
  rw [operandAt_ok_iff.mpr (List.getElem?_eq_getElem bound)]
  exact .ok _

theorem needsFit_operandOfLength {operands : List (List α)} {position length : Nat}
    (bound : position < operands.length) :
    NeedsFit (operandOfLength operands position length) :=
  .bind (needsFit_operandAt bound) fun _ _ => .ite (fun _ => .ok _) fun _ => .error _

theorem exists_of_operandOfLength_error {operands : List (List α)} {position length : Nat}
    {fault : KernelFault} (bound : position < operands.length)
    (failed : operandOfLength operands position length = .error fault) :
    IsMismatch fault ∧ ∃ operand, operands[position]? = some operand ∧ operand.length ≠ length := by
  have found := List.getElem?_eq_getElem bound
  refine ⟨needsFit_operandOfLength bound fault failed, _, found, fun fitting => ?_⟩
  rw [operandOfLength_ok_iff.mpr ⟨found, fitting⟩] at failed
  cases failed

theorem needsFit_inputAt {tensors : List Tensor} {position : Nat}
    (bound : position < tensors.length) : NeedsFit (inputAt tensors position) := by
  rw [inputAt_ok_iff.mpr (List.getElem?_eq_getElem bound)]
  exact .ok _

theorem needsFit_matrixForm (tensor : Tensor) : NeedsFit tensor.matrixForm := by
  rw [Tensor.matrixForm]
  split
  · exact .ok _
  · exact .error _

theorem needsFit_sameFormAs (form : MatrixForm) (output operand : Tensor) :
    NeedsFit (sameFormAs form output operand) :=
  .bind (needsFit_matrixForm operand) fun _ _ => .ite (fun _ => .ok _) fun _ => .error _

section Matrices

variable {arithmetic : Arithmetic α} {inputs further : List Tensor} {first : Tensor}
  {operands : List (List α)} {output : List α}

theorem needsFit_matrixCombine (function : α → α → α) (enough : 2 ≤ inputs.length)
    (held : operands.length = inputs.length) :
    NeedsFit (matrixCombine arithmetic function inputs (first :: further) operands output) := by
  refine .bind (.ok first) fun target _ => .bind (needsFit_matrixForm target) fun form _ => ?_
  refine .bind (needsFit_inputAt (by omega)) fun left _ => .bind (needsFit_sameFormAs _ _ _)
    fun _ _ => .bind (needsFit_inputAt (by omega)) fun right _ =>
      .bind (needsFit_sameFormAs _ _ _) fun _ _ => ?_
  exact .bind (needsFit_operandAt (by omega)) fun _ _ =>
    .bind (needsFit_operandAt (by omega)) fun _ _ => .ok _

theorem needsFit_matrixTranspose (enough : 1 ≤ inputs.length)
    (held : operands.length = inputs.length) :
    NeedsFit (matrixTranspose arithmetic inputs (first :: further) operands output) := by
  refine .bind (needsFit_inputAt (by omega)) fun source _ => .bind (.ok first) fun target _ => ?_
  refine .bind (needsFit_matrixForm source) fun _ _ => .bind (needsFit_matrixForm target)
    fun _ _ => .ite (fun _ => ?_) fun _ => .error _
  exact .bind (needsFit_operandAt (by omega)) fun _ _ => .ok _

theorem needsFit_matrixMul (enough : 2 ≤ inputs.length)
    (held : operands.length = inputs.length) :
    NeedsFit (matrixMul arithmetic inputs (first :: further) operands output) := by
  refine .bind (needsFit_inputAt (by omega)) fun left _ =>
    .bind (needsFit_inputAt (by omega)) fun right _ => .bind (.ok first) fun target _ => ?_
  refine .bind (needsFit_matrixForm left) fun _ _ => .bind (needsFit_matrixForm right)
    fun _ _ => .ite (fun _ => ?_) fun _ => .error _
  refine .bind (needsFit_matrixForm target) fun _ _ => .ite (fun _ => ?_) fun _ => .error _
  exact .bind (needsFit_operandAt (by omega)) fun _ _ =>
    .bind (needsFit_operandAt (by omega)) fun _ _ => .ok _

theorem needsFit_matrixArrayMul (enough : 2 ≤ inputs.length)
    (held : operands.length = inputs.length) :
    NeedsFit (matrixArrayMul arithmetic inputs operands output) := by
  refine .bind (needsFit_inputAt (by omega)) fun matrix _ =>
    .bind (needsFit_matrixForm matrix) fun _ _ => ?_
  exact .bind (needsFit_operandAt (by omega)) fun _ _ =>
    .bind (needsFit_operandOfLength (by omega)) fun _ _ =>
      .ite (fun _ => .ok _) fun _ => .error _

theorem needsFit_matrixArrayAdd (enough : 2 ≤ inputs.length)
    (held : operands.length = inputs.length) :
    NeedsFit (matrixArrayAdd arithmetic inputs (first :: further) operands output) := by
  refine .bind (needsFit_inputAt (by omega)) fun matrix _ => .bind (.ok first) fun target _ => ?_
  refine .bind (needsFit_matrixForm matrix) fun _ _ => .bind (needsFit_matrixForm target)
    fun _ _ => .ite (fun _ => ?_) fun _ => .error _
  exact .bind (needsFit_operandAt (by omega)) fun _ _ =>
    .bind (needsFit_operandOfLength (by omega)) fun _ _ => .ok _

end Matrices

section Elementwise

variable {function : α → α → Except KernelFault α} {operands : List (List α)} {output : List α}
  {fault : KernelFault}

theorem eq_error_of_ofExcept {before : List α} {computed : Except KernelFault (List α)}
    (stopped : (Progress.ofExcept before computed).fault = some fault) :
    computed = .error fault := by
  cases computed with
  | error other =>
      cases stopped
      rfl
  | ok contents => cases stopped

theorem NeedsFit.of_ofExcept {before : List α} {computed : Except KernelFault (List α)}
    (needsFit : NeedsFit computed)
    (stopped : (Progress.ofExcept before computed).fault = some fault) : IsMismatch fault :=
  needsFit fault (eq_error_of_ofExcept stopped)

theorem exists_of_combine_fault {elements operand : List α}
    (stopped : (combine function elements operand).fault = some fault) :
    ∃ (position : Nat) (element addend : α), elements[position]? = some element ∧
      operand[position]? = some addend ∧ function element addend = .error fault := by
  induction elements generalizing operand with
  | nil => cases stopped
  | cons element elements ih =>
      cases operand with
      | nil => cases stopped
      | cons addend operand =>
          rw [combine] at stopped
          cases computed : function element addend with
          | error other =>
              simp only [computed] at stopped
              cases stopped
              exact ⟨0, element, addend, rfl, rfl, computed⟩
          | ok value =>
              simp only [computed] at stopped
              obtain ⟨position, later, laterAddend, found, addendFound, failed⟩ := ih stopped
              exact ⟨position + 1, later, laterAddend, found, addendFound, failed⟩

/-- Where the combination of several operands stops, it does so on the length of one of them, or at
some position on what the operands before came to there. -/
theorem exists_of_combineAll_fault {start : Nat}
    (stopped : (combineAll function start operands output).fault = some fault) :
    (IsMismatch fault ∧ ∃ operand ∈ operands, operand.length ≠ output.length) ∨
      ∃ position first, output[position]? = some first ∧
        (column operands position).foldlM function first = .error fault := by
  induction operands generalizing start output with
  | nil => cases stopped
  | cons operand operands ih =>
      rw [combineAll] at stopped
      by_cases same : operand.length = output.length
      · rw [if_pos same, Progress.andThen] at stopped
        cases combined : (combine function output operand).fault with
        | some other =>
            simp only [combined] at stopped
            cases stopped
            obtain ⟨position, first, addend, found, addendFound, failed⟩ :=
              exists_of_combine_fault combined
            refine Or.inr ⟨position, first, found, ?_⟩
            rw [column_cons addendFound, List.foldlM_cons, failed]
            rfl
        | none =>
            simp only [combined] at stopped
            refine (ih stopped).imp ?_ ?_
            · rintro ⟨isMismatch, other, listed, unlike⟩
              rw [length_combine] at unlike
              exact ⟨isMismatch, other, List.mem_cons_of_mem _ listed, unlike⟩
            rintro ⟨position, next, nextFound, failed⟩
            have bound := (List.getElem?_eq_some_iff.mp nextFound).1
            rw [length_combine] at bound
            have found := List.getElem?_eq_getElem bound
            obtain ⟨addend, value, addendFound, valueFound, computed⟩ :=
              getElem?_of_combine same.symm combined found
            rw [nextFound] at valueFound
            cases valueFound
            refine ⟨position, _, found, ?_⟩
            rw [column_cons addendFound, List.foldlM_cons, computed]
            exact failed
      · rw [if_neg same] at stopped
        cases stopped
        exact Or.inl ⟨⟨_, rfl⟩, operand, List.mem_cons_self, same⟩

theorem exists_of_fold_fault (held : 1 ≤ operands.length)
    (stopped : (fold function operands output).fault = some fault) :
    (IsMismatch fault ∧ ∃ operand ∈ operands, operand.length ≠ output.length) ∨
      ∃ position first rest, column operands position = first :: rest ∧
        rest.foldlM function first = .error fault := by
  rw [fold] at stopped
  cases found : operandOfLength operands 0 output.length with
  | error other =>
      simp only [found] at stopped
      cases stopped
      obtain ⟨isMismatch, operand, listed, unlike⟩ := exists_of_operandOfLength_error held found
      exact Or.inl ⟨isMismatch, operand, List.mem_of_getElem? listed, unlike⟩
  | ok operand =>
      simp only [found] at stopped
      obtain ⟨isFirst, length⟩ := operandOfLength_ok_iff.mp found
      refine (exists_of_combineAll_fault stopped).imp ?_ ?_
      · rintro ⟨isMismatch, other, listed, unlike⟩
        exact ⟨isMismatch, other, List.mem_of_mem_drop listed, length ▸ unlike⟩
      rintro ⟨position, first, firstFound, failed⟩
      refine ⟨position, first, column (operands.drop 1) position, ?_, failed⟩
      cases operands with
      | nil => cases isFirst
      | cons head rest =>
          cases isFirst
          exact column_cons firstFound

theorem mismatch_of_faultless_fold {combination : α → α → α} (held : 1 ≤ operands.length)
    (stopped : (fold (faultless combination) operands output).fault = some fault) :
    IsMismatch fault ∧ ∃ operand ∈ operands, operand.length ≠ output.length := by
  refine (exists_of_fold_fault held stopped).resolve_right ?_
  rintro ⟨_, first, rest, _, failed⟩
  have finished : rest.foldlM (faultless combination) first =
      .ok (rest.foldl combination first) := List.foldlM_pure
  rw [finished] at failed
  cases failed

theorem exists_of_mapOperand_fault {value : α → Except KernelFault α} (held : 1 ≤ operands.length)
    (stopped : (mapOperand value operands output).fault = some fault) :
    (IsMismatch fault ∧ ∃ operand, operands[0]? = some operand ∧ operand.length ≠ output.length) ∨
      ∃ operand element, operands[0]? = some operand ∧ element ∈ operand ∧
        value element = .error fault := by
  rw [mapOperand] at stopped
  cases found : operandOfLength operands 0 output.length with
  | error other =>
      simp only [found] at stopped
      cases stopped
      exact Or.inl (exists_of_operandOfLength_error held found)
  | ok operand =>
      simp only [found] at stopped
      obtain ⟨_, _, element, _, listed, failed⟩ := exists_of_combine_fault stopped
      exact Or.inr ⟨operand, element, (operandOfLength_ok_iff.mp found).1,
        List.mem_of_getElem? listed, failed⟩

theorem isMismatch_of_mapOperand {value : α → Except KernelFault α}
    (total : ∀ element, ∃ result, value element = .ok result) (held : 1 ≤ operands.length)
    (stopped : (mapOperand value operands output).fault = some fault) : IsMismatch fault := by
  refine ((exists_of_mapOperand_fault held stopped).resolve_right ?_).1
  rintro ⟨_, element, _, _, failed⟩
  obtain ⟨result, computed⟩ := total element
  rw [computed] at failed
  cases failed

theorem isMismatch_of_axpy {arithmetic : Arithmetic α} {scalar : Option α}
    (given : ∃ value, scalar = some value) (held : 2 ≤ operands.length)
    (stopped : (axpy arithmetic scalar operands output).fault = some fault) :
    IsMismatch fault := by
  obtain ⟨factor, rfl⟩ := given
  refine NeedsFit.of_ofExcept ?_ stopped
  exact .bind (.ok factor) fun _ _ => .bind (needsFit_operandOfLength (by omega)) fun _ _ =>
    .bind (needsFit_operandOfLength (by omega)) fun _ _ => .ok _

theorem exists_of_reduce_fault {reduction : List α → Except KernelFault α}
    (held : 1 ≤ operands.length)
    (stopped : (reduce reduction operands output).fault = some fault) :
    (IsMismatch fault ∧ output.length ≠ 1) ∨
      ∃ operand, operands[0]? = some operand ∧ reduction operand = .error fault := by
  have failed := eq_error_of_ofExcept stopped
  by_cases single : output.length = 1
  · rw [if_pos single, bind_eq_error_iff] at failed
    rcases failed with missing | ⟨operand, found, later⟩
    · rw [operandAt_ok_iff.mpr (List.getElem?_eq_getElem held)] at missing
      cases missing
    · rcases bind_eq_error_iff.mp later with reduced | ⟨_, _, impossible⟩
      · exact Or.inr ⟨operand, operandAt_ok_iff.mp found, reduced⟩
      · cases impossible
  · rw [if_neg single] at failed
    cases failed
    exact Or.inl ⟨⟨_, rfl⟩, single⟩

end Elementwise

section Standard

variable {arithmetic : Arithmetic α} {scalar : Option α} {operands : List (List α)}
  {fault : KernelFault}

theorem divide?_eq_none_of_divide {left right : α}
    (failed : divide arithmetic left right = .error fault) :
    fault = .computation .divisionByZero ∧ arithmetic.divide? left right = none := by
  rw [divide] at failed
  cases divided : arithmetic.divide? left right with
  | none =>
      simp only [divided, Except.error.injEq] at failed
      exact ⟨failed.symm, rfl⟩
  | some quotient =>
      simp only [divided] at failed
      cases failed

theorem divide?_eq_none_of_mean {elements : List α}
    (failed : mean arithmetic elements = .error fault) :
    fault = .computation .zeroMeanCount ∧
      arithmetic.divide? (sum arithmetic elements) (arithmetic.ofCount elements.length) = none := by
  rw [mean] at failed
  split at failed
  · cases failed
  · rename_i divided
    cases failed
    exact ⟨rfl, divided⟩

theorem foldlM_divide?_eq_none {first : α} {rest : List α}
    (failed : rest.foldlM (divide arithmetic) first = .error fault) :
    fault = .computation .divisionByZero ∧ rest.foldlM arithmetic.divide? first = none := by
  induction rest generalizing first with
  | nil => cases failed
  | cons divisor rest ih =>
      rw [List.foldlM_cons, bind_eq_error_iff] at failed
      rcases failed with here | ⟨quotient, divided, later⟩
      · obtain ⟨isDivision, undefined⟩ := divide?_eq_none_of_divide here
        refine ⟨isDivision, ?_⟩
        rw [List.foldlM_cons, undefined]
        rfl
      · obtain ⟨isDivision, undefined⟩ := ih later
        refine ⟨isDivision, ?_⟩
        rw [List.foldlM_cons, divide?_of_divide divided]
        exact undefined

theorem foreseen_of_elementDiv {output : List α} (held : 1 ≤ operands.length)
    (stopped : (fold (divide arithmetic) operands output).fault = some fault) :
    Foreseen arithmetic scalar operands .elementDiv fault := by
  rcases exists_of_fold_fault held stopped with ⟨isMismatch, _⟩ | ⟨_, _, _, listed, failed⟩
  · exact isMismatch.foreseen
  · obtain ⟨rfl, undefined⟩ := foldlM_divide?_eq_none failed
    exact .quotient (.elementDiv listed undefined)

theorem foreseen_of_scalarDiv {output : List α} (given : ∃ value, scalar = some value)
    (held : 1 ≤ operands.length)
    (stopped : (withScalar (divide arithmetic) scalar operands output).fault = some fault) :
    Foreseen arithmetic scalar operands .scalarDiv fault := by
  obtain ⟨divisor, rfl⟩ := given
  rcases exists_of_mapOperand_fault held stopped with
    ⟨isMismatch, _⟩ | ⟨_, _, found, listed, failed⟩
  · exact isMismatch.foreseen
  · obtain ⟨rfl, undefined⟩ := divide?_eq_none_of_divide failed
    exact .quotient (.scalarDiv found listed rfl undefined)

theorem foreseen_of_arrayMean {output : List α} (held : 1 ≤ operands.length)
    (stopped : (reduce (mean arithmetic) operands output).fault = some fault) :
    Foreseen arithmetic scalar operands .arrayMean fault := by
  rcases exists_of_reduce_fault held stopped with ⟨isMismatch, _⟩ | ⟨operand, found, failed⟩
  · exact isMismatch.foreseen
  · obtain ⟨rfl, undefined⟩ := divide?_eq_none_of_mean failed
    exact .quotient (.arrayMean found undefined)

theorem isMismatch_of_faultless_withScalar {combination : α → α → α} {output : List α}
    (given : ∃ value, scalar = some value) (held : 1 ≤ operands.length)
    (stopped : (withScalar (faultless combination) scalar operands output).fault = some fault) :
    IsMismatch fault := by
  obtain ⟨value, rfl⟩ := given
  exact isMismatch_of_mapOperand (fun element => ⟨combination element value, rfl⟩) held stopped

theorem isMismatch_of_copyToOthers {first : Tensor} {contents : List α} {tensors : List Tensor}
    {others : List (List α)}
    (stopped : (copyToOthers first contents tensors others).2 = some fault) :
    IsMismatch fault := by
  induction tensors generalizing others with
  | nil => cases stopped
  | cons tensor tensors ih =>
      cases others with
      | nil => cases stopped
      | cons other others =>
          rw [copyToOthers] at stopped
          split at stopped
          · exact ih stopped
          · cases stopped
            exact ⟨_, rfl⟩

end Standard

section Supported

variable {elementType : ElementType} {arithmetic : Arithmetic (Element elementType)}
  {kind : OperationKind} {parameters : Parameters} {inputs outputs further : List Tensor}
  {first : Tensor} {operands : List (List (Element elementType))} {fault : KernelFault}

theorem isMismatch_of_apply {function : UnaryFunction} {output : List (Element elementType)}
    (isFloat : elementType.isFloat = true) (known : elementType.arithmetic = some arithmetic)
    (held : 1 ≤ operands.length)
    (stopped : (mapOperand (apply arithmetic function) operands output).fault = some fault) :
    IsMismatch fault := by
  refine isMismatch_of_mapOperand (fun element => ?_) held stopped
  obtain ⟨value, computed⟩ := (ElementType.total_of_isFloat isFloat known).2 function element
  exact ⟨value, by simp only [apply, computed]⟩

theorem foreseen_of_primary (known : elementType.arithmetic = some arithmetic)
    (supported : KernelSet.standardSupports kind elementType = true)
    (equipped : Operation.Equipped kind elementType inputs.length parameters)
    (held : operands.length = inputs.length) {output : List (Element elementType)}
    (stopped : (primary arithmetic (parameters.scalar? elementType) kind inputs
      (first :: further) operands output).fault = some fault) :
    Foreseen arithmetic (parameters.scalar? elementType) operands kind fault := by
  have enough := equipped.enough
  have ofKind := (Bool.and_eq_true_iff.mp supported).2
  cases kind with
  | elementAdd | elementSub | elementMul =>
      exact (mismatch_of_faultless_fold (held ▸ Nat.le_of_succ_le enough) stopped).1.foreseen
  | elementDiv => exact foreseen_of_elementDiv (held ▸ Nat.le_of_succ_le enough) stopped
  | fill =>
      obtain ⟨value, given⟩ := equipped.exists_scalar rfl
      rw [given] at stopped
      cases stopped
  | copy =>
      exact (NeedsFit.of_ofExcept (needsFit_operandOfLength (held ▸ enough)) stopped).foreseen
  | exp | sin | cos | abs =>
      exact (isMismatch_of_apply ofKind known (held ▸ enough) stopped).foreseen
  | scalarAdd | scalarSub | scalarMul =>
      exact (isMismatch_of_faultless_withScalar (equipped.exists_scalar rfl) (held ▸ enough)
        stopped).foreseen
  | scalarDiv => exact foreseen_of_scalarDiv (equipped.exists_scalar rfl) (held ▸ enough) stopped
  | arrayAxpy =>
      exact (isMismatch_of_axpy (equipped.exists_scalar rfl) (held ▸ enough) stopped).foreseen
  | arraySum =>
      refine ((exists_of_reduce_fault (held ▸ enough) stopped).resolve_right ?_).1.foreseen
      rintro ⟨_, _, ⟨⟩⟩
  | arrayMean => exact foreseen_of_arrayMean (held ▸ enough) stopped
  | matrixAdd | matrixSub =>
      exact ((needsFit_matrixCombine _ enough held).of_ofExcept stopped).foreseen
  | matrixTranspose =>
      exact ((needsFit_matrixTranspose enough held).of_ofExcept stopped).foreseen
  | matrixMul => exact ((needsFit_matrixMul enough held).of_ofExcept stopped).foreseen
  | matrixArrayMul => exact ((needsFit_matrixArrayMul enough held).of_ofExcept stopped).foreseen
  | matrixArrayAdd => exact ((needsFit_matrixArrayAdd enough held).of_ofExcept stopped).foreseen
  | elementRandom | matrixInverse | group | zero | identity => cases ofKind

/-- The standard kernels stop for foreseen reasons only. -/
theorem foreseen_of_compute (known : elementType.arithmetic = some arithmetic)
    (supported : KernelSet.standardSupports kind elementType = true)
    (equipped : Operation.Equipped kind elementType inputs.length parameters)
    (held : operands.length = inputs.length) {before : List (List (Element elementType))}
    (written : outputs ≠ []) (counted : before.length = outputs.length)
    (stopped : (compute arithmetic (parameters.scalar? elementType) kind inputs outputs
      ⟨operands, before⟩).2 = some fault) :
    Foreseen arithmetic (parameters.scalar? elementType) operands kind fault := by
  obtain ⟨first, further, rfl⟩ := List.exists_cons_of_ne_nil written
  obtain ⟨output, others, rfl⟩ := List.exists_cons_of_length_eq_add_one counted
  simp only [compute] at stopped
  cases course : (primary arithmetic (parameters.scalar? elementType) kind inputs
      (first :: further) operands output).fault with
  | some other =>
      simp only [course] at stopped
      cases stopped
      exact foreseen_of_primary known supported equipped held course
  | none =>
      simp only [course] at stopped
      exact (isMismatch_of_copyToOthers stopped).foreseen

end Supported

end Kernel

/-- Calls as planning makes sure they are: with as many inputs as the kind of the operation takes,
with the contents of each operand, and with a scalar where the kind asks for one. -/
structure KernelCall.Provided {elementType : ElementType} (call : KernelCall elementType) : Prop
    extends call.Fitting where
  filled : Kernel.Filled call.inputs call.contents.inputs
  held : call.contents.inputs.length = call.inputs.length
  equipped : Operation.Equipped call.kind elementType call.inputs.length call.parameters
  writesSomething : call.outputs ≠ []

theorem KernelCall.Provided.counted {elementType : ElementType} {call : KernelCall elementType}
    (provided : call.Provided) : call.contents.outputs.length = call.outputs.length := by
  simpa using congrArg List.length provided.lengths

theorem KernelSet.exists_foreseen_of_error {elementType : ElementType}
    {call : KernelCall elementType} {arithmetic : Arithmetic (Element elementType)}
    (known : elementType.arithmetic = some arithmetic) (provided : call.Provided)
    (supported : standardSupports call.kind elementType = true) {error : ExecutionError}
    (stopped : (standardExecute elementType call).error = some error) :
    ∃ fault, error = call.error fault ∧
      Kernel.Foreseen arithmetic (call.parameters.scalar? elementType) call.contents.inputs
        call.kind fault := by
  simp only [standardExecute, known, Option.map_eq_some_iff] at stopped
  obtain ⟨fault, course, same⟩ := stopped
  exact ⟨fault, same.symm, Kernel.foreseen_of_compute known supported provided.equipped
    provided.held provided.writesSomething provided.counted course⟩

end TensorGraph
