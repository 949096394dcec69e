import TensorGraph.Proofs.IntegerArithmetic
import TensorGraph.Proofs.KernelFaults
import TensorGraph.Proofs.MirroredOutputs

/-!
Means of integers. The number of elements becomes an element itself before the sum is divided by it,
so that a mean is right as long as the element type has that number.
-/

namespace TensorGraph

open Element (toInt ofInt)

variable {elementType : ElementType} {arithmetic : Arithmetic (Element elementType)}

namespace KernelCall

variable {call : KernelCall elementType} {first : Tensor}
  {operand output : List (Element elementType)}

theorem mean_of_finished (isMean : call.kind = .arrayMean)
    (found : call.contents.inputs[0]? = some operand)
    (finished : (call.course arithmetic output).fault = none) :
    ∃ mean, (call.course arithmetic output).contents = [mean] ∧
      arithmetic.divide? (Kernel.sum arithmetic operand) (arithmetic.ofCount operand.length) =
        some mean := by
  rw [course, isMean] at finished ⊢
  obtain ⟨_, mean, same, reduced, contents⟩ := Kernel.eq_singleton_of_reduce finished
  rw [found] at same
  cases same
  exact ⟨mean, contents, Kernel.divide?_of_mean reduced⟩

theorem mean_undefined_of_fault (isMean : call.kind = .arrayMean)
    (found : call.contents.inputs[0]? = some operand) (single : output.length = 1)
    {fault : KernelFault} (stopped : (call.course arithmetic output).fault = some fault) :
    arithmetic.divide? (Kernel.sum arithmetic operand) (arithmetic.ofCount operand.length) =
      none := by
  rw [course, isMean] at stopped
  have held : 1 ≤ call.contents.inputs.length := (List.getElem?_eq_some_iff.mp found).1
  rcases Kernel.exists_of_reduce_fault held stopped with ⟨_, several⟩ | ⟨_, same, failed⟩
  · exact absurd single several
  · rw [found] at same
    cases same
    exact (Kernel.divide?_eq_none_of_mean failed).2

theorem toInt_of_finished (wrapsAround : arithmetic.WrapsAround elementType)
    (isMean : call.kind = .arrayMean) (found : call.contents.inputs[0]? = some operand)
    (inRange : elementType.InRange (operand.map (toInt elementType)).sum)
    (finished : (call.course arithmetic output).fault = none) :
    ∃ mean, (call.course arithmetic output).contents = [mean] ∧
      toInt elementType mean = (operand.map (toInt elementType)).sum.tdiv
        (toInt elementType (ofInt elementType operand.length)) := by
  obtain ⟨mean, contents, divided⟩ := mean_of_finished isMean found finished
  rw [wrapsAround.sum_eq, wrapsAround.ofCount] at divided
  refine ⟨mean, contents, ?_⟩
  rw [(wrapsAround.eq_of_divide? divided).2, Element.toInt_ofInt inRange]

theorem finished_of_inRange (wrapsAround : arithmetic.WrapsAround elementType)
    (isMean : call.kind = .arrayMean) (found : call.contents.inputs[0]? = some operand)
    (filled : operand ≠ []) (single : output.length = 1)
    (counted : elementType.InRange operand.length) :
    (call.course arithmetic output).fault = none := by
  by_contra stopped
  obtain ⟨fault, stopped⟩ := Option.ne_none_iff_exists'.mp stopped
  have undefined := mean_undefined_of_fault isMean found single stopped
  -- A positive count in range stays positive as an element, so that nothing about it is undefined.
  rw [wrapsAround.divide?_eq_none_iff, wrapsAround.ofCount] at undefined
  have positive : 0 < toInt elementType (ofInt elementType operand.length) := by
    have := List.length_pos_iff.mpr filled
    rw [Element.toInt_ofInt counted]
    omega
  exact Element.defined_of_pos positive _ undefined

/-- Where the sum of all elements is in range, what comes out is that sum divided by the number of
elements as the element type has it. If the type has that very number, the exact mean comes out. -/
theorem mean_outcome (isInteger : elementType.isFloat = false) (isMean : call.kind = .arrayMean)
    (found : call.contents.inputs[0]? = some operand) (filled : operand ≠ [])
    (writes : call.WritesFirst first output) (single : output.length = 1)
    (mirrored : call.Mirrored)
    (inRange : elementType.InRange (operand.map (toInt elementType)).sum) :
    ((KernelSet.standardExecute elementType call).error = none →
      ∃ mean, (KernelSet.standardExecute elementType call).outputs =
          call.outputs.map (fun _ => [mean]) ∧
        toInt elementType mean = (operand.map (toInt elementType)).sum.tdiv
          (toInt elementType (ofInt elementType operand.length))) ∧
    (elementType.InRange operand.length →
      (KernelSet.standardExecute elementType call).error = none ∧
      ∃ mean, (KernelSet.standardExecute elementType call).outputs =
          call.outputs.map (fun _ => [mean]) ∧
        toInt elementType mean =
          (operand.map (toInt elementType)).sum.tdiv operand.length) := by
  have known := ElementType.arithmetic_of_integer isInteger
  have wrapsAround := Arithmetic.wrapsAround_of_integer isInteger known
  have ends := error_eq_none_iff known writes
  constructor
  · intro finished
    obtain ⟨mean, contents, same⟩ :=
      toInt_of_finished wrapsAround isMean found inRange (ends.mp finished).1
    exact ⟨mean, by rw [outputs_of_finished known writes finished, contents], same⟩
  · intro counted
    have course := finished_of_inRange wrapsAround isMean found filled single counted
    have finished := ends.mpr ⟨course, mirrored⟩
    obtain ⟨mean, contents, same⟩ := toInt_of_finished wrapsAround isMean found inRange course
    rw [Element.toInt_ofInt counted] at same
    exact ⟨finished, mean, by rw [outputs_of_finished known writes finished, contents], same⟩

def threeElementsCall : KernelCall .i8 :=
  .ofArrays .i8 .arrayMean .empty [[7, -12, -3]] [[0]]

theorem mean_outcome_truncated :
    ∃ mean, (KernelSet.standardExecute .i8 threeElementsCall).outputs = [[mean]] ∧
      toInt .i8 mean = -2 := by
  have writes : threeElementsCall.WritesFirst (ofArrays.array .i8 [0]) [0] := ⟨rfl, rfl, rfl⟩
  have mirrored : threeElementsCall.Mirrored := by
    rintro first ⟨⟩
    decide
  have found : threeElementsCall.contents.inputs[0]? = some [7#8, -12#8, -3#8] := rfl
  have outcome := mean_outcome rfl rfl found (List.cons_ne_nil _ _) writes rfl mirrored ⟨-8, rfl⟩
  exact (outcome.2 ⟨3, rfl⟩).2

def manyElementsCall : KernelCall .i8 :=
  .ofArrays .i8 .arrayMean .empty [List.replicate 128 (-1)] [[0]]

/-- The type of the elements has no 128, and takes it for -128. -/
theorem mean_of_too_many :
    ((List.replicate 128 (-1)).map (toInt .i8)).sum = toInt .i8 (-128) ∧
      (KernelSet.standardExecute .i8 manyElementsCall).error = none ∧
      (KernelSet.standardExecute .i8 manyElementsCall).outputs = [[1]] ∧
      toInt .i8 1 ≠ Int.tdiv (-128) 128 := by
  decide +kernel

end KernelCall

end TensorGraph
