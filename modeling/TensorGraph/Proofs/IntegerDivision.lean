import TensorGraph.Proofs.IntegerArithmetic
import TensorGraph.Proofs.KernelFaults
import TensorGraph.Proofs.MirroredOutputs

/-!
Division of integers, element by element or by a scalar. It fails on a zero among the divisors, and
on a quotient that leaves the range, be it only on the way to another one.
-/

namespace TensorGraph

open Element (quotient QuotientOverflows)

variable {elementType : ElementType} {arithmetic : Arithmetic (Element elementType)}

namespace Element

/-- Divided by the divisors one after another, the dividend comes to a quotient out of range. -/
def MeetsOverflow (dividend : Element elementType) (divisors : List (Element elementType)) : Prop :=
  ∃ before divisor after, divisors = before ++ divisor :: after ∧
    QuotientOverflows (before.foldl quotient dividend) divisor

theorem not_meetsOverflow_nil (dividend : Element elementType) : ¬MeetsOverflow dividend [] := by
  rintro ⟨before, divisor, after, listed, _⟩
  cases before with
  | nil => cases listed
  | cons => cases listed

theorem meetsOverflow_cons_iff {dividend divisor : Element elementType}
    {divisors : List (Element elementType)} :
    MeetsOverflow dividend (divisor :: divisors) ↔
      QuotientOverflows dividend divisor ∨ MeetsOverflow (quotient dividend divisor) divisors := by
  constructor
  · rintro ⟨before, last, after, listed, overflows⟩
    cases before with
    | nil =>
        cases listed
        exact Or.inl overflows
    | cons first before =>
        cases listed
        exact Or.inr ⟨before, last, after, rfl, overflows⟩
  · rintro (overflows | ⟨before, last, after, rfl, overflows⟩)
    · exact ⟨[], divisor, divisors, rfl, overflows⟩
    · exact ⟨divisor :: before, last, after, rfl, overflows⟩

end Element

open Element (MeetsOverflow)

namespace Arithmetic.WrapsAround

theorem foldlM_divide?_eq_none_iff (wrapsAround : arithmetic.WrapsAround elementType)
    {dividend : Element elementType} {divisors : List (Element elementType)} :
    divisors.foldlM arithmetic.divide? dividend = none ↔
      0 ∈ divisors ∨ MeetsOverflow dividend divisors := by
  induction divisors generalizing dividend with
  | nil =>
      refine iff_of_false (by simp) ?_
      rintro (listed | overflows)
      · cases listed
      · exact Element.not_meetsOverflow_nil dividend overflows
  | cons divisor divisors ih =>
      rw [List.foldlM_cons, Element.meetsOverflow_cons_iff, List.mem_cons, @eq_comm _ 0 divisor]
      cases divided : arithmetic.divide? dividend divisor with
      | none =>
          refine iff_of_true rfl ?_
          rcases wrapsAround.divide?_eq_none_iff.mp divided with isZero | overflows
          · exact Or.inl (Or.inl isZero)
          · exact Or.inr (Or.inl overflows)
      | some result =>
          -- What is defined is the wrapped quotient, from which the other divisors go on.
          have defined : arithmetic.divide? dividend divisor ≠ none := by simp [divided]
          rw [Ne, wrapsAround.divide?_eq_none_iff, not_or] at defined
          obtain ⟨nonzero, fitting⟩ := defined
          rw [(wrapsAround.eq_of_divide? divided).1]
          simp only [nonzero, fitting, false_or]
          exact ih

theorem eq_foldl_quotient (wrapsAround : arithmetic.WrapsAround elementType)
    {dividend result : Element elementType} {divisors : List (Element elementType)}
    (divided : divisors.foldlM arithmetic.divide? dividend = some result) :
    result = divisors.foldl quotient dividend := by
  induction divisors generalizing dividend with
  | nil => exact (Option.some.inj divided).symm
  | cons divisor divisors ih =>
      rw [List.foldlM_cons, Option.bind_eq_bind, Option.bind_eq_some_iff] at divided
      obtain ⟨next, here, later⟩ := divided
      rw [List.foldl_cons, ← (wrapsAround.eq_of_divide? here).1]
      exact ih later

end Arithmetic.WrapsAround

namespace Kernel

variable {α : Type}

theorem column_eq_nil {operands : List (List α)} {position : Nat}
    (short : ∀ operand ∈ operands, operand.length ≤ position) : column operands position = [] :=
  List.filterMap_eq_nil_iff.mpr fun operand listed => List.getElem?_eq_none (short operand listed)

theorem column_of_alike {first : List α} {rest : List (List α)} {position : Nat} {head : α}
    {tail : List α} (alike : ∀ operand ∈ rest, operand.length = first.length)
    (listed : column (first :: rest) position = head :: tail) :
    first[position]? = some head ∧ column rest position = tail := by
  cases found : first[position]? with
  | none =>
      have short := List.getElem?_eq_none_iff.mp found
      have empty := column_eq_nil (List.forall_mem_cons.mpr
        ⟨short, fun operand member => (alike operand member).le.trans short⟩)
      rw [empty] at listed
      cases listed
  | some element =>
      rw [column_cons found] at listed
      cases listed
      exact ⟨rfl, rfl⟩

end Kernel

namespace KernelCall

/-- The elements that a call divides, and those at each position that it divides them by. -/
inductive Divides (call : KernelCall elementType) :
    List (Element elementType) → (Nat → List (Element elementType)) → Prop
  | elements {dividends : List (Element elementType)} {rest : List (List (Element elementType))} :
      call.kind = .elementDiv → call.contents.inputs = dividends :: rest →
      (∀ operand ∈ rest, operand.length = dividends.length) →
      call.Divides dividends (Kernel.column rest)
  | scalar {dividends : List (Element elementType)} {rest : List (List (Element elementType))}
      {divisor : Element elementType} :
      call.kind = .scalarDiv → call.contents.inputs = dividends :: rest →
      call.parameters.scalar? elementType = some divisor →
      call.Divides dividends fun _ => [divisor]

variable {call : KernelCall elementType} {dividends output : List (Element elementType)}
  {divisors : Nat → List (Element elementType)} {first : Tensor}

theorem Divides.course_of_fault (divides : call.Divides dividends divisors)
    (fitting : output.length = dividends.length) {fault : KernelFault}
    (stopped : (call.course arithmetic output).fault = some fault) :
    fault = .computation .divisionByZero ∧ ∃ position dividend,
      dividends[position]? = some dividend ∧
        (divisors position).foldlM arithmetic.divide? dividend = none := by
  cases divides with
  | elements kind inputs alike =>
      rw [course, kind, inputs] at stopped
      rcases Kernel.exists_of_fold_fault (by simp) stopped with
        ⟨_, operand, listed, unlike⟩ | ⟨position, head, tail, listed, failed⟩
      · -- All operands are as long as the output, so that none of them can be the mismatch.
        refine absurd ?_ unlike
        rcases List.mem_cons.mp listed with rfl | member
        · exact fitting.symm
        · exact (alike operand member).trans fitting.symm
      · obtain ⟨found, rfl⟩ := Kernel.column_of_alike alike listed
        obtain ⟨isDivision, undefined⟩ := Kernel.foldlM_divide?_eq_none failed
        exact ⟨isDivision, position, head, found, undefined⟩
  | scalar kind inputs given =>
      rw [course, kind, inputs, given] at stopped
      rcases Kernel.exists_of_mapOperand_fault (by simp) stopped with
        ⟨_, operand, found, unlike⟩ | ⟨operand, dividend, found, listed, failed⟩
      · cases found
        exact absurd fitting.symm unlike
      · cases found
        obtain ⟨isDivision, undefined⟩ := Kernel.divide?_eq_none_of_divide failed
        obtain ⟨position, _, here⟩ := List.getElem_of_mem listed
        refine ⟨isDivision, position, dividend, List.getElem?_eq_some_iff.mpr ⟨_, here⟩, ?_⟩
        rw [List.foldlM_cons, undefined]
        rfl

theorem Divides.course_of_finished (divides : call.Divides dividends divisors)
    (finished : (call.course arithmetic output).fault = none) :
    (call.course arithmetic output).contents.length = dividends.length ∧
      ∀ position dividend, dividends[position]? = some dividend →
        (divisors position).foldlM arithmetic.divide? dividend =
          (call.course arithmetic output).contents[position]? := by
  cases divides with
  | @elements rest kind inputs alike =>
      rw [course, kind, inputs] at finished ⊢
      obtain ⟨lengths, combined⟩ :=
        Kernel.combinesTo_of_fold (fun _ _ _ => Kernel.divide?_of_divide) finished
      have length := lengths dividends List.mem_cons_self
      refine ⟨length.symm, fun position dividend found => ?_⟩
      have bound := (List.getElem?_eq_some_iff.mp found).1
      have here := List.getElem?_eq_getElem (length ▸ bound)
      obtain ⟨head, tail, listed, folded⟩ := combined position _ here
      rw [Kernel.column_cons found] at listed
      cases listed
      exact folded.trans here.symm
  | scalar kind inputs given =>
      rw [course, kind, inputs, given] at finished ⊢
      obtain ⟨divisor, same, operand, found, related⟩ :=
        Kernel.exists_mapsTo_of_withScalar (fun _ _ _ => Kernel.divide?_of_divide) finished
      cases same
      cases found
      refine ⟨related.length_eq.symm, fun position dividend here => ?_⟩
      obtain ⟨result, there, divided⟩ := getElem?_of_forall₂ related here
      exact (List.foldlM_cons.trans (congrArg (· >>= _) divided)).trans there.symm

theorem Divides.contents_of_finished (divides : call.Divides dividends divisors)
    (wrapsAround : arithmetic.WrapsAround elementType)
    (finished : (call.course arithmetic output).fault = none) :
    (call.course arithmetic output).contents =
      dividends.mapIdx fun position dividend => (divisors position).foldl quotient dividend := by
  obtain ⟨length, divided⟩ := divides.course_of_finished finished
  refine List.ext_getElem (by simp [length]) fun position bound _ => ?_
  have here := List.getElem?_eq_getElem (length ▸ bound)
  have folded := divided position _ here
  rw [List.getElem?_eq_getElem bound] at folded
  rw [List.getElem_mapIdx]
  exact wrapsAround.eq_foldl_quotient folded

/-- A division succeeds where no divisor is zero and no quotient on the way is out of range. Then the
outputs are the quotients from left to right. -/
theorem division_outcome (isInteger : elementType.isFloat = false)
    (divides : call.Divides dividends divisors) (writes : call.WritesFirst first output)
    (fitting : output.length = dividends.length) (mirrored : call.Mirrored) :
    ((KernelSet.standardExecute elementType call).error = none ↔
      ∀ position dividend, dividends[position]? = some dividend →
        0 ∉ divisors position ∧ ¬MeetsOverflow dividend (divisors position)) ∧
    ((KernelSet.standardExecute elementType call).error ≠ none →
      (KernelSet.standardExecute elementType call).error =
        some (call.error (.computation .divisionByZero))) ∧
    ((KernelSet.standardExecute elementType call).error = none →
      (KernelSet.standardExecute elementType call).outputs = call.outputs.map fun _ =>
        dividends.mapIdx fun position dividend => (divisors position).foldl quotient dividend) := by
  have known := ElementType.arithmetic_of_integer isInteger
  have wrapsAround := Arithmetic.wrapsAround_of_integer isInteger known
  have ends := error_eq_none_iff known writes
  refine ⟨⟨fun finished => ?_, fun defined => ?_⟩, fun stopped => ?_, fun finished => ?_⟩
  · intro position dividend found
    obtain ⟨length, divided⟩ := divides.course_of_finished (ends.mp finished).1
    have bound := (List.getElem?_eq_some_iff.mp found).1
    have folded := divided position dividend found
    rw [List.getElem?_eq_getElem (length ▸ bound)] at folded
    rw [← not_or, ← wrapsAround.foldlM_divide?_eq_none_iff, folded]
    simp
  · refine ends.mpr ⟨?_, mirrored⟩
    by_contra stopped
    obtain ⟨fault, stopped⟩ := Option.ne_none_iff_exists'.mp stopped
    obtain ⟨_, position, dividend, found, undefined⟩ := divides.course_of_fault fitting stopped
    rw [wrapsAround.foldlM_divide?_eq_none_iff] at undefined
    exact not_or.mpr (defined position dividend found) undefined
  · have notFinished := mt ends.mpr stopped
    rw [not_and_or, or_iff_left (not_not_intro mirrored)] at notFinished
    obtain ⟨fault, stopped⟩ := Option.ne_none_iff_exists'.mp notFinished
    rw [error_of_fault known writes stopped, (divides.course_of_fault fitting stopped).1]
  · rw [outputs_of_finished known writes finished,
      divides.contents_of_finished wrapsAround (ends.mp finished).1]

def quotientsCall : KernelCall .i8 :=
  .ofArrays .i8 .elementDiv .empty [[-100, 7], [7, 2], [-2, 1]] [[0, 0], [0, 0]]

theorem division_outcome_quotients :
    (KernelSet.standardExecute .i8 quotientsCall).error = none ∧
      (KernelSet.standardExecute .i8 quotientsCall).outputs = [[7, 3], [7, 3]] := by
  have divides : quotientsCall.Divides [-100, 7] (Kernel.column [[7, 2], [-2, 1]]) :=
    .elements rfl rfl (by decide)
  have writes : quotientsCall.WritesFirst (ofArrays.array .i8 [0, 0]) [0, 0] := ⟨rfl, rfl, rfl⟩
  have mirrored : quotientsCall.Mirrored := by
    rintro first ⟨⟩
    decide
  have outcome := division_outcome rfl divides writes rfl mirrored
  exact ⟨rfl, (outcome.2.2 rfl).trans rfl⟩

def leastQuotientCall : KernelCall .i8 :=
  .ofArrays .i8 .scalarDiv (.ofScalar .i8 (-1)) [[-128]] [[0]]

/-- The quotient of the least integer by minus one is refused, and taken for one by zero. -/
theorem division_refused_without_zero :
    (∃ divisors, leastQuotientCall.Divides [-128] divisors ∧ ∀ position, 0 ∉ divisors position) ∧
      leastQuotientCall.Mirrored ∧
      (KernelSet.standardExecute .i8 leastQuotientCall).error =
        some (leastQuotientCall.error (.computation .divisionByZero)) := by
  refine ⟨⟨fun _ => [-1], .scalar rfl rfl rfl, ?_⟩, ?_, rfl⟩
  · intro position listed
    exact absurd (List.mem_singleton.mp listed) (by decide)
  · rintro first ⟨⟩
    decide

end KernelCall

end TensorGraph
