import TensorGraph.Kernel.Call

/-!
Computations that fill one output and may stop on the way. What they had written by then stays.
-/

namespace TensorGraph

/-- Contents of an output, and the fault that stopped their computation, if one did. -/
structure Progress (α : Type) where
  contents : List α
  fault : Option KernelFault
  deriving DecidableEq

namespace Progress

variable {α : Type}

def finished (contents : List α) : Progress α := ⟨contents, none⟩

def stopped (contents : List α) (fault : KernelFault) : Progress α := ⟨contents, some fault⟩

def andThen (progress : Progress α) (next : List α → Progress α) : Progress α :=
  match progress.fault with
  | some _ => progress
  | none => next progress.contents

/-- All or nothing: a fault leaves the earlier contents. -/
def ofExcept (before : List α) : Except KernelFault (List α) → Progress α
  | .ok contents => finished contents
  | .error fault => stopped before fault

end Progress

def operandAt {α : Type} (operands : List (List α)) (position : Nat) :
    Except KernelFault (List α) :=
  match operands[position]? with
  | some operand => .ok operand
  | none => .error (.computation (.missingInput position))

def operandOfLength {α : Type} (operands : List (List α)) (position length : Nat) :
    Except KernelFault (List α) := do
  let operand ← operandAt operands position
  if operand.length = length then
    return operand
  else
    throw (.operands (.inputLength position operand.length length))

end TensorGraph
