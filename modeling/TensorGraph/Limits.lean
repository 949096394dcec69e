/-! Limits on single nodes, and the capacity a caller declares for a whole graph. -/

namespace TensorGraph

namespace Limit

def inputs : Nat := 5

def outputs : Nat := 2

def rank : Nat := 5

def fanOut : Nat := 10

def parameterBytes : Nat := 32

/-- Largest value of a machine word; counts and ranks stop there. -/
def word : Nat := 0xFFFFFFFFFFFFFFFF

/-- Largest number of bytes that one tensor or one pool may occupy. -/
def addressableBytes : Nat := 0x7FFFFFFFFFFFFFFF

/-- Operations that come from an expression arena take their ids from here on, so the tensors
beside them stay below. -/
def syntheticIds : UInt32 := 0x80000000

/-- Largest index of an arena node that an id can be made from. -/
def syntheticIndex : Nat := 0x7FFFFFFF

end Limit

def total (numbers : List Nat) : Nat := numbers.foldr (fun number sum => number + sum) 0

def saturatingAdd (left right : Nat) : Nat := min (left + right) Limit.word

def saturatingMul (left right : Nat) : Nat := min (left * right) Limit.word

structure Capacity where
  tensors : UInt64
  /-- Group markers count too. -/
  operations : UInt64
  deriving DecidableEq, Repr

namespace Capacity

instance : Inhabited Capacity := ⟨⟨256, 256⟩⟩

def exact (tensors operations : Nat) : Capacity :=
  ⟨UInt64.ofNat tensors, UInt64.ofNat operations⟩

def fits (capacity : Capacity) (tensors operations : Nat) : Bool :=
  tensors ≤ capacity.tensors.toNat && operations ≤ capacity.operations.toNat

end Capacity

end TensorGraph
