import TensorGraph.Memory.Error
import TensorGraph.StableSort

/-!
Separating the operands of one operation within a pool: inputs that are only read, and outputs that
are written. Inputs may name a span repeatedly; an output shares nothing with any other operand.
-/

namespace TensorGraph

namespace Split

def arrange (spans : List Span) : List Span :=
  collapse (StableSort.sort (fun span => (span.start, span.stop)) spans)
where
  /-- Drops spans that equal the one after them. -/
  collapse : List Span → List Span
    | first :: second :: rest =>
        if first = second then collapse (second :: rest) else first :: collapse (second :: rest)
    | spans => spans

/-- First span that the one after it begins inside. -/
def firstOverlap : List Span → Option (Span × Span)
  | first :: second :: rest =>
      if second.start < first.stop then some (first, second) else firstOverlap (second :: rest)
  | _ => none

/-- First output that names a span taken before. -/
def repeatedOutput : List Span → List Span → Option Span
  | _, [] => none
  | taken, output :: rest =>
      if output ∈ taken then some output else repeatedOutput (output :: taken) rest

def fault (length : Nat) (inputs outputs : List Span) : Option SplitFault :=
  let wanted := arrange (inputs ++ outputs)
  match firstOverlap wanted with
  | some (first, second) => some (.overlapping first second)
  | none =>
      match wanted.getLast?.filter fun last => length < last.stop with
      | some last => some (.outsidePool last length)
      | none =>
          match repeatedOutput [] outputs with
          | some output => some (.outputIsOperand output)
          | none => (inputs.find? fun input => input ∈ outputs).map .inputIsOutput

end Split

structure Views (α : Type) where
  inputs : List (List α)
  outputs : List (List α)
  deriving DecidableEq

def splitPool {α : Type} (pool : List α) (inputs outputs : List Span) :
    Except SplitFault (Views α) :=
  match Split.fault pool.length inputs outputs with
  | some found => .error found
  | none =>
      .ok ⟨inputs.map fun span => span.view pool, outputs.map fun span => span.view pool⟩

def joinPool {α : Type} (pool : List α) (outputs : List Span) (contents : List (List α)) :
    List α :=
  (outputs.zip contents).foldl (fun joined entry => entry.1.patch entry.2 joined) pool

end TensorGraph
