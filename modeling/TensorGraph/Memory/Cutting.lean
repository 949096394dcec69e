import TensorGraph.Guarded
import TensorGraph.Memory.Split

/-!
Pools cut into the pieces that single operands get. Spans are carved out in order, each out of what
the ones before have left.
-/

namespace TensorGraph

namespace Guarded

variable {α : Type}

/-- Cuts spans one after the other out of what is left of a pool behind a position. -/
def carve? : List Span → Nat → List α → Option (List (Span × List α))
  | [], _, _ => some []
  | span :: spans, position, rest =>
      if position ≤ span.start ∧ span.start ≤ span.stop then do
        let skipped ← cut? rest (span.start - position)
        let piece ← cut? skipped.2 (span.stop - span.start)
        let pieces ← carve? spans span.stop piece.2
        return (span, piece.1) :: pieces
      else
        none

def splitPool? (pool : List α) (inputs outputs : List Span) :
    Option (Except SplitFault (Views α)) :=
  match Split.fault pool.length inputs outputs with
  | some found => some (.error found)
  | none => do
      let pieces ← carve? (Split.arrange (inputs ++ outputs)) 0 pool
      let outputViews ← outputs.mapM fun span => pieces.lookup span
      let inputViews ← inputs.mapM fun span => pieces.lookup span
      return .ok ⟨inputViews, outputViews⟩

/-- Gives each output the piece cut for it, which is gone afterwards. Leaves the pieces that no
output has taken. -/
def handOut : List Span → List (Span × List α) →
    Except SplitFault (List (List α) × List (Span × List α))
  | [], pieces => .ok ([], pieces)
  | output :: rest, pieces =>
      match pieces.lookup output with
      | none => .error (.outputIsOperand output)
      | some piece => do
          let (taken, left) ← handOut rest (pieces.filter fun other => other.1 ≠ output)
          return (piece :: taken, left)

def lend (pieces : List (Span × List α)) : List Span → Except SplitFault (List (List α))
  | [] => .ok []
  | input :: rest =>
      match pieces.lookup input with
      | none => .error (.inputIsOutput input)
      | some piece => do
          let others ← lend pieces rest
          return piece :: others

/-- Cuts a pool along the spans of operands, in order and with a running offset, and matches the
pieces with the operands by their spans. -/
def cutPool (pool : List α) (inputs outputs : List Span) : Guarded SplitFault (Views α) :=
  let wanted := Split.arrange (inputs ++ outputs)
  match Split.firstOverlap wanted with
  | some (first, second) => plain (.error (.overlapping first second))
  | none =>
      match wanted.getLast?.filter fun last => pool.length < last.stop with
      | some last => plain (.error (.outsidePool last pool.length))
      | none => do
          let pieces ← access (carve? wanted 0 pool)
          let (taken, left) ← plain (handOut outputs pieces)
          let lent ← plain (lend left inputs)
          return ⟨lent, taken⟩

end Guarded

end TensorGraph
