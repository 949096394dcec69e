/-! Ranges of positions in a pool. -/

namespace TensorGraph

structure Span where
  start : Nat
  stop : Nat
  deriving DecidableEq, Repr

namespace Span

def length (span : Span) : Nat := span.stop - span.start

def text (span : Span) : String := s!"{span.start}..{span.stop}"

def view {α : Type} (span : Span) (pool : List α) : List α :=
  (pool.drop span.start).take span.length

def patch {α : Type} (span : Span) (items pool : List α) : List α :=
  pool.take span.start ++ items ++ pool.drop span.stop

end Span

end TensorGraph
