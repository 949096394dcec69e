import TensorGraph.Proofs.Spans
import TensorGraph.Proofs.StableSort

/-! Operands can be separated whenever their spans are, and no output is named again. -/

namespace TensorGraph

namespace Split

theorem mem_collapse_iff {spans : List Span} {span : Span} :
    span ∈ arrange.collapse spans ↔ span ∈ spans := by
  induction spans with
  | nil => exact Iff.rfl
  | cons first rest ih =>
      cases rest with
      | nil => exact Iff.rfl
      | cons second rest =>
          rw [arrange.collapse]
          split
          · rename_i same
            rw [ih, same]
            simp
          · rw [List.mem_cons, ih, ← List.mem_cons]

theorem head?_collapse (first : Span) (rest : List Span) :
    (arrange.collapse (first :: rest)).head? = some first := by
  induction rest generalizing first with
  | nil => rfl
  | cons second rest ih =>
      rw [arrange.collapse]
      split
      · rename_i same
        rw [same, ih]
      · rfl

theorem mem_arrange_iff {spans : List Span} {span : Span} :
    span ∈ arrange spans ↔ span ∈ spans :=
  mem_collapse_iff.trans (StableSort.sort_perm _ spans).mem_iff

theorem firstOverlap_collapse {spans : List Span}
    (sorted : spans.Pairwise fun left right => left.start ≤ right.start)
    (separate : ∀ left ∈ spans, ∀ right ∈ spans, left = right ∨ left.Apart right)
    (filled : ∀ span ∈ spans, span.start < span.stop) :
    firstOverlap (arrange.collapse spans) = none := by
  induction spans with
  | nil => rfl
  | cons first rest ih =>
      obtain ⟨firstBefore, restSorted⟩ := List.pairwise_cons.mp sorted
      have restNone := ih restSorted
        (fun left leftMember right rightMember => separate left (List.mem_cons_of_mem _ leftMember)
          right (List.mem_cons_of_mem _ rightMember))
        fun span member => filled span (List.mem_cons_of_mem _ member)
      cases rest with
      | nil => rfl
      | cons second rest =>
          rw [arrange.collapse]
          split
          · exact restNone
          · rename_i different
            have head := head?_collapse second rest
            cases collapsed : arrange.collapse (second :: rest) with
            | nil => rfl
            | cons next others =>
                rw [collapsed, List.head?_cons, Option.some.injEq] at head
                subst head
                have ordered := firstBefore next (by simp)
                have nextFilled := filled next (by simp)
                have apart := (separate first (by simp) next (by simp)).resolve_left different
                have behind : first.stop ≤ next.start := by
                  rcases apart with behind | before
                  · exact behind
                  · omega
                rw [firstOverlap, if_neg (by omega), ← collapsed]
                exact restNone

theorem repeatedOutput_eq_none {taken outputs : List Span} (unique : outputs.Nodup)
    (fresh : ∀ output ∈ outputs, output ∉ taken) : repeatedOutput taken outputs = none := by
  induction outputs generalizing taken with
  | nil => rfl
  | cons output rest ih =>
      obtain ⟨notLater, restUnique⟩ := List.nodup_cons.mp unique
      rw [repeatedOutput, if_neg (fresh output (by simp))]
      refine ih restUnique fun other member isTaken => ?_
      rcases List.mem_cons.mp isTaken with same | before
      · exact notLater (same ▸ member)
      · exact fresh other (List.mem_cons_of_mem _ member) before

structure Separable (poolLength : Nat) (inputs outputs : List Span) : Prop where
  separate : ∀ left ∈ inputs ++ outputs, ∀ right ∈ inputs ++ outputs,
    left = right ∨ left.Apart right
  filled : ∀ span ∈ inputs ++ outputs, span.start < span.stop
  within : ∀ span ∈ inputs ++ outputs, span.Within poolLength
  outputsOnce : outputs.Nodup
  notRead : ∀ input ∈ inputs, input ∉ outputs

theorem Separable.firstOverlap_eq_none {poolLength : Nat} {inputs outputs : List Span}
    (separable : Separable poolLength inputs outputs) :
    firstOverlap (arrange (inputs ++ outputs)) = none := by
  have sorted : (StableSort.sort (fun span => (span.start, span.stop))
      (inputs ++ outputs)).Pairwise fun left right => left.start ≤ right.start := by
    refine (StableSort.sort_sorted _ _).imp ?_
    intro left right ordered
    rw [StableSort.notAfter_iff] at ordered
    omega
  have kept : ∀ span ∈ StableSort.sort (fun span => (span.start, span.stop)) (inputs ++ outputs),
      span ∈ inputs ++ outputs := fun _ => (StableSort.sort_perm _ _).mem_iff.mp
  exact firstOverlap_collapse sorted
    (fun left leftMember right rightMember =>
      separable.separate left (kept left leftMember) right (kept right rightMember))
    fun span member => separable.filled span (kept span member)

theorem fault_eq_none {poolLength : Nat} {inputs outputs : List Span}
    (separable : Separable poolLength inputs outputs) :
    fault poolLength inputs outputs = none := by
  have inside : ((arrange (inputs ++ outputs)).getLast?.filter fun last =>
      poolLength < last.stop) = none := by
    cases found : (arrange (inputs ++ outputs)).getLast? with
    | none => rfl
    | some last =>
        have within := separable.within last (mem_arrange_iff.mp (List.mem_of_getLast? found))
        simpa using within.2
  have once : repeatedOutput [] outputs = none :=
    repeatedOutput_eq_none separable.outputsOnce (by simp)
  have apart : inputs.find? (fun input => input ∈ outputs) = none := by
    rw [List.find?_eq_none]
    simpa using separable.notRead
  simp only [fault, separable.firstOverlap_eq_none, inside, once, apart, Option.map_none]

end Split

theorem splitPool_ok {α : Type} {pool : List α} {inputs outputs : List Span}
    (separable : Split.Separable pool.length inputs outputs) :
    splitPool pool inputs outputs =
      .ok ⟨inputs.map fun span => span.view pool, outputs.map fun span => span.view pool⟩ := by
  simp only [splitPool, Split.fault_eq_none separable]

end TensorGraph
