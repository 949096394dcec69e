import TensorGraph.Proofs.Arenas
import TensorGraph.Proofs.Marks
import TensorGraph.Resolution.Arena

/-!
Reachability in an arena. While nodes are marked, the stack holds what is still owed: a reference of
a marked node is marked itself or waits on the stack, and the steps that are left pay for every
reference that can still be pushed.
-/

namespace TensorGraph

namespace ExpressionArena

variable {arena : ExpressionArena} {roots stack : List NodeIndex} {marked result : List Bool}

inductive Reaches (arena : ExpressionArena) (roots : List NodeIndex) : Nat → Prop
  | root {root : NodeIndex} (listed : root ∈ roots) : Reaches arena roots root.toNat
  | reference {index : Nat} {node : ExpressionNode} {reference : NodeIndex}
      (reached : Reaches arena roots index) (found : arena.nodes[index]? = some node)
      (named : reference ∈ node.references) : Reaches arena roots reference.toNat

/-- Number of references that nodes without a mark may still push. -/
def unexplored (nodes : List ExpressionNode) (marked : List Bool) : Nat :=
  unmarkedTotal (fun node => node.references.length) nodes marked

def Covered (stack : List NodeIndex) (marked : List Bool) (index : NodeIndex) : Prop :=
  marked[index.toNat]? = some true ∨ index ∈ stack

structure Marking (arena : ExpressionArena) (roots stack : List NodeIndex)
    (marked : List Bool) : Prop where
  length : marked.length = arena.size
  sound : ∀ index : Nat, marked[index]? = some true → arena.Reaches roots index
  pending : ∀ index ∈ stack, arena.Reaches roots index.toNat
  rootsCovered : ∀ root ∈ roots, Covered stack marked root
  covered : ∀ (index : Nat) (node : ExpressionNode), marked[index]? = some true →
    arena.nodes[index]? = some node → ∀ reference ∈ node.references,
      Covered stack marked reference

theorem Marking.drop {index : NodeIndex} (marking : arena.Marking roots (index :: stack) marked)
    (isMarked : marked[index.toNat]? = some true) : arena.Marking roots stack marked := by
  have remains : ∀ other, Covered (index :: stack) marked other → Covered stack marked other := by
    rintro other (known | waits)
    · exact Or.inl known
    · rcases List.mem_cons.mp waits with rfl | later
      · exact Or.inl isMarked
      · exact Or.inr later
  exact {
    length := marking.length
    sound := marking.sound
    pending := fun other waits => marking.pending other (List.mem_cons_of_mem _ waits)
    rootsCovered := fun root listed => remains root (marking.rootsCovered root listed)
    covered := fun position node known found reference named =>
      remains reference (marking.covered position node known found reference named) }

theorem Marking.mark {index : NodeIndex} {node : ExpressionNode}
    (marking : arena.Marking roots (index :: stack) marked)
    (found : arena.nodes[index.toNat]? = some node) :
    arena.Marking roots (node.references.reverse ++ stack) (marked.set index.toNat true) := by
  have reached : arena.Reaches roots index.toNat := marking.pending index List.mem_cons_self
  have inside : index.toNat < marked.length := by
    rw [marking.length]
    exact (List.getElem?_eq_some_iff.mp found).1
  have isMarked := getElem?_mark_iff inside
  have remains : ∀ other, Covered (index :: stack) marked other →
      Covered (node.references.reverse ++ stack) (marked.set index.toNat true) other := by
    rintro other (known | waits)
    · exact Or.inl ((isMarked _).mpr (Or.inr known))
    · rcases List.mem_cons.mp waits with rfl | later
      · exact Or.inl ((isMarked _).mpr (Or.inl rfl))
      · exact Or.inr (List.mem_append_right _ later)
  refine ⟨?_, ?_, ?_, fun root listed => remains root (marking.rootsCovered root listed), ?_⟩
  · rw [List.length_set, marking.length]
  · intro position known
    rcases (isMarked position).mp known with rfl | before
    · exact reached
    · exact marking.sound position before
  · intro other waits
    rcases List.mem_append.mp waits with named | later
    · exact .reference reached found (List.mem_reverse.mp named)
    · exact marking.pending other (List.mem_cons_of_mem _ later)
  · intro position other known foundOther reference named
    rcases (isMarked position).mp known with rfl | before
    · rw [found] at foundOther
      cases foundOther
      exact Or.inr (List.mem_append_left _ (List.mem_reverse.mpr named))
    · exact remains reference (marking.covered position other before foundOther reference named)

theorem Marking.of_markFrom {steps : Nat} (marking : arena.Marking roots stack marked)
    (enough : stack.length + unexplored arena.nodes marked ≤ steps)
    (done : arena.markFrom steps stack marked = .ok result) : arena.Marking roots [] result := by
  -- A node that is marked already costs the step that drops it; a new one gives back what its
  -- references cost.
  induction steps generalizing stack marked with
  | zero =>
      have emptied : stack = [] := List.eq_nil_of_length_eq_zero (by omega)
      rw [markFrom] at done
      cases done
      rwa [emptied] at marking
  | succ steps ih =>
      cases stack with
      | nil =>
          rw [markFrom] at done
          cases done
          exact marking
      | cons index stack =>
          rw [markFrom, bind_eq_ok_iff] at done
          obtain ⟨node, isNode, done⟩ := done
          have found := get_ok_iff.mp isNode
          rw [List.length_cons] at enough
          obtain ⟨mark, known⟩ : ∃ mark, marked[index.toNat]? = some mark := by
            have inside := (List.getElem?_eq_some_iff.mp found).1
            exact ⟨_, List.getElem?_eq_getElem (marking.length ▸ inside)⟩
          rw [known] at done
          cases mark with
          | true => exact ih (marking.drop known) (by omega) done
          | false =>
              refine ih (marking.mark found) ?_ done
              have spent : unexplored arena.nodes (marked.set index.toNat true) +
                  node.references.length = unexplored arena.nodes marked :=
                unmarkedTotal_mark found known
              rw [List.length_append, List.length_reverse]
              omega

theorem reachable_exact (done : arena.reachable roots = .ok marked) :
    marked.length = arena.size ∧
      ∀ index, marked[index]? = some true ↔ arena.Reaches roots index := by
  have unmarked := getElem?_unmarked arena.nodes
  have start : arena.Marking roots roots.reverse (arena.nodes.map fun _ => false) := {
    length := List.length_map _
    sound := fun index isMarked => absurd isMarked (unmarked index)
    pending := fun root listed => .root (List.mem_reverse.mp listed)
    rootsCovered := fun root listed => Or.inr (List.mem_reverse.mpr listed)
    covered := fun index _ isMarked => absurd isMarked (unmarked index) }
  have marking : arena.Marking roots [] marked := by
    refine start.of_markFrom (Nat.le_of_eq ?_) done
    rw [unexplored, unmarkedTotal_start, List.length_reverse]
  refine ⟨marking.length, fun index => ⟨marking.sound index, fun reached => ?_⟩⟩
  induction reached with
  | root listed => exact (marking.rootsCovered _ listed).resolve_right List.not_mem_nil
  | reference _ found named ih =>
      exact (marking.covered _ _ ih found _ named).resolve_right List.not_mem_nil

end ExpressionArena

end TensorGraph
