import TensorGraph.Graph.Schedule
import TensorGraph.Proofs.StableSort

/-!
Sorting between pinned items. Nothing is lost or added, pinned items keep their positions, and no
item passes one of them. Sorting again changes nothing.
-/

namespace TensorGraph

namespace Schedule

variable {α : Type} (pinned : α → Bool) (key : α → Nat × Nat)

theorem sortRuns_perm (run items : List α) :
    (sortRuns pinned key run items).Perm (run ++ items) := by
  induction items generalizing run with
  | nil =>
      rw [sortRuns, List.append_nil]
      exact StableSort.sort_perm key run
  | cons item rest ih =>
      rw [sortRuns]
      split
      · exact (StableSort.sort_perm key run).append ((ih []).cons item)
      · simpa using ih (run ++ [item])

theorem sortRuns_append_pinned (run left right : List α) {item : α}
    (isPinned : pinned item = true) :
    sortRuns pinned key run (left ++ item :: right) =
      sortRuns pinned key run left ++ item :: sortRuns pinned key [] right := by
  induction left generalizing run with
  | nil => simp only [List.nil_append, sortRuns, isPinned, if_true]
  | cons first left ih =>
      rw [List.cons_append, sortRuns, sortRuns]
      split
      · rw [ih, List.append_assoc, List.cons_append]
      · exact ih (run ++ [first])

/-- The first item stands before a pinned one that the second item is or stands behind, or the first
item is the pinned one. -/
def Separated (items : List α) (first second : α) : Prop :=
  ∃ left item right, items = left ++ item :: right ∧ pinned item = true ∧
    ((first ∈ left ∧ second ∈ item :: right) ∨ (first = item ∧ second ∈ right))

theorem Separated.append {items : List α} {first second : α}
    (separated : Separated pinned items first second) (more : List α) :
    Separated pinned (more ++ items) first second := by
  obtain ⟨left, item, right, split, isPinned, sides⟩ := separated
  refine ⟨more ++ left, item, right, by rw [split, List.append_assoc], isPinned, ?_⟩
  exact sides.imp_left fun both => ⟨List.mem_append_right _ both.1, both.2⟩

/-- Items that are out of order by their keys were separated by a pinned one. -/
theorem sortRuns_pairwise (run items : List α) :
    (sortRuns pinned key run items).Pairwise fun first second =>
      StableSort.notAfter (key first) (key second) = true ∨
        Separated pinned (run ++ items) first second := by
  induction items generalizing run with
  | nil => exact (StableSort.sort_sorted key run).imp Or.inl
  | cons item rest ih =>
      rw [sortRuns]
      split
      · rename_i isPinned
        have behind : ∀ {other : α}, other ∈ sortRuns pinned key [] rest → other ∈ rest := by
          intro other member
          simpa using (sortRuns_perm pinned key [] rest).mem_iff.mp member
        rw [List.pairwise_append, List.pairwise_cons]
        refine ⟨(StableSort.sort_sorted key run).imp Or.inl, ⟨?_, ?_⟩, ?_⟩
        · intro other member
          exact Or.inr ⟨run, item, rest, rfl, isPinned, Or.inr ⟨rfl, behind member⟩⟩
        · refine (ih []).imp fun ordered => ordered.imp_right fun separated => ?_
          have moved := separated.append pinned (run ++ [item])
          rwa [List.nil_append, List.append_assoc, List.singleton_append] at moved
        · intro first firstMember second secondMember
          refine Or.inr ⟨run, item, rest, rfl, isPinned, Or.inl ⟨?_, ?_⟩⟩
          · exact (StableSort.sort_perm key run).mem_iff.mp firstMember
          · rcases List.mem_cons.mp secondMember with same | later
            · rw [same]
              exact List.mem_cons_self
            · exact List.mem_cons_of_mem item (behind later)
      · have rest := ih (run ++ [item])
        rwa [List.append_assoc, List.singleton_append] at rest

theorem notAfter_of_unpinned {run items : List α} {first second : Nat} {left right : α}
    (before : first < second) (leftFound : (sortRuns pinned key run items)[first]? = some left)
    (rightFound : (sortRuns pinned key run items)[second]? = some right)
    (unpinned : ∀ place item, first ≤ place → place ≤ second →
      (sortRuns pinned key run items)[place]? = some item → pinned item = false) :
    StableSort.notAfter (key left) (key right) = true := by
  induction items generalizing run first second with
  | nil => exact StableSort.notAfter_of_lt key before leftFound rightFound
  | cons item rest ih =>
      by_cases isPinned : pinned item = true
      · -- The pinned item is none of the two and not between them, so they stand on one side of it.
        rw [sortRuns, if_pos isPinned] at leftFound rightFound unpinned
        generalize sorted : StableSort.sort key run = front at leftFound rightFound unpinned
        have behind : ∀ {place : Nat}, front.length < place →
            (front ++ item :: sortRuns pinned key [] rest)[place]? =
              (sortRuns pinned key [] rest)[place - (front.length + 1)]? := by
          intro place later
          rw [List.getElem?_append_right (by omega),
            show place - front.length = place - (front.length + 1) + 1 by omega,
            List.getElem?_cons_succ]
        rcases Nat.lt_or_ge second front.length with inFront | beyond
        · rw [List.getElem?_append_left inFront, ← sorted] at rightFound
          rw [List.getElem?_append_left (by omega), ← sorted] at leftFound
          exact StableSort.notAfter_of_lt key before leftFound rightFound
        · rcases Nat.lt_or_ge front.length first with later | covered
          · rw [behind later] at leftFound
            rw [behind (by omega)] at rightFound
            refine ih (by omega) leftFound rightFound ?_
            intro place other lower upper found
            refine unpinned (place + (front.length + 1)) other (by omega) (by omega) ?_
            rw [behind (by omega), Nat.add_sub_cancel]
            exact found
          · have here := unpinned front.length item covered beyond (by simp)
            rw [isPinned] at here
            cases here
      · rw [sortRuns, if_neg isPinned] at leftFound rightFound unpinned
        exact ih before leftFound rightFound unpinned

theorem sortRuns_of_unpinned (run : List α) {items : List α}
    (free : ∀ item ∈ items, pinned item = false) :
    sortRuns pinned key run items = StableSort.sort key (run ++ items) := by
  induction items generalizing run with
  | nil => rw [sortRuns, List.append_nil]
  | cons item rest ih =>
      obtain ⟨isFree, restFree⟩ := List.forall_mem_cons.mp free
      simp [sortRuns, isFree, ih _ restFree]

theorem sortRuns_sortRuns {run : List α} (free : ∀ item ∈ run, pinned item = false)
    (items : List α) :
    sortRuns pinned key [] (sortRuns pinned key run items) = sortRuns pinned key run items := by
  have settled : ∀ run : List α, (∀ item ∈ run, pinned item = false) →
      sortRuns pinned key [] (StableSort.sort key run) = StableSort.sort key run := by
    intro run free
    rw [sortRuns_of_unpinned, List.nil_append,
      StableSort.sort_of_sorted key (StableSort.sort_sorted key run)]
    intro item member
    exact free item ((StableSort.sort_perm key run).mem_iff.mp member)
  induction items generalizing run with
  | nil => exact settled run free
  | cons item rest ih =>
      by_cases isPinned : pinned item = true
      · have split : sortRuns pinned key run (item :: rest) =
            StableSort.sort key run ++ item :: sortRuns pinned key [] rest := by
          simp [sortRuns, isPinned]
        rw [split, sortRuns_append_pinned pinned key _ _ _ isPinned, settled run free,
          ih (by simp)]
      · have longer : ∀ other ∈ run ++ [item], pinned other = false := by
          simpa [or_imp, forall_and] using And.intro free isPinned
        simpa [sortRuns, isPinned] using ih longer

theorem sortRuns_map {β : Type} (image : α → β) (pinned : β → Bool) (key : β → Nat × Nat)
    (run items : List α) :
    sortRuns pinned key (run.map image) (items.map image) =
      (sortRuns (fun item => pinned (image item)) (fun item => key (image item)) run items).map
        image := by
  induction items generalizing run with
  | nil => exact StableSort.sort_map image key run
  | cons item rest ih =>
      have fresh := ih []
      have longer := ih (run ++ [item])
      rw [List.map_append] at longer
      by_cases isPinned : pinned (image item) = true
      · simpa [sortRuns, isPinned, StableSort.sort_map] using fresh
      · simpa [sortRuns, isPinned] using longer

theorem arrange_perm {blocks : List Block} {rankings : List Ranking}
    (ranked : rankings.length = blocks.length) : (arrange blocks rankings).Perm blocks := by
  have moved := (sortRuns_perm (fun entry => entry.1.isPinned) (fun entry => entry.2.key) []
    (blocks.zip rankings)).map fun entry => entry.1
  rwa [List.nil_append, List.map_fst_zip (Nat.le_of_eq ranked.symm)] at moved

theorem arrange_append_pinned {left right : List Block} {block : Block}
    (isPinned : block.isPinned = true) {rankings : List Ranking}
    (ranked : rankings.length = (left ++ block :: right).length) :
    ∃ before after, arrange (left ++ block :: right) rankings = before ++ block :: after ∧
      before.Perm left ∧ after.Perm right := by
  obtain ⟨first, behind, rfl, firstLength⟩ : ∃ first behind, first ++ behind = rankings ∧
      first.length = left.length :=
    ⟨rankings.take left.length, rankings.drop left.length, List.take_append_drop _ _, by
      rw [List.length_take, ranked, List.length_append]; omega⟩
  cases behind with
  | nil => simp [firstLength] at ranked
  | cons ranking last =>
      have lastLength : last.length = right.length := by
        simpa [firstLength] using ranked
      refine ⟨arrange left first, arrange right last, ?_, arrange_perm firstLength,
        arrange_perm lastLength⟩
      have split := sortRuns_append_pinned (fun entry : Block × Ranking => entry.1.isPinned)
        (fun entry => entry.2.key) [] (left.zip first) (right.zip last)
        (show (block, ranking).1.isPinned = true from isPinned)
      rw [arrange, List.zip_append firstLength.symm, List.zip_cons_cons, split, List.map_append,
        List.map_cons, arrange, arrange]

end Schedule

end TensorGraph
