import TensorGraph.Proofs.Cycles

/-!
What rankings count. The rank of a node is the exact sum over its sources, cut off at the largest
machine word, and the depth is the length of the longest chain of nodes that leads to it.
-/

namespace TensorGraph

/-- A chain of so many items, each of which feeds the next, leads to an item. -/
inductive ChainTo {α : Type} (feeds : α → α → Prop) : Nat → α → Prop
  | start (item : α) : ChainTo feeds 0 item
  | step {length : Nat} {first second : α} :
      ChainTo feeds length first → feeds first second → ChainTo feeds (length + 1) second

def LongestChainTo {α : Type} (feeds : α → α → Prop) (length : Nat) (item : α) : Prop :=
  ChainTo feeds length item ∧ ∀ other, ChainTo feeds other item → other ≤ length

namespace Rankings

def rankOf (known : Rankings) (entry : Option Nat) : Nat :=
  ((entry.bind known.get?).map Ranking.rank).getD 0

end Rankings

section Ranked

variable {sources : Sources} {node : Nat} {ranking : Ranking}

theorem rankOf_of_source? {known : Rankings} {entry : Option Nat} {value : Option Ranking}
    (found : known.source? entry = some value) :
    known.rankOf entry = (value.map Ranking.rank).getD 0 := by
  cases entry with
  | none =>
      cases found
      rfl
  | some source =>
      obtain ⟨other, ranked, same⟩ := Option.map_eq_some_iff.mp found
      subst same
      rw [Rankings.rankOf, Option.bind_some, ranked]

theorem total_rankOf {known : Rankings} {entries : List (Option Nat)}
    {found : List (Option Ranking)} (lookups : entries.mapM known.source? = some found) :
    total (entries.map known.rankOf) = total ((found.filterMap id).map Ranking.rank) := by
  have related := mapM_eq_some_iff.mp lookups
  clear lookups
  induction related with
  | nil => rfl
  | @cons entry value entries found first _ ih =>
      rw [List.map_cons, total_cons, rankOf_of_source? first, ih]
      cases value with
      | none => simp
      | some other => simp

/-- Stopping at the largest word on the way makes no difference to the sum. -/
theorem rank_eq_of_ranked {entries : List (Option Nat)} (listed : sources[node]? = some entries)
    (ranked : (rankings sources).get? node = some ranking) :
    ranking.rank =
      min (entries.length + total (entries.map (rankings sources).rankOf)) Limit.word := by
  obtain ⟨found, lookups, combined⟩ := (rankings_get?_iff listed ranking).mp ranked
  have count := (mapM_eq_some_iff.mp lookups).length_eq
  rw [← combined, Ranking.rank_ofSources, total_rankOf lookups, count]
  omega

theorem exists_of_foldl_deepest (rankings : List Ranking) (start : Nat) :
    rankings.foldl (fun deepest source => max deepest (source.depth + 1)) start = start ∨
      ∃ source ∈ rankings, rankings.foldl
        (fun deepest source => max deepest (source.depth + 1)) start = source.depth + 1 := by
  induction rankings generalizing start with
  | nil => exact Or.inl rfl
  | cons first rest ih =>
      rw [List.foldl_cons]
      rcases ih (max start (first.depth + 1)) with same | ⟨source, listed, same⟩
      · rw [same]
        rcases Nat.le_total start (first.depth + 1) with below | above
        · exact Or.inr ⟨first, by simp, Nat.max_eq_right below⟩
        · exact Or.inl (Nat.max_eq_left above)
      · exact Or.inr ⟨source, List.mem_cons_of_mem _ listed, same⟩

theorem exists_source_of_depth (ranked : (rankings sources).get? node = some ranking) :
    ranking.depth = 0 ∨ ∃ source other, sources.Lists node source ∧
      (rankings sources).get? source = some other ∧ ranking.depth = other.depth + 1 := by
  obtain ⟨entries, listed⟩ := exists_entries_of_ranked ranked
  obtain ⟨found, lookups, combined⟩ := (rankings_get?_iff listed ranking).mp ranked
  rw [← combined]
  rcases exists_of_foldl_deepest (found.filterMap id) 0 with none | ⟨other, member, same⟩
  · exact Or.inl none
  · obtain ⟨entry, isEntry, isSource⟩ :=
      exists_of_forall₂ (mapM_eq_some_iff.mp lookups).flip (by simpa using member)
    cases entry with
    | none => cases isSource
    | some source =>
        obtain ⟨_, otherRanked, sameOther⟩ := Option.map_eq_some_iff.mp isSource
        cases sameOther
        exact Or.inr ⟨source, other, ⟨_, listed, isEntry⟩, otherRanked, same⟩

theorem chainTo_depth (ranked : (rankings sources).get? node = some ranking) :
    ChainTo (fun source node => sources.Lists node source) ranking.depth node := by
  induction count : ranking.depth generalizing node ranking with
  | zero => exact .start node
  | succ depth ih =>
      rcases exists_source_of_depth ranked with none | ⟨source, other, lists, otherRanked, same⟩
      · omega
      · exact (ih otherRanked (by omega)).step lists

theorem length_le_depth {length : Nat}
    (chain : ChainTo (fun source node => sources.Lists node source) length node)
    (ranked : (rankings sources).get? node = some ranking) : length ≤ ranking.depth := by
  induction chain generalizing ranking with
  | start => exact Nat.zero_le _
  | step _ lists ih =>
      obtain ⟨other, otherRanked, shallower⟩ := depth_lt_of_lists lists ranked
      exact Nat.le_trans (Nat.succ_le_succ (ih otherRanked)) shallower

theorem longestChainTo_depth (ranked : (rankings sources).get? node = some ranking) :
    LongestChainTo (fun source node => sources.Lists node source) ranking.depth node :=
  ⟨chainTo_depth ranked, fun _ chain => length_le_depth chain ranked⟩

end Ranked

end TensorGraph
