import Mathlib.Data.List.Basic
import Mathlib.Logic.Relation
import TensorGraph.Graph.Ranking
import TensorGraph.Proofs.Results
import TensorGraph.Proofs.Rounds
import TensorGraph.Proofs.Totals

/-!
Rankings are a fixed point: every node is ranked from the rankings of its sources, and stays unranked
as long as one of them is. Hence a node lies deeper than each of its sources, and nodes that are all
ranked cannot depend on each other in a circle.
-/

namespace TensorGraph

namespace Sources

def Lists (sources : Sources) (node source : Nat) : Prop :=
  ∃ entries, sources[node]? = some entries ∧ some source ∈ entries

end Sources

namespace Rankings

theorem get?_eq_getElem {known : Rankings} {node : Nat} (bound : node < known.length) :
    known.get? node = known[node] := by
  rw [get?, List.getElem?_eq_getElem bound, Option.join_some]

def advance (sources : Sources) (known : Rankings) : Rankings := sources.map known.ofNode?

theorem settle_eq_iterate (sources : Sources) (rounds : Nat) (known : Rankings) :
    settle sources rounds known = (advance sources)^[rounds] known := by
  apply Rounds.eq_iterate (advance sources) (settle sources)
  · intro state; rfl
  · intro rounds state; rfl

theorem get?_of_grows {before after : Rankings} (grows : Rounds.Grows Option.isSome before after)
    {node : Nat} {ranking : Ranking} (found : before.get? node = some ranking) :
    after.get? node = some ranking := by
  rw [get?, Option.join_eq_some_iff] at found ⊢
  exact grows.kept found rfl

theorem ofNode?_of_grows {before after : Rankings}
    (grows : Rounds.Grows Option.isSome before after) {entries : List (Option Nat)}
    {ranking : Ranking} (found : before.ofNode? entries = some ranking) :
    after.ofNode? entries = some ranking := by
  have source : ∀ entry value, before.source? entry = some value →
      after.source? entry = some value := by
    intro entry value known
    cases entry with
    | none => exact known
    | some node =>
        simp only [source?, Option.map_eq_some_iff] at known ⊢
        obtain ⟨ranking, found, same⟩ := known
        exact ⟨ranking, get?_of_grows grows found, same⟩
  simp only [ofNode?, Option.map_eq_some_iff, mapM_eq_some_iff] at found ⊢
  obtain ⟨values, known, same⟩ := found
  exact ⟨values, known.imp source, same⟩

theorem eq_none_of_unranked (value : Option Ranking) (unranked : value.isSome = false) :
    value = none := by
  simpa using unranked

theorem advance_grows (sources : Sources) {before after : Rankings}
    (grows : Rounds.Grows Option.isSome before after) :
    Rounds.Grows Option.isSome (advance sources before) (advance sources after) := by
  refine Rounds.grows_map eq_none_of_unranked fun entries _ isRanked => ?_
  obtain ⟨ranking, found⟩ := Option.isSome_iff_exists.mp isRanked
  rw [found]
  exact ofNode?_of_grows grows found

end Rankings

theorem rankings_fixed (sources : Sources) :
    sources.map (rankings sources).ofNode? = rankings sources := by
  have first : Rounds.Grows Option.isSome (sources.map fun _ => none)
      (Rankings.advance sources (sources.map fun _ => none)) :=
    Rounds.grows_map Rankings.eq_none_of_unranked fun _ _ isRanked => by cases isRanked
  have fixed := Rounds.iterate_fixed _ _ _ first (Rankings.advance_grows sources)
  rw [List.length_map] at fixed
  rw [rankings, Rankings.settle_eq_iterate]
  exact fixed

theorem length_rankings (sources : Sources) : (rankings sources).length = sources.length := by
  rw [← rankings_fixed, List.length_map]

theorem rankings_get?_iff {sources : Sources} {node : Nat} {entries : List (Option Nat)}
    (listed : sources[node]? = some entries) (ranking : Ranking) :
    (rankings sources).get? node = some ranking ↔
      ∃ found, entries.mapM (rankings sources).source? = some found ∧
        Ranking.ofSources found = ranking := by
  have fixed : (rankings sources).get? node = (rankings sources).ofNode? entries := by
    have place : (rankings sources)[node]? = some ((rankings sources).ofNode? entries) := by
      conv_lhs => rw [← rankings_fixed]
      rw [List.getElem?_map, listed]
      rfl
    rw [Rankings.get?, place, Option.join_some]
  rw [fixed, Rankings.ofNode?, Option.map_eq_some_iff]

theorem le_foldl_deepest (rankings : List Ranking) (start : Nat) :
    start ≤ rankings.foldl (fun deepest source => max deepest (source.depth + 1)) start := by
  induction rankings generalizing start with
  | nil => exact Nat.le_refl _
  | cons ranking rankings ih =>
      have rest := ih (max start (ranking.depth + 1))
      simp only [List.foldl_cons]
      omega

theorem Ranking.depth_lt_ofSources {found : List (Option Ranking)} {source : Ranking}
    (member : some source ∈ found) : source.depth < (Ranking.ofSources found).depth := by
  have present : source ∈ found.filterMap id := by simpa [List.mem_filterMap] using member
  simp only [Ranking.ofSources]
  generalize found.filterMap id = rankings at present
  generalize 0 = start
  induction rankings generalizing start with
  | nil => simp at present
  | cons ranking rankings ih =>
      simp only [List.foldl_cons]
      rcases List.mem_cons.mp present with same | later
      · subst same
        have rest := le_foldl_deepest rankings (max start (source.depth + 1))
        omega
      · exact ih later _

theorem Ranking.rank_ofSources (found : List (Option Ranking)) :
    (Ranking.ofSources found).rank =
      min (min found.length Limit.word + total ((found.filterMap id).map Ranking.rank))
        Limit.word := by
  rw [← foldl_saturatingAdd (Nat.min_le_right _ _), List.foldl_map]
  rfl

theorem Ranking.rank_le (found : List (Option Ranking)) :
    (Ranking.ofSources found).rank ≤ Limit.word := by
  rw [rank_ofSources]
  exact Nat.min_le_right _ _

theorem Ranking.lt_rank_ofSources {found : List (Option Ranking)} {source : Ranking}
    (member : some source ∈ found) :
    min (source.rank + 1) Limit.word ≤ (Ranking.ofSources found).rank := by
  have present : source ∈ found.filterMap id := by simpa [List.mem_filterMap] using member
  have added := le_total_of_mem (List.mem_map_of_mem (f := Ranking.rank) present)
  have counted := List.length_pos_of_mem member
  rw [rank_ofSources]
  omega

theorem depth_lt_of_lists {sources : Sources} {node source : Nat} {ranking : Ranking}
    (lists : sources.Lists node source) (ranked : (rankings sources).get? node = some ranking) :
    ∃ other, (rankings sources).get? source = some other ∧ other.depth < ranking.depth := by
  obtain ⟨entries, listed, member⟩ := lists
  obtain ⟨found, lookups, combined⟩ := (rankings_get?_iff listed ranking).mp ranked
  subst combined
  obtain ⟨value, present, known⟩ := exists_of_forall₂ (mapM_eq_some_iff.mp lookups) member
  simp only [Rankings.source?, Option.map_eq_some_iff] at known
  obtain ⟨other, otherRanked, same⟩ := known
  subst same
  exact ⟨other, otherRanked, Ranking.depth_lt_ofSources present⟩

theorem exists_entries_of_ranked {sources : Sources} {node : Nat} {ranking : Ranking}
    (ranked : (rankings sources).get? node = some ranking) :
    ∃ entries, sources[node]? = some entries := by
  have bound : node < sources.length := by
    rw [← length_rankings]
    by_contra outside
    rw [Rankings.get?, List.getElem?_eq_none (Nat.le_of_not_lt outside), Option.join_none] at ranked
    cases ranked
  exact ⟨_, List.getElem?_eq_getElem bound⟩

theorem rank_le_of_ranked {sources : Sources} {node : Nat} {ranking : Ranking}
    (ranked : (rankings sources).get? node = some ranking) : ranking.rank ≤ Limit.word := by
  obtain ⟨entries, listed⟩ := exists_entries_of_ranked ranked
  obtain ⟨found, _, combined⟩ := (rankings_get?_iff listed ranking).mp ranked
  rw [← combined]
  exact Ranking.rank_le found

/-- What a ranked node depends on has a smaller key: where the rank of both is saturated, the depth
tells them apart. -/
theorem key_lt_of_lists {sources : Sources} {node source : Nat} {ranking other : Ranking}
    (lists : sources.Lists node source) (ranked : (rankings sources).get? node = some ranking)
    (otherRanked : (rankings sources).get? source = some other) :
    other.key.1 < ranking.key.1 ∨
      (other.key.1 = ranking.key.1 ∧ other.key.2 < ranking.key.2) := by
  obtain ⟨same, sameRanked, shallower⟩ := depth_lt_of_lists lists ranked
  rw [otherRanked] at sameRanked
  cases sameRanked
  have within := rank_le_of_ranked ranked
  have otherWithin := rank_le_of_ranked otherRanked
  have above : min (other.rank + 1) Limit.word ≤ ranking.rank := by
    obtain ⟨entries, listed, member⟩ := lists
    obtain ⟨found, lookups, combined⟩ := (rankings_get?_iff listed ranking).mp ranked
    obtain ⟨value, present, known⟩ := exists_of_forall₂ (mapM_eq_some_iff.mp lookups) member
    simp only [Rankings.source?, otherRanked, Option.map_some, Option.some.injEq] at known
    subst known combined
    exact Ranking.lt_rank_ofSources present
  by_cases saturated : other.rank = Limit.word
  · have full : ranking.rank = Limit.word := by omega
    simp only [Ranking.key, saturated, full, if_true]
    exact Or.inr ⟨trivial, shallower⟩
  · simp only [Ranking.key]
    omega

theorem depth_lt_of_path {sources : Sources} {first last : Nat}
    (path : Relation.TransGen sources.Lists first last) {ranking : Ranking}
    (found : (rankings sources).get? first = some ranking) :
    ∃ other, (rankings sources).get? last = some other ∧ other.depth < ranking.depth := by
  induction path with
  | single lists => exact depth_lt_of_lists lists found
  | tail _ lists ih =>
      obtain ⟨middle, middleFound, shallower⟩ := ih
      obtain ⟨other, otherFound, last⟩ := depth_lt_of_lists lists middleFound
      exact ⟨other, otherFound, by omega⟩

theorem acyclic_of_ranked {sources : Sources}
    (ranked : ∀ node < sources.length, ((rankings sources).get? node).isSome) (node : Nat) :
    ¬Relation.TransGen sources.Lists node node := by
  intro circle
  have bound : node < sources.length := by
    obtain ⟨next, ⟨entries, listed, _⟩, _⟩ := Relation.TransGen.head'_iff.mp circle
    exact (List.getElem?_eq_some_iff.mp listed).1
  obtain ⟨ranking, found⟩ := Option.isSome_iff_exists.mp (ranked node bound)
  obtain ⟨other, same, shallower⟩ := depth_lt_of_path circle found
  rw [found] at same
  cases same
  omega

end TensorGraph
