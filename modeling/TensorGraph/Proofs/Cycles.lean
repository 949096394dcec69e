import Mathlib.Data.List.Perm.Subperm
import TensorGraph.Graph.Blocks
import TensorGraph.Proofs.Ranking

/-!
Nodes without a ranking. Each of them depends on another one, so following them comes back to a node
passed before. Hence all nodes are ranked exactly if there is no circle.
-/

namespace TensorGraph

/-- A circle is also one of whatever stands for its nodes, as long as each step can be followed. -/
theorem circle_of_simulation {α β : Type} {edge : α → α → Prop} (link : β → β → Prop)
    (stands : α → β → Prop)
    (start : ∀ first second, edge first second → ∃ image, stands first image)
    (follow : ∀ first second image, edge first second → stands first image →
      ∃ next, stands second next ∧ link image next)
    (same : ∀ node next image other, edge node next → stands node image → stands node other →
      image = other)
    {node : α} (circle : Relation.TransGen edge node node) :
    ∃ image, Relation.TransGen link image image := by
  have walk : ∀ last, Relation.TransGen edge node last → ∀ image, stands node image →
      ∃ next, stands last next ∧ Relation.TransGen link image next := by
    intro last path image here
    induction path with
    | single step =>
        obtain ⟨next, there, linked⟩ := follow _ _ _ step here
        exact ⟨next, there, Relation.TransGen.single linked⟩
    | tail _ step ih =>
        obtain ⟨middle, between, links⟩ := ih
        obtain ⟨next, there, linked⟩ := follow _ _ _ step between
        exact ⟨next, there, links.tail linked⟩
  obtain ⟨second, step, _⟩ := Relation.TransGen.head'_iff.mp circle
  obtain ⟨image, here⟩ := start node second step
  obtain ⟨next, there, links⟩ := walk node circle image here
  rw [same node second next image step there here] at links
  exact ⟨image, links⟩

theorem circle_within {α : Type} {edge : α → α → Prop} {node : α}
    (circle : Relation.TransGen edge node node) :
    Relation.TransGen (fun first second =>
      (Relation.TransGen edge node first ∧ Relation.TransGen edge first node) ∧ edge first second)
      node node := by
  have walk : ∀ last, Relation.TransGen edge node last → Relation.ReflTransGen edge last node →
      Relation.TransGen (fun first second =>
        (Relation.TransGen edge node first ∧ Relation.TransGen edge first node) ∧
          edge first second) node last := by
    intro last path
    induction path with
    | single step =>
        intro _
        exact Relation.TransGen.single ⟨⟨circle, circle⟩, step⟩
    | tail path step ih =>
        intro back
        exact (ih (Relation.ReflTransGen.head step back)).tail
          ⟨⟨path, Relation.TransGen.head' step back⟩, step⟩
  exact walk node circle Relation.ReflTransGen.refl

namespace Sources

def Closed (sources : Sources) : Prop :=
  ∀ node source, sources.Lists node source → source < sources.length

def ListsFrom (sources : Sources) (path : List Nat) (node source : Nat) : Prop :=
  node ∈ path ∧ sources.Lists node source

theorem lists_of_listsFrom {sources : Sources} {path : List Nat} {node source : Nat}
    (leads : Relation.TransGen (sources.ListsFrom path) node source) :
    Relation.TransGen sources.Lists node source :=
  Relation.TransGen.mono (fun _ _ lists => lists.2) node source leads

end Sources

namespace Rankings

theorem unrankedSource?_eq_some {known : Rankings} {entries : List (Option Nat)} {source : Nat}
    (found : known.unrankedSource? entries = some source) :
    some source ∈ entries ∧ known.get? source = none := by
  rw [unrankedSource?] at found
  refine ⟨?_, by simpa using List.find?_some found⟩
  simpa using List.mem_of_find?_eq_some found

theorem mapM_source?_eq {known : Rankings} {entries : List (Option Nat)}
    (noneFound : known.unrankedSource? entries = none) :
    entries.mapM known.source? = some (entries.map fun entry =>
      entry.map fun node => (known.get? node).getD ⟨0, 0⟩) := by
  refine mapM_eq_some fun entry member => ?_
  cases entry with
  | none => rfl
  | some node =>
      rw [unrankedSource?, List.find?_eq_none] at noneFound
      obtain ⟨ranking, isRanked⟩ : ∃ ranking, known.get? node = some ranking :=
        Option.ne_none_iff_exists'.mp (by simpa using noneFound node (by simpa using member))
      simp [source?, isRanked]

/-- Following unranked sources long enough comes back to a node passed before, and all nodes passed
lead to it. All nodes passed so far lead to the present one, and there are fewer nodes than steps and
nodes passed. -/
theorem circle_of_unrankedPath {sources : Sources} (closed : sources.Closed) (steps : Nat)
    (path : List Nat) (node : Nat) (bound : node < sources.length)
    (unranked : (rankings sources).get? node = none) (unique : path.Nodup)
    (inside : ∀ passed ∈ path, passed < sources.length)
    (enough : sources.length < path.length + steps)
    (leads : ∀ passed ∈ path, Relation.TransGen (sources.ListsFrom path) passed node) :
    ∃ again ∈ unrankedPath sources (rankings sources) steps path node,
      ∀ passed ∈ unrankedPath sources (rankings sources) steps path node, Relation.TransGen
        (sources.ListsFrom (unrankedPath sources (rankings sources) steps path node))
          passed again := by
  induction steps generalizing path node with
  | zero =>
      have room : path.length ≤ (List.range sources.length).length :=
        (List.subperm_of_subset unique fun passed member =>
          List.mem_range.mpr (inside passed member)).length_le
      rw [List.length_range] at room
      omega
  | succ steps ih =>
      rw [unrankedPath]
      by_cases returned : node ∈ path
      · rw [if_pos returned]
        exact ⟨node, returned, leads⟩
      · rw [if_neg returned]
        have listed := List.getElem?_eq_getElem bound
        simp only [listed, Option.getD_some]
        cases found : (rankings sources).unrankedSource? sources[node] with
        | none =>
            have isRanked := (rankings_get?_iff listed _).mpr ⟨_, mapM_source?_eq found, rfl⟩
            rw [unranked] at isRanked
            cases isRanked
        | some next =>
            obtain ⟨member, nextUnranked⟩ := unrankedSource?_eq_some found
            have lists : sources.Lists node next := ⟨_, listed, member⟩
            have step : sources.ListsFrom (path ++ [node]) node next := ⟨by simp, lists⟩
            refine ih (path ++ [node]) next (closed node next lists) nextUnranked ?_ ?_ ?_ ?_
            · simpa [List.nodup_append] using ⟨unique, fun passed member same =>
                returned (same ▸ member)⟩
            · intro passed member
              rcases List.mem_append.mp member with earlier | last
              · exact inside passed earlier
              · rw [List.mem_singleton.mp last]
                exact bound
            · simp only [List.length_append, List.length_singleton]
              omega
            · intro passed member
              rcases List.mem_append.mp member with earlier | last
              · refine Relation.TransGen.tail ?_ step
                exact Relation.TransGen.mono (fun _ _ lists =>
                  ⟨List.mem_append_left _ lists.1, lists.2⟩) passed node (leads passed earlier)
              · rw [List.mem_singleton.mp last]
                exact Relation.TransGen.single step

theorem exists_mapM_id {known : Rankings} (ranked : ∀ entry ∈ known, entry.isSome = true) :
    ∃ found, known.mapM id = some found := by
  induction known with
  | nil => exact ⟨[], rfl⟩
  | cons entry rest ih =>
      obtain ⟨first, others⟩ := List.forall_mem_cons.mp ranked
      obtain ⟨ranking, same⟩ := Option.isSome_iff_exists.mp first
      obtain ⟨found, restFound⟩ := ih others
      exact ⟨ranking :: found, by simp [List.mapM_cons, same, restFound]⟩

theorem isSome_of_mapM_id {known : Rankings} {found : List Ranking}
    (ranked : known.mapM id = some found) {node : Nat} (bound : node < known.length) :
    (known.get? node).isSome = true := by
  obtain ⟨ranking, _, same⟩ :=
    exists_of_forall₂ (mapM_eq_some_iff.mp ranked) (List.getElem_mem bound)
  rw [get?_eq_getElem bound]
  exact Option.isSome_iff_exists.mpr ⟨ranking, same⟩

end Rankings

theorem ranked_iff_acyclic {sources : Sources} (closed : sources.Closed) :
    (∃ found, (rankings sources).mapM id = some found) ↔
      ∀ node, ¬Relation.TransGen sources.Lists node node := by
  constructor
  · rintro ⟨found, ranked⟩
    refine acyclic_of_ranked fun node bound => ?_
    rw [← length_rankings] at bound
    exact Rankings.isSome_of_mapM_id ranked bound
  · intro acyclic
    refine Rankings.exists_mapM_id fun entry member => ?_
    by_contra unranked
    obtain ⟨node, bound, here⟩ := List.mem_iff_getElem.mp member
    have noRanking : (rankings sources).get? node = none := by
      rw [Rankings.get?_eq_getElem bound, here]
      simpa using unranked
    rw [length_rankings] at bound
    obtain ⟨again, passed, leads⟩ := Rankings.circle_of_unrankedPath closed (sources.length + 1) []
      node bound noRanking List.nodup_nil (by simp) (by simp) (by simp)
    exact acyclic again (Sources.lists_of_listsFrom (leads again passed))

end TensorGraph
