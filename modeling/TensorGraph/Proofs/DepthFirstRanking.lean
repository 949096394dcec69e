import Mathlib.Data.List.Chain
import TensorGraph.Graph.DepthFirst
import TensorGraph.Proofs.ExactRankings
import TensorGraph.Proofs.Guarded
import TensorGraph.Proofs.Marks

/-!
Ranking nodes depth first. A path is kept from a root to the node that is ranked next; a node is
ranked once all its sources are, and a source that is on the path already closes a circle. The search
ends after a bounded number of turns with the rankings that all nodes have, or with the path that
following unranked sources leads along.
-/

namespace TensorGraph

namespace Rankings

def Within (known other : Rankings) : Prop :=
  ∀ node ranking, known.get? node = some ranking → other.get? node = some ranking

variable {known other : Rankings}

theorem Within.trans {last : Rankings} (first : known.Within other) (second : other.Within last) :
    known.Within last := fun node ranking found => second node ranking (first node ranking found)

theorem Within.isSome (within : known.Within other) {node : Nat}
    (ranked : (known.get? node).isSome = true) : (other.get? node).isSome = true := by
  obtain ⟨ranking, isRanked⟩ := Option.isSome_iff_exists.mp ranked
  rw [within node ranking isRanked]
  rfl

theorem get?_set {node : Nat} (bound : node < known.length) (ranking : Ranking) (place : Nat) :
    Rankings.get? (known.set node (some ranking)) place =
      if node = place then some ranking else known.get? place := by
  rw [get?, List.getElem?_set, if_pos bound]
  split
  · rfl
  · rfl

theorem unrankedSource?_of_within (within : known.Within other) {entries : List (Option Nat)}
    {source : Nat} (found : known.unrankedSource? entries = some source)
    (unranked : other.get? source = none) : other.unrankedSource? entries = some source := by
  rw [unrankedSource?, List.find?_eq_some_iff_append] at found ⊢
  obtain ⟨_, before, behind, split, ranked⟩ := found
  refine ⟨by simp [unranked], before, behind, split, fun node member => ?_⟩
  obtain ⟨ranking, isRanked⟩ : ∃ ranking, known.get? node = some ranking :=
    Option.isSome_iff_exists.mp (by simpa using ranked node member)
  simp [within node ranking isRanked]

end Rankings

namespace DepthFirst

/-- What holds between turns. The path leads along unranked sources, each the first one of the node
it comes from, and everything ranked so far has its final ranking. -/
structure Sound (sources : Sources) (search : DepthFirst) : Prop where
  knownCount : search.known.length = sources.length
  flagCount : search.onPath.length = sources.length
  exact : search.known.Within (rankings sources)
  inside : ∀ node ∈ search.path, node < sources.length
  unranked : ∀ node ∈ search.path, search.known.get? node = none
  unique : search.path.Nodup
  follows : search.path.IsChain fun next node =>
    search.known.unrankedSource? (entriesAt sources node) = some next
  onlyPath : ∀ node, search.onPath[node]? = some true → node ∈ search.path
  flagged : ∀ node ∈ search.path.tail, search.onPath[node]? = some true

/-- A ranking counts twice, since its node was put on the path before. -/
def progress (search : DepthFirst) : Nat :=
  2 * search.known.countP Option.isSome + search.path.length

section Visiting

variable {sources : Sources} {search : DepthFirst}

theorem length_path_le (sound : Sound sources search) :
    search.path.length ≤ sources.length := by
  have room := (List.subperm_of_subset sound.unique fun node member =>
    List.mem_range.mpr (sound.inside node member)).length_le
  rwa [List.length_range] at room

theorem progress_le (sound : Sound sources search) :
    search.progress ≤ 3 * sources.length := by
  have ranked := List.countP_le_length (p := Option.isSome) (l := search.known)
  have room := length_path_le sound
  rw [sound.knownCount] at ranked
  rw [progress]
  omega

theorem entriesAt_eq {node : Nat} (bound : node < sources.length) :
    sources[node]? = some (entriesAt sources node) := by
  rw [entriesAt, List.getElem?_eq_getElem bound, Option.getD_some]

theorem follows_of_within {known other : Rankings} (within : known.Within other) {path : List Nat}
    (follows : path.IsChain fun next node =>
      known.unrankedSource? (entriesAt sources node) = some next)
    (unranked : ∀ node ∈ path, other.get? node = none) :
    path.IsChain fun next node => other.unrankedSource? (entriesAt sources node) = some next := by
  induction follows with
  | nil => exact .nil
  | singleton node => exact .singleton node
  | cons_cons first _ ih =>
      obtain ⟨nextUnranked, restUnranked⟩ := List.forall_mem_cons.mp unranked
      exact .cons_cons (Rankings.unrankedSource?_of_within within first nextUnranked)
        (ih restUnranked)

variable {node : Nat} {below : List Nat}

theorem Sound.flag_iff (sound : Sound sources search) (here : search.path = node :: below)
    {next : Nat} :
    (search.onPath.set node true)[next]?.getD false = true ↔ next ∈ search.path := by
  have flagBound : node < search.onPath.length := by
    rw [sound.flagCount]
    exact sound.inside node (by simp [here])
  rw [getD_mark_iff, getElem?_mark_iff flagBound, here, List.mem_cons]
  constructor
  · rintro (same | flagged)
    · exact Or.inl same
    · exact List.mem_cons.mp (here ▸ sound.onlyPath next flagged)
  · exact Or.imp_right fun later => sound.flagged next (by rwa [here])

theorem Sound.descend (closed : sources.Closed) (sound : Sound sources search)
    (here : search.path = node :: below) {next : Nat}
    (found : search.known.unrankedSource? (entriesAt sources node) = some next)
    (fresh : next ∉ search.path) :
    Sound sources ⟨search.known, search.onPath.set node true, next :: node :: below⟩ := by
  have bound := sound.inside node (by simp [here])
  obtain ⟨listed, nextUnranked⟩ := Rankings.unrankedSource?_eq_some found
  have flagBound : node < search.onPath.length := by rwa [sound.flagCount]
  rw [here] at fresh
  constructor
  case knownCount => exact sound.knownCount
  case flagCount => rw [List.length_set, sound.flagCount]
  case exact => exact sound.exact
  case inside =>
    refine List.forall_mem_cons.mpr ⟨closed node next ⟨_, entriesAt_eq bound, listed⟩, ?_⟩
    exact here ▸ sound.inside
  case unranked => exact List.forall_mem_cons.mpr ⟨nextUnranked, here ▸ sound.unranked⟩
  case unique => exact List.nodup_cons.mpr ⟨fresh, here ▸ sound.unique⟩
  case follows => exact .cons_cons found (here ▸ sound.follows)
  case onlyPath =>
    intro place flagged
    rcases (getElem?_mark_iff flagBound place).mp flagged with same | before
    · simp [same]
    · have member := sound.onlyPath place before
      rw [here] at member
      exact List.mem_cons_of_mem _ member
  case flagged =>
    intro place member
    rw [getElem?_mark_iff flagBound]
    rcases List.mem_cons.mp member with same | later
    · exact Or.inl same
    · exact Or.inr (sound.flagged place (by rwa [here]))

theorem rankingFrom_exact (sound : Sound sources search) (bound : node < sources.length)
    (ranked : search.known.unrankedSource? (entriesAt sources node) = none) :
    (rankings sources).get? node =
      some (rankingFrom search.known (entriesAt sources node)) := by
  refine (rankings_get?_iff (entriesAt_eq bound) _).mpr ⟨_, ?_, rfl⟩
  have lookups := Rankings.mapM_source?_eq ranked
  rw [mapM_eq_some_iff] at lookups ⊢
  refine lookups.imp fun entry value found => ?_
  cases entry with
  | none => exact found
  | some source =>
      obtain ⟨ranking, isRanked, same⟩ := Option.map_eq_some_iff.mp found
      exact Option.map_eq_some_iff.mpr ⟨ranking, sound.exact source ranking isRanked, same⟩

theorem within_set (bound : node < search.known.length)
    (unranked : search.known.get? node = none) (ranking : Ranking) :
    search.known.Within (search.known.set node (some ranking)) := by
  intro place other found
  rw [Rankings.get?_set bound]
  split
  · rename_i same
    rw [← same, unranked] at found
    cases found
  · exact found

theorem Sound.ascend (sound : Sound sources search) (here : search.path = node :: below)
    (ranked : search.known.unrankedSource? (entriesAt sources node) = none) :
    Sound sources ⟨search.known.set node (some (rankingFrom search.known (entriesAt sources node))),
      (search.onPath.set node true).set node false, below⟩ := by
  have bound := sound.inside node (by simp [here])
  have knownBound : node < search.known.length := by rwa [sound.knownCount]
  have unique := sound.unique
  rw [here] at unique
  obtain ⟨notBelow, belowUnique⟩ := List.nodup_cons.mp unique
  have inPath : ∀ place ∈ below, place ∈ search.path := fun place member => by
    rw [here]
    exact List.mem_cons_of_mem _ member
  have unranked := sound.unranked node (by simp [here])
  have belowUnranked : ∀ place ∈ below, Rankings.get? (search.known.set node
      (some (rankingFrom search.known (entriesAt sources node)))) place = none := by
    intro place member
    have different : node ≠ place := fun same => notBelow (same ▸ member)
    rw [Rankings.get?_set knownBound, if_neg different]
    exact sound.unranked place (inPath place member)
  have flags : ∀ place, ((search.onPath.set node true).set node false)[place]? = some true ↔
      place ≠ node ∧ search.onPath[place]? = some true := by
    intro place
    rw [List.set_set, List.getElem?_set]
    by_cases same : node = place
    · simp [same]
    · simp [same, Ne.symm same]
  constructor
  case knownCount => rw [List.length_set, sound.knownCount]
  case flagCount => rw [List.length_set, List.length_set, sound.flagCount]
  case exact =>
    intro place ranking found
    rw [Rankings.get?_set knownBound] at found
    split at found
    · rename_i same
      rw [← same, rankingFrom_exact sound bound ranked, found]
    · exact sound.exact place ranking found
  case inside => exact fun place member => sound.inside place (inPath place member)
  case unranked => exact belowUnranked
  case unique => exact belowUnique
  case follows =>
    have follows := sound.follows.tail
    rw [here] at follows
    exact follows_of_within (within_set knownBound unranked _) follows belowUnranked
  case onlyPath =>
    intro place flagged
    obtain ⟨different, before⟩ := (flags place).mp flagged
    have member := sound.onlyPath place before
    rw [here] at member
    exact (List.mem_cons.mp member).resolve_left different
  case flagged =>
    -- Clearing the flag of the node leaves those below alone, as no node is on the path twice.
    intro place member
    have isBelow := List.mem_of_mem_tail member
    exact (flags place).mpr ⟨fun same => notBelow (same ▸ isBelow),
      sound.flagged place (by rwa [here])⟩

def RootedAt (search : DepthFirst) (root : Nat) : Prop :=
  search.path.getLast? = some root ∨ search.path = [] ∧ (search.known.get? root).isSome = true

structure Advances (sources : Sources) (search next : DepthFirst) : Prop where
  sound : Sound sources next
  progress : next.progress = search.progress + 1
  within : search.known.Within next.known
  rooted : ∀ root, search.path.getLast? = some root → next.RootedAt root

def ClosesCircle (sources : Sources) (search : DepthFirst) : Prop :=
  ∃ node below again, search.path = node :: below ∧ again ∈ search.path ∧
    search.known.unrankedSource? (entriesAt sources node) = some again

theorem Sound.advances_descend (closed : sources.Closed) (sound : Sound sources search)
    (here : search.path = node :: below) {next : Nat}
    (found : search.known.unrankedSource? (entriesAt sources node) = some next)
    (fresh : next ∉ search.path) :
    Advances sources search
      ⟨search.known, search.onPath.set node true, next :: node :: below⟩ where
  sound := sound.descend closed here found fresh
  progress := by
    simp only [DepthFirst.progress, here, List.length_cons]
    omega
  within := fun _ _ known => known
  rooted := fun root isLast => by
    rw [here] at isLast
    exact Or.inl (by rwa [List.getLast?_cons_cons])

theorem Sound.advances_ascend (sound : Sound sources search) (here : search.path = node :: below)
    (ranked : search.known.unrankedSource? (entriesAt sources node) = none) :
    Advances sources search
      ⟨search.known.set node (some (rankingFrom search.known (entriesAt sources node))),
        (search.onPath.set node true).set node false, below⟩ := by
  have unranked := sound.unranked node (by simp [here])
  have bound : node < search.known.length := by
    rw [sound.knownCount]
    exact sound.inside node (by simp [here])
  constructor
  case sound => exact sound.ascend here ranked
  case progress =>
    have place : search.known[node] = none := by rwa [Rankings.get?_eq_getElem bound] at unranked
    simp only [progress, List.countP_set bound, place, here, List.length_cons]
    simp
    omega
  case within => exact within_set bound unranked _
  case rooted =>
    intro root isLast
    rw [here] at isLast
    cases below with
    | nil =>
        rw [List.getLast?_singleton, Option.some.injEq] at isLast
        subst isLast
        exact Or.inr ⟨rfl, by rw [Rankings.get?_set bound, if_pos rfl]; rfl⟩
    | cons next rest =>
        rw [List.getLast?_cons_cons] at isLast
        exact Or.inl isLast

/-- One turn gets further, or it closes a circle and fails with the path. -/
theorem visit_outcome (closed : sources.Closed) (sound : Sound sources search)
    (here : search.path = node :: below) :
    (∃ next, search.visit sources node below = .ok next ∧ Advances sources search next) ∨
      (search.visit sources node below = .error search.path.reverse ∧
        ClosesCircle sources search) := by
  have isUnranked : ¬(search.known.get? node).isSome = true := by
    simp [sound.unranked node (by simp [here])]
  cases found : search.known.unrankedSource? (entriesAt sources node) with
  | some next =>
      have flag := @Sound.flag_iff _ _ _ _ sound here next
      by_cases returns : next ∈ search.path
      · refine Or.inr ⟨?_, node, below, next, here, returns, found⟩
        simp only [visit, isUnranked, found, flag.mpr returns, here, if_true, Bool.false_eq_true,
          if_false]
      · refine Or.inl ⟨_, ?_, sound.advances_descend closed here found returns⟩
        simp only [visit, isUnranked, found, mt flag.mp returns, Bool.false_eq_true, if_false]
  | none =>
      refine Or.inl ⟨_, ?_, sound.advances_ascend here found⟩
      simp only [visit, isUnranked, found, Bool.false_eq_true, if_false]

theorem explore_of_done (sources : Sources) (done : search.path = []) (turns : Nat) :
    explore sources turns search = Guarded.plain (.ok search) := by
  rw [explore.eq_def, done]

theorem explore_of_path (sources : Sources) (here : search.path = node :: below) (turns : Nat) :
    explore sources (turns + 1) search =
      Guarded.plain (search.visit sources node below) >>= explore sources turns := by
  rw [explore.eq_def, here]

structure Explored (sources : Sources) (search : DepthFirst) (root : Nat) (last : DepthFirst) :
    Prop where
  sound : Sound sources last
  left : last.path = []
  within : search.known.Within last.known
  ranked : (last.known.get? root).isSome = true

structure Stuck (sources : Sources) (search : DepthFirst) (root : Nat) (last : DepthFirst) :
    Prop where
  sound : Sound sources last
  circle : ClosesCircle sources last
  isLast : last.path.getLast? = some root
  within : search.known.Within last.known

theorem Explored.of_within {before : DepthFirst} {root : Nat} {last : DepthFirst}
    (explored : Explored sources search root last) (within : before.known.Within search.known) :
    Explored sources before root last :=
  { explored with within := within.trans explored.within }

theorem Stuck.of_within {before : DepthFirst} {root : Nat} {last : DepthFirst}
    (stuck : Stuck sources search root last) (within : before.known.Within search.known) :
    Stuck sources before root last :=
  { stuck with within := within.trans stuck.within }

theorem explore_outcome (closed : sources.Closed) (sound : Sound sources search) {root : Nat}
    (rooted : search.RootedAt root) {turns : Nat}
    (enough : 3 * sources.length < search.progress + turns) :
    (∃ last, Guarded.Agrees (explore sources turns search) (.ok last) ∧
        Explored sources search root last) ∨
      ∃ last, Guarded.Agrees (explore sources turns search) (.error last.path.reverse) ∧
        Stuck sources search root last := by
  induction turns generalizing search with
  | zero =>
      -- There are turns left, since no sound search has got further than they allow for.
      have most := progress_le sound
      omega
  | succ turns ih =>
      cases here : search.path with
      | nil =>
          rcases rooted with isLast | ⟨_, ranked⟩
          · simp [here] at isLast
          · refine Or.inl ⟨search, ?_, sound, here, fun _ _ known => known, ranked⟩
            rw [explore_of_done sources here]
            exact .of_plain _
      | cons node below =>
          have isLast : search.path.getLast? = some root :=
            rooted.resolve_right (by simp [here])
          rw [explore_of_path sources here]
          rcases visit_outcome closed sound here with ⟨next, visited, advances⟩ | ⟨failed, circle⟩
          · have further := advances.progress
            rw [visited]
            rcases ih advances.sound (advances.rooted root isLast) (by omega) with
              ⟨last, agrees, explored⟩ | ⟨last, agrees, stuck⟩
            · exact Or.inl ⟨last, .plain_bind agrees, explored.of_within advances.within⟩
            · exact Or.inr ⟨last, .plain_bind agrees, stuck.of_within advances.within⟩
          · refine Or.inr ⟨search, ?_, sound, circle, isLast, fun _ _ known => known⟩
            rw [failed]
            exact .of_failed (.of_plain _) _

theorem explore_ranked (sources : Sources) {root : Nat}
    (ranked : (search.known.get? root).isSome = true) (turns : Nat) :
    Guarded.Agrees (explore sources (turns + 1) { search with path := [root] })
      (.ok { search with path := [] }) := by
  rw [explore_of_path sources rfl, visit, if_pos ranked]
  refine .plain_bind ?_
  rw [explore_of_done sources rfl]
  exact .of_plain _

theorem Sound.enter (sound : Sound sources search) (left : search.path = []) {root : Nat}
    (bound : root < sources.length) (unranked : search.known.get? root = none) :
    Sound sources { search with path := [root] } where
  knownCount := sound.knownCount
  flagCount := sound.flagCount
  exact := sound.exact
  inside := by simpa using bound
  unranked := by simpa using unranked
  unique := by simp
  follows := .singleton root
  onlyPath := fun node flagged => by simpa [left] using sound.onlyPath node flagged
  flagged := by simp

theorem exploreRoot_outcome (closed : sources.Closed) (sound : Sound sources search)
    (left : search.path = []) {root : Nat} (bound : root < sources.length) :
    (∃ last, Guarded.Agrees
        (explore sources (turnLimit sources) { search with path := [root] }) (.ok last) ∧
        Explored sources search root last) ∨
      ∃ last, Guarded.Agrees
        (explore sources (turnLimit sources) { search with path := [root] })
        (.error last.path.reverse) ∧ Stuck sources search root last := by
  cases known : search.known.get? root with
  | some ranking =>
      have ranked : (search.known.get? root).isSome = true := by rw [known]; rfl
      refine Or.inl ⟨{ search with path := [] }, explore_ranked sources ranked _, ?_, rfl,
        fun _ _ found => found, ranked⟩
      rwa [← left]
  | none =>
      have enough : 3 * sources.length <
          progress { search with path := [root] } + turnLimit sources := by
        rw [turnLimit]
        omega
      have rooted : RootedAt { search with path := [root] } root := Or.inl rfl
      refine (explore_outcome closed (sound.enter left bound known) rooted enough).imp ?_ ?_
      · exact fun ⟨last, agrees, explored⟩ => ⟨last, agrees, explored.of_within fun _ _ => id⟩
      · exact fun ⟨last, agrees, stuck⟩ => ⟨last, agrees, stuck.of_within fun _ _ => id⟩

theorem exploreAll_outcome (closed : sources.Closed) {roots : List Nat}
    (bounds : ∀ root ∈ roots, root < sources.length) (sound : Sound sources search)
    (left : search.path = []) :
    (∃ last, Guarded.Agrees (exploreAll sources (turnLimit sources) roots search) (.ok last) ∧
        Sound sources last ∧ search.known.Within last.known ∧
        ∀ root ∈ roots, (last.known.get? root).isSome = true) ∨
      ∃ before root behind last, roots = before ++ root :: behind ∧
        Guarded.Agrees (exploreAll sources (turnLimit sources) roots search)
          (.error last.path.reverse) ∧
        Stuck sources search root last ∧
        ∀ earlier ∈ before, (last.known.get? earlier).isSome = true := by
  induction roots generalizing search with
  | nil => exact Or.inl ⟨search, .of_plain _, sound, fun _ _ known => known, by simp⟩
  | cons root rest ih =>
      obtain ⟨bound, restBounds⟩ := List.forall_mem_cons.mp bounds
      rcases exploreRoot_outcome closed sound left bound with
        ⟨next, agrees, explored⟩ | ⟨last, agrees, stuck⟩
      · rcases ih restBounds explored.sound explored.left with
          ⟨last, restAgrees, lastSound, within, all⟩ |
          ⟨before, blamed, behind, last, split, restAgrees, stuck, all⟩
        · exact Or.inl ⟨last, agrees.after restAgrees, lastSound, explored.within.trans within,
            List.forall_mem_cons.mpr ⟨within.isSome explored.ranked, all⟩⟩
        · exact Or.inr ⟨root :: before, blamed, behind, last, by rw [split]; rfl,
            agrees.after restAgrees, stuck.of_within explored.within,
            List.forall_mem_cons.mpr ⟨stuck.within.isSome explored.ranked, all⟩⟩
      · exact Or.inr ⟨[], root, rest, last, rfl, agrees.of_failed _, stuck, by simp⟩

end Visiting

section Circles

variable {sources : Sources} {search : DepthFirst}

theorem unranked_of_closesCircle (sound : Sound sources search)
    (circle : ClosesCircle sources search) :
    ∀ node ∈ search.path, (rankings sources).get? node = none := by
  obtain ⟨top, below, again, here, returns, found⟩ := circle
  have lists : ∀ {node next : Nat}, node ∈ search.path →
      search.known.unrankedSource? (entriesAt sources node) = some next →
        sources.Lists node next := fun member next =>
    ⟨_, entriesAt_eq (sound.inside _ member), (Rankings.unrankedSource?_eq_some next).1⟩
  -- The path leads back from the top, so the step to a node on it closes a circle at the top.
  have reaches : ∀ node ∈ search.path, Relation.ReflTransGen sources.Lists node top := by
    have steps : search.path.IsChain fun next node =>
        Relation.TransGen (Function.swap sources.Lists) next node :=
      sound.follows.imp_of_mem_imp fun next node _ member follows =>
        .single (lists member follows)
    have ordered := List.isChain_iff_pairwise.mp steps
    rw [here, List.pairwise_cons] at ordered
    rw [here]
    refine List.forall_mem_cons.mpr ⟨.refl, fun node member => ?_⟩
    exact (Relation.transGen_swap.mp (ordered.1 node member)).to_reflTransGen
  have circular : Relation.TransGen sources.Lists top top :=
    Relation.TransGen.head' (lists (by simp [here]) found) (reaches again returns)
  intro node member
  have away : Relation.TransGen sources.Lists node top := circular.trans_right (reaches node member)
  by_contra ranked
  obtain ⟨ranking, isRanked⟩ := Option.ne_none_iff_exists'.mp ranked
  obtain ⟨other, topRanked, _⟩ := depth_lt_of_path away isRanked
  obtain ⟨same, sameRanked, shallower⟩ := depth_lt_of_path circular topRanked
  rw [topRanked] at sameRanked
  cases sameRanked
  omega

theorem unrankedPath_eq {known : Rankings} {passed rest : List Nat} {node last again : Nat}
    (unique : (passed ++ node :: rest).Nodup)
    (follows : (node :: rest).IsChain fun node next =>
      known.unrankedSource? (entriesAt sources node) = some next)
    (isLast : (node :: rest).getLast? = some last)
    (found : known.unrankedSource? (entriesAt sources last) = some again)
    (returns : again ∈ passed ++ node :: rest) {steps : Nat} (enough : rest.length + 2 ≤ steps) :
    Rankings.unrankedPath sources known steps passed node = passed ++ node :: rest := by
  have fresh : node ∉ passed := fun member =>
    (List.nodup_append.mp unique).2.2 node member node (by simp) rfl
  induction rest generalizing passed node steps with
  | nil =>
      obtain ⟨fewer, rfl⟩ : ∃ fewer, steps = fewer + 2 := ⟨steps - 2, by simp at enough; omega⟩
      rw [List.getLast?_singleton, Option.some.injEq] at isLast
      subst isLast
      rw [entriesAt] at found
      simp only [Rankings.unrankedPath, fresh, found, returns, if_true, if_false]
  | cons next rest ih =>
      obtain ⟨fewer, rfl⟩ : ∃ fewer, steps = fewer + 1 := ⟨steps - 1, by simp at enough; omega⟩
      obtain ⟨first, restFollows⟩ := List.isChain_cons_cons.mp follows
      rw [List.getLast?_cons_cons] at isLast
      have nextUnique : (passed ++ [node] ++ next :: rest).Nodup := by simpa using unique
      have stepsLeft : rest.length + 2 ≤ fewer := by simp at enough; omega
      have further := ih nextUnique restFollows isLast (by simpa using returns) stepsLeft
        fun member => (List.nodup_append.mp nextUnique).2.2 next member next (by simp) rfl
      rw [entriesAt] at first
      simp only [Rankings.unrankedPath, fresh, first, if_false, further]
      simp

theorem unrankedPath_of_closesCircle (sound : Sound sources search)
    (circle : ClosesCircle sources search) {root : Nat}
    (isLast : search.path.getLast? = some root) :
    Rankings.unrankedPath sources (rankings sources) (sources.length + 1) [] root =
      search.path.reverse := by
  have unranked := unranked_of_closesCircle sound circle
  have follows := follows_of_within sound.exact sound.follows unranked
  have room := length_path_le sound
  obtain ⟨top, below, again, here, returns, found⟩ := circle
  obtain ⟨rest, forward⟩ : ∃ rest, search.path.reverse = root :: rest :=
    List.head?_eq_some_iff.mp (by rwa [List.head?_reverse])
  have topLast : (root :: rest).getLast? = some top := by
    rw [← forward, List.getLast?_reverse, here, List.head?_cons]
  have count : rest.length + 1 = search.path.length := by
    rw [← @List.length_reverse _ search.path, forward, List.length_cons]
  rw [forward]
  refine unrankedPath_eq ?_ ?_ topLast
    (Rankings.unrankedSource?_of_within sound.exact found (unranked again returns)) ?_ (by omega)
  · rw [List.nil_append, ← forward]
    exact (List.reverse_perm _).nodup_iff.mpr sound.unique
  · rwa [← forward, List.isChain_reverse]
  · rwa [List.nil_append, ← forward, List.mem_reverse]

end Circles

theorem sound_start (sources : Sources) : Sound sources (start sources) where
  knownCount := by simp [start]
  flagCount := by simp [start]
  exact := fun node ranking found => by
    rw [start, Rankings.get?, List.getElem?_map] at found
    cases listed : sources[node]? <;> simp [listed] at found
  inside := by simp [start]
  unranked := by simp [start]
  unique := by simp [start]
  follows := .nil
  onlyPath := fun node flagged => by
    rw [start, List.getElem?_map] at flagged
    cases listed : sources[node]? <;> simp [listed] at flagged
  flagged := by simp [start]

theorem known_eq_rankings {sources : Sources} {last : DepthFirst} (sound : Sound sources last)
    (ranked : ∀ node < sources.length, (last.known.get? node).isSome = true) :
    last.known = rankings sources := by
  have count := length_rankings sources
  refine List.ext_getElem (sound.knownCount.trans count.symm) fun node bound otherBound => ?_
  obtain ⟨ranking, isRanked⟩ := Option.isSome_iff_exists.mp
    (ranked node (by rwa [← sound.knownCount]))
  rw [← Rankings.get?_eq_getElem bound, ← Rankings.get?_eq_getElem otherBound, isRanked,
    sound.exact node ranking isRanked]

/-- Roots are taken in order, so the one whose way closes a circle is the first without a ranking. -/
theorem findIdx?_isNone_of_stuck {sources : Sources} {search last : DepthFirst} {root : Nat}
    (stuck : Stuck sources search root last) {before behind : List Nat}
    (split : List.range sources.length = before ++ root :: behind)
    (ranked : ∀ earlier ∈ before, (last.known.get? earlier).isSome = true) :
    (rankings sources).findIdx? Option.isNone = some root := by
  have count := length_rankings sources
  have onPath := List.mem_of_getLast? stuck.isLast
  have bound : root < (rankings sources).length := by
    rw [count]
    exact stuck.sound.inside root onPath
  rw [List.findIdx?_eq_some_iff_getElem]
  refine ⟨bound, ?_, fun earlier isBefore => ?_⟩
  · rw [← Rankings.get?_eq_getElem bound,
      unranked_of_closesCircle stuck.sound stuck.circle root onPath]
    rfl
  · have listed : earlier ∈ before ++ root :: behind := by
      rw [← split, List.mem_range, ← count]
      exact isBefore.trans bound
    have ascending := List.pairwise_lt_range (n := sources.length)
    rw [split, List.pairwise_append, List.pairwise_cons] at ascending
    have among : earlier ∈ before := by
      rcases List.mem_append.mp listed with early | late
      · exact early
      · rcases List.mem_cons.mp late with same | later
        · omega
        · exact absurd (ascending.2.1.1 earlier later) (Nat.lt_asymm isBefore)
    have isRanked := stuck.sound.exact.isSome (ranked earlier among)
    rw [Rankings.get?_eq_getElem (isBefore.trans bound)] at isRanked
    simpa [Option.isSome_iff_ne_none] using isRanked

/-- The search ends, with the rankings of all nodes or with the path from the first node that has
none. -/
theorem search_outcome {sources : Sources} (closed : sources.Closed) :
    ((∀ ranking ∈ rankings sources, ranking.isSome = true) ∧
        Guarded.Agrees (search sources) (.ok (rankings sources))) ∨
      ∃ root path, (rankings sources).findIdx? Option.isNone = some root ∧
        Rankings.unrankedPath sources (rankings sources) (sources.length + 1) [] root = path ∧
        (∀ node ∈ path, node < sources.length) ∧
        Guarded.Agrees (search sources) (.error path) := by
  have bounds : ∀ root ∈ List.range sources.length, root < sources.length := fun _ =>
    List.mem_range.mp
  rcases exploreAll_outcome closed bounds (sound_start sources) rfl with
    ⟨last, agrees, sound, _, ranked⟩ |
    ⟨before, root, behind, last, split, agrees, stuck, ranked⟩
  · have allRanked : ∀ node < sources.length, (last.known.get? node).isSome = true :=
      fun node bound => ranked node (by simpa using bound)
    have same := known_eq_rankings sound allRanked
    refine Or.inl ⟨fun ranking member => ?_, agrees.after (by rw [← same]; rfl)⟩
    obtain ⟨node, bound, listed⟩ := List.getElem_of_mem member
    have isRanked := sound.exact.isSome (allRanked node (by rwa [← length_rankings sources]))
    rwa [Rankings.get?_eq_getElem bound, listed] at isRanked
  · refine Or.inr ⟨root, _, findIdx?_isNone_of_stuck stuck split ranked,
      unrankedPath_of_closesCircle stuck.sound stuck.circle stuck.isLast, ?_, agrees.of_failed _⟩
    exact fun node member => stuck.sound.inside node (List.mem_reverse.mp member)

end DepthFirst

end TensorGraph
