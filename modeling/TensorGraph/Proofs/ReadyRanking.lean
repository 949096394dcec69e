import TensorGraph.Graph.Build
import TensorGraph.Proofs.ExactRankings
import TensorGraph.Proofs.Obtained
import TensorGraph.Proofs.PendingInputs

/-!
Ranking operations as their inputs become available. An operation is ranked once it waits for none of
its inputs. The search ends, with the rankings that all operations have, and it leaves operations over
exactly if they feed each other in a circle.
-/

namespace TensorGraph

def FeedsAt (operations : List OperationNode) (producer consumer : Nat) : Prop :=
  ∃ tensor, WritesAt operations producer tensor ∧ ReadsAt operations consumer tensor

namespace ReadySearch

def awaitedAfter (tensors : List TensorNode) (done : List Nat) (tensor : Nat) : Bool :=
  (producerAt? tensors tensor).any fun producer => !done.contains producer

structure Settled (tensors : List TensorNode) (operations : List OperationNode) (done : List Nat)
    (search : ReadySearch) : Prop where
  balanced : Waiting.Balanced operations (fun tensor _ => awaitedAfter tensors done tensor) done
    search.waiting
  processed : search.processed = done.length
  count : search.ranks.length = operations.length
  ranked : ∀ position ∈ done, ∃ ranking,
    (rankings (Graph.sources tensors operations)).get? position = some ranking ∧
      search.ranks[position]? = some ranking.rank
  unranked : ∀ position < operations.length, position ∉ done → search.ranks[position]? = some 0

section Turns

variable {tensors : List TensorNode} {operations : List OperationNode} {done : List Nat}
  {search : ReadySearch}

theorem sources_getElem? {position : Nat} {node : OperationNode}
    (found : operations[position]? = some node) :
    (Graph.sources tensors operations)[position]? =
      some (node.inputs.map (producerAt? tensors)) := by
  rw [Graph.sources, List.getElem?_map, found]
  rfl

theorem foldlM_addRank? {known : Rankings} {ranks inputs : List Nat}
    {found : List (Option Ranking)}
    (lookups : (inputs.map (producerAt? tensors)).mapM known.source? = some found)
    (bounds : ∀ tensor ∈ inputs, tensor < tensors.length)
    (agree : ∀ tensor ∈ inputs, ∀ producer ranking,
      producerAt? tensors tensor = some producer → known.get? producer = some ranking →
        ranks[producer]? = some ranking.rank) (start : Nat) :
    inputs.foldlM (addRank? tensors ranks) start =
      some ((found.filterMap id).foldl (fun total source => saturatingAdd total source.rank)
        start) := by
  induction inputs generalizing found start with
  | nil =>
      cases mapM_eq_some_iff.mp lookups
      rfl
  | cons tensor rest ih =>
      obtain ⟨bound, restBounds⟩ := List.forall_mem_cons.mp bounds
      obtain ⟨here, restAgree⟩ := List.forall_mem_cons.mp agree
      have listed := List.getElem?_eq_getElem bound
      rw [mapM_eq_some_iff, List.map_cons] at lookups
      cases lookups with
      | @cons _ value _ values first others =>
          rw [← mapM_eq_some_iff] at others
          have further := fun start => ih others restBounds restAgree start
          cases produced : tensors[tensor].producer with
          | none =>
              have free : producerAt? tensors tensor = none := by
                rw [producerAt?, listed]
                exact produced
              rw [free] at first
              cases first
              have step : addRank? tensors ranks start tensor = some start := by
                simp [addRank?, listed, produced]
              rw [List.foldlM_cons, step]
              exact further start
          | some producer =>
              have isProducer : producerAt? tensors tensor = some producer := by
                rw [producerAt?, listed]
                exact produced
              rw [isProducer] at first
              obtain ⟨ranking, isRanked, rfl⟩ := Option.map_eq_some_iff.mp first
              have step : addRank? tensors ranks start tensor =
                  some (saturatingAdd start ranking.rank) := by
                simp [addRank?, listed, produced, here producer ranking isProducer isRanked]
              rw [List.foldlM_cons, step]
              exact further (saturatingAdd start ranking.rank)

variable {rest : List Nat} {position : Nat}

theorem Settled.done_of_ready (settled : Settled tensors operations done search)
    (isReady : position ∈ search.waiting.ready) {node : OperationNode}
    (found : operations[position]? = some node) {tensor producer : Nat}
    (isInput : tensor ∈ node.inputs) (produced : producerAt? tensors tensor = some producer) :
    producer ∈ done := by
  obtain ⟨_, _, _, zero⟩ := (settled.balanced.ready position).mp (List.mem_append_right _ isReady)
  rw [settled.balanced.pending position node found, Option.some.injEq, List.countP_eq_zero] at zero
  simpa [awaitedAfter, produced] using zero tensor isInput

theorem Settled.exists_ranking (settled : Settled tensors operations done search)
    (isReady : position ∈ search.waiting.ready) (linked : Linked tensors operations)
    {node : OperationNode} (found : operations[position]? = some node) :
    ∃ ranking, (rankings (Graph.sources tensors operations)).get? position = some ranking ∧
      node.inputs.foldlM (addRank? tensors search.ranks) (min node.inputs.length Limit.word) =
        some ranking.rank := by
  have ranked : (rankings (Graph.sources tensors operations)).unrankedSource?
      (node.inputs.map (producerAt? tensors)) = none := by
    rw [Rankings.unrankedSource?, List.find?_eq_none]
    intro producer member
    obtain ⟨tensor, isInput, produced⟩ : ∃ tensor ∈ node.inputs,
        producerAt? tensors tensor = some producer := by simpa using member
    obtain ⟨ranking, isRanked, _⟩ :=
      settled.ranked producer (settled.done_of_ready isReady found isInput produced)
    simp [isRanked]
  have lookups := Rankings.mapM_source?_eq ranked
  refine ⟨_, (rankings_get?_iff (sources_getElem? found) _).mpr ⟨_, lookups, rfl⟩, ?_⟩
  rw [foldlM_addRank? lookups (linked.inputsInside node (List.mem_of_getElem? found))]
  · have count := (mapM_eq_some_iff.mp lookups).length_eq
    rw [List.length_map] at count
    rw [Ranking.ofSources, count]
  · intro tensor isInput producer ranking produced isRanked
    obtain ⟨other, otherRanked, same⟩ :=
      settled.ranked producer (settled.done_of_ready isReady found isInput produced)
    rw [isRanked] at otherRanked
    cases otherRanked
    exact same

theorem awaitedAfter_cons (linked : Linked tensors operations) {node : OperationNode}
    (found : operations[position]? = some node) {consumer tensor : Nat}
    (reads : ReadsAt operations consumer tensor) :
    (awaitedAfter tensors done tensor && !node.outputs.contains tensor) =
      awaitedAfter tensors (position :: done) tensor := by
  obtain ⟨reader, readerFound, isInput⟩ := reads
  have inside := linked.inputsInside reader (List.mem_of_getElem? readerFound) tensor isInput
  cases writer : producerAt? tensors tensor with
  | none => simp [awaitedAfter, writer]
  | some producer =>
      have own : tensor ∈ node.outputs ↔ producer = position := by
        have writes := @Linked.producerAt?_iff _ _ linked _ inside position
        rw [writer, Option.some.injEq] at writes
        rw [writes]
        exact ⟨fun isOutput => ⟨node, found, isOutput⟩, fun ⟨other, otherFound, isOutput⟩ => by
          rw [found] at otherFound
          cases otherFound
          exact isOutput⟩
      rw [Bool.eq_iff_iff]
      simp [awaitedAfter, writer, own]
      tauto

theorem Settled.turn (settled : Settled tensors operations done search)
    (linked : Linked tensors operations) (here : search.waiting.ready = position :: rest) :
    ∃ next, search.turn? tensors operations position rest = some next ∧
      Settled tensors operations (position :: done) next := by
  have isReady : position ∈ search.waiting.ready := by rw [here]; exact List.mem_cons_self
  obtain ⟨node, found, plain, zero⟩ :=
    (settled.balanced.ready position).mp (List.mem_append_right _ isReady)
  obtain ⟨ranking, isRanked, folded⟩ := settled.exists_ranking isReady linked found
  have bound : position < search.ranks.length := by
    rw [settled.count]
    exact (List.getElem?_eq_some_iff.mp found).1
  have member := List.mem_of_getElem? found
  obtain ⟨notDone, moved⟩ := settled.balanced.take here
  have produced : ∀ tensor ∈ node.outputs, producerAt? tensors tensor = some position :=
    fun tensor isOutput => (linked.producerAt?_iff (linked.outputsInside node member tensor
      isOutput)).mpr ⟨node, found, isOutput⟩
  obtain ⟨waiting, released, isBalanced⟩ := moved.releaseAll linked (linked.writtenOnce node member)
    (linked.outputsInside node member) fun tensor isOutput _ _ => by
      simp [awaitedAfter, produced tensor isOutput, notDone]
  refine ⟨⟨waiting, search.ranks.set position ranking.rank, search.processed + 1⟩, ?_, ?_⟩
  · rw [turn?, found, Option.bind_eq_bind, Option.bind_some, folded, Option.bind_eq_bind,
      Option.bind_some, Guarded.put?, if_pos bound, Option.bind_eq_bind, Option.bind_some, released]
    rfl
  constructor
  case balanced => exact isBalanced.congr fun _ _ reads => awaitedAfter_cons linked found reads
  case processed => rw [settled.processed, List.length_cons]
  case count => rw [List.length_set, settled.count]
  case ranked =>
    refine List.forall_mem_cons.mpr ⟨⟨ranking, isRanked, List.getElem?_set_self bound⟩, ?_⟩
    intro other isDone
    have different : position ≠ other := fun same => notDone (same ▸ isDone)
    rw [List.getElem?_set_ne different]
    exact settled.ranked other isDone
  case unranked =>
    intro other otherBound notAmong
    rw [List.mem_cons, not_or] at notAmong
    obtain ⟨different, otherNotDone⟩ := notAmong
    rw [List.getElem?_set_ne (Ne.symm different)]
    exact settled.unranked other otherBound otherNotDone

theorem Settled.length_le (settled : Settled tensors operations done search) :
    (done ++ search.waiting.ready).length ≤ operations.length := by
  -- What is done or ready is listed once, so there are no more turns than operations.
  have room := (List.subperm_of_subset settled.balanced.once fun position member => by
    obtain ⟨_, found, _⟩ := (settled.balanced.ready position).mp member
    exact List.mem_range.mpr (List.getElem?_eq_some_iff.mp found).1).length_le
  rwa [List.length_range] at room

theorem Settled.run (settled : Settled tensors operations done search)
    (linked : Linked tensors operations) {turns : Nat}
    (enough : operations.length ≤ done.length + turns) :
    ∃ last finished, run? tensors operations turns search = some last ∧
      Settled tensors operations finished last ∧ last.waiting.ready = [] := by
  induction turns generalizing search done with
  | zero =>
      have room := settled.length_le
      rw [List.length_append] at room
      have none : search.waiting.ready = [] := List.length_eq_zero_iff.mp (by omega)
      exact ⟨search, done, by rw [run?.eq_def, none], settled, none⟩
  | succ turns ih =>
      cases here : search.waiting.ready with
      | nil => exact ⟨search, done, by rw [run?.eq_def, here], settled, here⟩
      | cons position rest =>
          obtain ⟨next, turned, nextSettled⟩ := settled.turn linked here
          obtain ⟨last, finished, ran, lastSettled, empty⟩ :=
            ih nextSettled (by rw [List.length_cons]; omega)
          refine ⟨last, finished, ?_, lastSettled, empty⟩
          rw [run?.eq_def, here]
          dsimp only
          rw [turned]
          exact ran

theorem inputsPending?_eq (linked : Linked tensors operations) {node : OperationNode}
    (member : node ∈ operations) :
    Waiting.inputsPending? tensors node =
      some (node.inputs.countP fun tensor => awaitedAfter tensors [] tensor) := by
  have provided : node.inputs.mapM (fun tensor =>
      (tensors[tensor]?).map fun found => found.producer.isSome) =
      some (node.inputs.map fun tensor => awaitedAfter tensors [] tensor) := by
    refine mapM_eq_some fun tensor isInput => ?_
    have bound := linked.inputsInside node member tensor isInput
    have found := List.getElem?_eq_getElem bound
    rw [awaitedAfter, producerAt?, found]
    cases tensors[tensor].producer <;> rfl
  rw [Waiting.inputsPending?, provided, Option.bind_eq_bind, Option.bind_some, List.count,
    List.countP_map]
  congr 2
  funext tensor
  simp

theorem exists_start (linked : Linked tensors operations) :
    ∃ waiting, Waiting.start? tensors operations = some waiting ∧
      Settled tensors operations [] ⟨waiting, operations.map fun _ => 0, 0⟩ := by
  have counted := mapM_eq_some fun _ member => inputsPending?_eq linked member
  refine ⟨_, by rw [Waiting.start?, counted]; rfl, ?_⟩
  constructor
  case balanced =>
    constructor
    case count => exact List.length_map _
    case pending =>
      intro consumer node found
      dsimp only
      rw [List.getElem?_map, found]
      rfl
    case ready =>
      intro consumer
      rw [List.nil_append, Connections.mem_positions]
      constructor
      · rintro ⟨⟨node, pending⟩, listed, holds⟩
        obtain ⟨found, isPending⟩ := List.getElem?_zip_eq_some.mp listed
        simp only [Bool.and_eq_true, Bool.not_eq_true', beq_iff_eq] at holds
        exact ⟨node, found, holds.1, by rw [isPending, holds.2]⟩
      · rintro ⟨node, found, plain, zero⟩
        exact ⟨(node, 0), List.getElem?_zip_eq_some.mpr ⟨found, zero⟩, by simp [plain]⟩
    case once =>
      rw [List.nil_append]
      dsimp only
      exact Connections.nodup_positions _ _
  case processed => rfl
  case count => exact List.length_map _
  case ranked => simp
  case unranked =>
    intro position bound _
    rw [List.getElem?_map, List.getElem?_eq_getElem bound]
    rfl

end Turns

section Outcome

variable {tensors : List TensorNode} {operations : List OperationNode} {done : List Nat}
  {last : ReadySearch}

theorem lists_sources_iff (linked : Linked tensors operations) {producer consumer : Nat} :
    (Graph.sources tensors operations).Lists consumer producer ↔
      FeedsAt operations producer consumer := by
  constructor
  · rintro ⟨entries, listed, member⟩
    rw [Graph.sources, List.getElem?_map, Option.map_eq_some_iff] at listed
    obtain ⟨node, found, rfl⟩ := listed
    obtain ⟨tensor, isInput, produced⟩ := List.mem_map.mp member
    have inside := linked.inputsInside node (List.mem_of_getElem? found) tensor isInput
    exact ⟨tensor, (linked.producerAt?_iff inside).mp produced, node, found, isInput⟩
  · rintro ⟨tensor, writes, node, found, isInput⟩
    have inside := linked.inputsInside node (List.mem_of_getElem? found) tensor isInput
    exact ⟨_, sources_getElem? found,
      List.mem_map.mpr ⟨tensor, isInput, (linked.producerAt?_iff inside).mpr writes⟩⟩

theorem sources_closed (linked : Linked tensors operations) :
    (Graph.sources tensors operations).Closed := by
  intro consumer producer lists
  obtain ⟨_, ⟨writer, found, _⟩, _⟩ := (lists_sources_iff linked).mp lists
  rw [Graph.sources, List.length_map]
  exact (List.getElem?_eq_some_iff.mp found).1

/-- What is left over when nothing is ready waits for something else that is left over, so none of it
is ever ranked. -/
theorem Settled.unranked_of_left (settled : Settled tensors operations done last)
    (linked : Linked tensors operations) (empty : last.waiting.ready = []) {position : Nat}
    {node : OperationNode} (found : operations[position]? = some node)
    (plain : node.operation.isGroup = false) (left : position ∉ done) {ranking : Ranking} :
    (rankings (Graph.sources tensors operations)).get? position ≠ some ranking := by
  induction depth : ranking.depth using Nat.strong_induction_on generalizing position node ranking with
  | _ depth ih =>
      intro isRanked
      -- Were none of its inputs awaited, it would have been ready at some time and so be done.
      obtain ⟨tensor, isInput, isAwaited⟩ : ∃ tensor ∈ node.inputs,
          awaitedAfter tensors done tensor = true := by
        by_contra settledAll
        refine left ?_
        have among := (settled.balanced.ready position).mpr ⟨node, found, plain, ?_⟩
        · rwa [empty, List.append_nil] at among
        · rw [settled.balanced.pending position node found, Option.some.injEq, List.countP_eq_zero]
          exact fun tensor isInput isAwaited => settledAll ⟨tensor, isInput, isAwaited⟩
      obtain ⟨producer, produced, notDone⟩ : ∃ producer,
          producerAt? tensors tensor = some producer ∧ producer ∉ done := by
        simpa [awaitedAfter, Option.any_eq_true] using isAwaited
      have inside := linked.inputsInside node (List.mem_of_getElem? found) tensor isInput
      have writes := (linked.producerAt?_iff inside).mp produced
      obtain ⟨other, otherRanked, shallower⟩ := depth_lt_of_lists
        ((lists_sources_iff linked).mpr ⟨tensor, writes, node, found, isInput⟩) isRanked
      obtain ⟨writer, writerFound, isOutput⟩ := writes
      have writerPlain :=
        linked.isGroup_eq_false (List.mem_of_getElem? writerFound) (Or.inr isOutput)
      exact ih other.depth (depth ▸ shallower) writerFound writerPlain notDone rfl otherRanked

theorem Settled.exists_rank (settled : Settled tensors operations done last)
    (linked : Linked tensors operations)
    (all : ∀ (position : Nat) (node : OperationNode), operations[position]? = some node →
      node.operation.isGroup = false → position ∈ done)
    {position : Nat} (bound : position < operations.length) :
    ∃ ranking, (rankings (Graph.sources tensors operations)).get? position = some ranking ∧
      last.ranks[position]? = some ranking.rank := by
  have found := List.getElem?_eq_getElem bound
  cases isGroup : operations[position].operation.isGroup with
  | false => exact settled.ranked position (all position _ found isGroup)
  | true =>
      have noInputs := (linked.markers _ (List.getElem_mem bound) isGroup).1
      have notDone : position ∉ done := fun isDone => by
        obtain ⟨node, nodeFound, plain, _⟩ :=
          (settled.balanced.ready position).mp (List.mem_append_left _ isDone)
        rw [found] at nodeFound
        cases nodeFound
        rw [isGroup] at plain
        cases plain
      have entries := @sources_getElem? tensors _ _ _ found
      rw [noInputs] at entries
      refine ⟨Ranking.ofSources [], (rankings_get?_iff entries _).mpr ⟨[], rfl, rfl⟩, ?_⟩
      rw [settled.unranked position bound notDone]
      simp [Ranking.ofSources]

theorem length_rankings_sources :
    (rankings (Graph.sources tensors operations)).length = operations.length := by
  rw [length_rankings, Graph.sources, List.length_map]

theorem Settled.ranks_of_all (settled : Settled tensors operations done last)
    (linked : Linked tensors operations)
    (all : ∀ (position : Nat) (node : OperationNode), operations[position]? = some node →
      node.operation.isGroup = false → position ∈ done) :
    Graph.ranks tensors operations = .ok last.ranks := by
  have count := @length_rankings_sources tensors operations
  obtain ⟨known, isKnown⟩ := Rankings.exists_mapM_id fun entry member => by
    obtain ⟨position, bound, listed⟩ := List.getElem_of_mem member
    obtain ⟨ranking, isRanked, _⟩ := settled.exists_rank linked all (by rwa [← count])
    rw [Rankings.get?_eq_getElem bound, listed] at isRanked
    rw [isRanked]
    rfl
  have entries := mapM_id_eq_some_iff.mp isKnown
  rw [Graph.ranks, isKnown]
  refine congrArg Except.ok (List.ext_getElem? fun position => ?_)
  rw [entries, List.length_map] at count
  by_cases bound : position < operations.length
  · obtain ⟨ranking, isRanked, sameRank⟩ := settled.exists_rank linked all bound
    rw [entries, Rankings.get?, List.getElem?_map, Option.join_eq_some_iff,
      Option.map_eq_some_iff] at isRanked
    obtain ⟨_, here, same⟩ := isRanked
    cases same
    rw [sameRank, List.getElem?_map, here]
    rfl
  · rw [List.getElem?_eq_none (by simpa [count] using bound),
      List.getElem?_eq_none (by simpa [settled.count] using bound)]

theorem Settled.ranks_of_left (settled : Settled tensors operations done last)
    (linked : Linked tensors operations) (empty : last.waiting.ready = []) {position : Nat}
    {node : OperationNode} (found : operations[position]? = some node)
    (plain : node.operation.isGroup = false) (left : position ∉ done) :
    Graph.ranks tensors operations = .error .cyclicGraph := by
  have unknown : (rankings (Graph.sources tensors operations)).mapM id = none := by
    by_contra isKnown
    obtain ⟨known, ranked⟩ := Option.ne_none_iff_exists'.mp isKnown
    have bound : position < (rankings (Graph.sources tensors operations)).length := by
      rw [length_rankings_sources]
      exact (List.getElem?_eq_some_iff.mp found).1
    obtain ⟨ranking, isRanked⟩ :=
      Option.isSome_iff_exists.mp (Rankings.isSome_of_mapM_id ranked bound)
    exact settled.unranked_of_left linked empty found plain left isRanked
  rw [Graph.ranks, unknown]

theorem Settled.outcome (settled : Settled tensors operations done last)
    (linked : Linked tensors operations) (empty : last.waiting.ready = []) :
    Graph.ranks tensors operations =
      if last.processed < (operations.filter fun node => !node.operation.isGroup).length then
        .error .cyclicGraph
      else .ok last.ranks := by
  have once := settled.balanced.once
  have isDone := settled.balanced.ready
  simp only [empty, List.append_nil] at once isDone
  have isPlain : ∀ position, position ∈ Connections.positions
      (fun node : OperationNode => !node.operation.isGroup) operations ↔
        ∃ node, operations[position]? = some node ∧ node.operation.isGroup = false := by
    simp [Connections.mem_positions]
  rw [settled.processed, ← List.countP_eq_length_filter, ← Connections.length_positions]
  -- What is done is listed once, so that counting it tells whether anything is left over.
  by_cases all : ∀ (position : Nat) (node : OperationNode), operations[position]? = some node →
      node.operation.isGroup = false → position ∈ done
  · have covered := (List.subperm_of_subset (Connections.nodup_positions
      (fun node : OperationNode => !node.operation.isGroup) operations) fun position member => by
        obtain ⟨node, found, plain⟩ := (isPlain position).mp member
        exact all position node found plain).length_le
    rw [if_neg (Nat.not_lt.mpr covered), settled.ranks_of_all linked all]
  · simp only [not_forall, exists_prop] at all
    obtain ⟨position, node, found, plain, left⟩ := all
    have room := (List.subperm_of_subset (List.nodup_cons.mpr ⟨left, once⟩)
      fun other member => by
        rw [isPlain]
        rcases List.mem_cons.mp member with rfl | among
        · exact ⟨node, found, plain⟩
        · obtain ⟨otherNode, otherFound, otherPlain, _⟩ := (isDone other).mp among
          exact ⟨otherNode, otherFound, otherPlain⟩).length_le
    rw [if_pos (Nat.lt_of_succ_le room), settled.ranks_of_left linked empty found plain left]

theorem rankAll_agrees (linked : Linked tensors operations) :
    Guarded.Agrees (rankAll tensors operations) (Graph.ranks tensors operations) := by
  obtain ⟨waiting, started, settled⟩ := exists_start linked
  have enough : operations.length ≤ ([] : List Nat).length + operations.length := by simp
  obtain ⟨last, done, ran, lastSettled, empty⟩ := settled.run linked enough
  refine .access_bind started (.access_bind ran ?_)
  rw [lastSettled.outcome linked empty]
  exact .ite (fun _ => .of_plain _) fun _ => .of_plain _

end Outcome

end ReadySearch

/-- Rank that an input adds; zero if nothing produces it. -/
def inputRank (tensors : List TensorNode) (ranks : List Nat) (tensor : Nat) : Nat :=
  ((producerAt? tensors tensor).bind fun producer => ranks[producer]?).getD 0

structure RanksExact (tensors : List TensorNode) (operations : List OperationNode)
    (ranks : List Nat) : Prop where
  count : ranks.length = operations.length
  marker : ∀ (position : Nat) (node : OperationNode), operations[position]? = some node →
    node.operation.isGroup = true → ranks[position]? = some 0
  exact : ∀ (position : Nat) (node : OperationNode), operations[position]? = some node →
    node.operation.isGroup = false → ranks[position]? = some
      (min (node.inputs.length + total (node.inputs.map (inputRank tensors ranks))) Limit.word)

section Exactness

variable {tensors : List TensorNode} {operations : List OperationNode}

theorem graphRanks_error_iff (linked : Linked tensors operations) :
    Graph.ranks tensors operations = .error .cyclicGraph ↔
      ∃ position, Relation.TransGen (FeedsAt operations) position position := by
  have feeds : FeedsAt operations = Function.swap (Graph.sources tensors operations).Lists := by
    funext producer consumer
    exact propext (ReadySearch.lists_sources_iff linked).symm
  have acyclic := ranked_iff_acyclic (ReadySearch.sources_closed linked)
  rw [← not_iff_not, not_exists]
  simp only [feeds, Relation.transGen_swap, ← acyclic, Graph.ranks]
  cases (rankings (Graph.sources tensors operations)).mapM id with
  | none => simp
  | some known => simp

theorem ranksExact_of_ok (linked : Linked tensors operations) {ranks : List Nat}
    (isRanked : Graph.ranks tensors operations = .ok ranks) :
    RanksExact tensors operations ranks := by
  obtain ⟨known, ranked, rfl⟩ := Graph.ranks_ok_iff.mp isRanked
  have entries := mapM_id_eq_some_iff.mp ranked
  have count : known.length = operations.length := by
    have same := congrArg List.length entries
    rw [length_rankings, Graph.sources, List.length_map, List.length_map] at same
    exact same.symm
  have lookup : ∀ position, (known.map Ranking.rank)[position]? =
      ((rankings (Graph.sources tensors operations)).get? position).map Ranking.rank := by
    intro position
    rw [entries, Rankings.get?, List.getElem?_map, List.getElem?_map]
    cases known[position]? <;> rfl
  have exact : ∀ (position : Nat) (node : OperationNode), operations[position]? = some node →
      (known.map Ranking.rank)[position]? = some (min (node.inputs.length +
        total (node.inputs.map (inputRank tensors (known.map Ranking.rank)))) Limit.word) := by
    intro position node found
    have bound : position < (rankings (Graph.sources tensors operations)).length := by
      rw [entries, List.length_map, count]
      exact (List.getElem?_eq_some_iff.mp found).1
    obtain ⟨ranking, isRanking⟩ :=
      Option.isSome_iff_exists.mp (Rankings.isSome_of_mapM_id ranked bound)
    have same := rank_eq_of_ranked (ReadySearch.sources_getElem? found) isRanking
    have ranksAgree : (rankings (Graph.sources tensors operations)).rankOf ∘ producerAt? tensors =
        inputRank tensors (known.map Ranking.rank) := by
      funext tensor
      simp only [Function.comp_apply, Rankings.rankOf, inputRank, lookup]
      cases producerAt? tensors tensor <;> rfl
    rw [List.length_map, List.map_map, ranksAgree] at same
    rw [lookup, isRanking, Option.map_some, same]
  constructor
  case count => rw [List.length_map, count]
  case marker =>
    intro position node found isGroup
    rw [exact position node found,
      (linked.markers node (List.mem_of_getElem? found) isGroup).1]
    rfl
  case exact => exact fun position node found _ => exact position node found

end Exactness

/-- Ranking operations as their inputs become available ends, and no counter falls below zero. It
fails exactly if operations feed each other in a circle, and otherwise each rank is what it is meant
to be. -/
theorem rankAll_exact {tensors : List Tensor} {operations : List Operation}
    {nodes : List TensorNode} {entered : List OperationNode}
    (generated : Guarded.Agrees (Indices.generate tensors operations) (.ok (nodes, entered))) :
    Guarded.Agrees (ReadySearch.rankAll nodes entered) (Graph.ranks nodes entered) ∧
      (Graph.ranks nodes entered = .error .cyclicGraph ↔
        ∃ position, Relation.TransGen (FeedsAt entered) position position) ∧
      ∀ ranks, Graph.ranks nodes entered = .ok ranks → RanksExact nodes entered ranks := by
  have linked := Indices.linked_of_generate generated
  exact ⟨ReadySearch.rankAll_agrees linked, graphRanks_error_iff linked,
    fun _ => ranksExact_of_ok linked⟩

section Relay

def doubledRelay : List Operation :=
  [Graph.relayCopy 1 1 2, Graph.relayCopy 2 0 1, Graph.relayMarker,
    { Graph.relaySum with inputs := [1, 1] }, Graph.relayCopy 3 2 3]

theorem rankAll_exact_relay :
    ∃ nodes entered,
      Guarded.Agrees (Indices.generate Graph.relayTensors doubledRelay) (.ok (nodes, entered)) ∧
        Guarded.Agrees (ReadySearch.rankAll nodes entered) (.ok [2, 1, 0, 4, 3]) ∧
        (¬∃ position, Relation.TransGen (FeedsAt entered) position position) ∧
        RanksExact nodes entered [2, 1, 0, 4, 3] := by
  refine ⟨_, _, rfl, ?_⟩
  obtain ⟨agrees, fails, exact⟩ := @rankAll_exact Graph.relayTensors doubledRelay _ _ rfl
  refine ⟨agrees, ?_, exact _ rfl⟩
  rw [← fails]
  intro isFailure
  cases isFailure

end Relay

end TensorGraph
