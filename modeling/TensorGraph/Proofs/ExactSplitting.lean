import Mathlib.Data.List.Pairwise
import TensorGraph.Proofs.GuardedRuns

/-!
When the operands of an operation can be separated within a pool. Their spans are put in order and
compared with their neighbours only, yet this finds every overlap; the pool is then cut with an
offset that runs along, and no cut is out of range. What is written to the outputs shows up in
their spans and nowhere else.
-/

namespace TensorGraph

namespace Span

variable {α : Type}

def Covers (span : Span) (position : Nat) : Prop := span.start ≤ position ∧ position < span.stop

def Shows (span : Span) (pool content : List α) : Prop :=
  content.length = span.stop - span.start ∧
    ∀ offset < span.stop - span.start, content[offset]? = pool[span.start + offset]?

theorem shows_view {span : Span} {pool : List α} (within : span.Within pool.length) :
    span.Shows pool (span.view pool) := by
  refine ⟨length_view within, fun offset below => ?_⟩
  rw [getElem?_view, length, if_pos below]

theorem forall₂_shows {pool : List α} {spans : List Span}
    (within : ∀ span ∈ spans, span.Within pool.length) :
    List.Forall₂ (fun span content => span.Shows pool content) spans
      (spans.map fun span => span.view pool) := by
  rw [List.forall₂_map_right_iff, List.forall₂_same]
  exact fun span member => shows_view (within span member)

theorem apart_iff {left right : Span} (leftFilled : left.start < left.stop)
    (rightFilled : right.start < right.stop) :
    left.Apart right ↔ ∀ position, ¬(left.Covers position ∧ right.Covers position) := by
  simp only [Apart, Covers]
  constructor
  · intro apart position
    omega
  · intro disjoint
    have notLeft := disjoint left.start
    have notRight := disjoint right.start
    omega

theorem within_iff {span : Span} {length : Nat} (filled : span.start < span.stop) :
    span.Within length ↔ ∀ position, span.Covers position → position < length := by
  simp only [Within, Covers]
  constructor
  · intro within position
    omega
  · intro inside
    have last := inside (span.stop - 1)
    omega

end Span

theorem getElem?_joinPool {α : Type} {pool : List α} {spans : List Span} {contents : List (List α)}
    (joinable : Joinable pool.length spans contents) {position : Nat}
    (uncovered : ∀ span ∈ spans, ¬span.Covers position) :
    (joinPool pool spans contents)[position]? = pool[position]? := by
  induction spans generalizing pool contents with
  | nil => rfl
  | cons span spans ih =>
      cases contents with
      | nil => rfl
      | cons items contents =>
          obtain ⟨within, fitting, rest⟩ := joinable.uncons
          have outside : ¬(span.start ≤ position ∧ position < span.stop) :=
            uncovered span (by simp)
          rw [joinPool_cons, ih rest fun later listed => uncovered later
            (List.mem_cons_of_mem _ listed), Span.getElem?_patch within fitting, if_neg outside]

namespace Split

/-- What it takes to separate operands: they lie in the pool, different spans share no position, and
no output is named again. -/
structure Disjoint (poolLength : Nat) (inputs outputs : List Span) : Prop where
  inside : ∀ span ∈ inputs ++ outputs, ∀ position, span.Covers position → position < poolLength
  disjoint : ∀ left ∈ inputs ++ outputs, ∀ right ∈ inputs ++ outputs, left ≠ right →
    ∀ position, ¬(left.Covers position ∧ right.Covers position)
  outputsOnce : outputs.Nodup
  outputsOnly : ∀ output ∈ outputs, output ∉ inputs

/-- Comparing neighbours is enough: spans that do not overlap the next one overlap no later one. -/
theorem pairwise_of_firstOverlap {spans : List Span} (separate : firstOverlap spans = none)
    (filled : ∀ span ∈ spans, span.start < span.stop) :
    spans.Pairwise fun left right => left.stop ≤ right.start := by
  induction spans with
  | nil => exact List.Pairwise.nil
  | cons first rest ih =>
      obtain ⟨firstFilled, restFilled⟩ := List.forall_mem_cons.mp filled
      cases rest with
      | nil => exact List.pairwise_singleton _ _
      | cons second rest =>
          rw [firstOverlap] at separate
          split at separate
          · cases separate
          · rename_i notInside
            have later := ih separate restFilled
            refine List.pairwise_cons.mpr ⟨?_, later⟩
            have secondFilled := restFilled second (by simp)
            refine List.forall_mem_cons.mpr ⟨by omega, fun other member => ?_⟩
            have behind := (List.pairwise_cons.mp later).1 other member
            omega

theorem stop_le_of_getLast? {spans : List Span} {last : Span} (isLast : spans.getLast? = some last)
    (ordered : spans.Pairwise fun left right => left.stop ≤ right.start)
    (filled : ∀ span ∈ spans, span.start < span.stop) :
    ∀ span ∈ spans, span.stop ≤ last.stop := by
  obtain ⟨front, rfl⟩ := List.getLast?_eq_some_iff.mp isLast
  intro span member
  rcases List.mem_append.mp member with earlier | isIt
  · have before := (List.pairwise_append.mp ordered).2.2 span earlier last (by simp)
    have lastFilled := filled last (by simp)
    omega
  · rw [List.mem_singleton.mp isIt]

theorem repeatedOutput_eq_none_iff {taken outputs : List Span} :
    repeatedOutput taken outputs = none ↔
      outputs.Nodup ∧ ∀ output ∈ outputs, output ∉ taken := by
  refine ⟨fun none => ?_, fun both => repeatedOutput_eq_none both.1 both.2⟩
  induction outputs generalizing taken with
  | nil => simp
  | cons output rest ih =>
      rw [repeatedOutput] at none
      split at none
      · cases none
      · rename_i fresh
        obtain ⟨unique, others⟩ := ih none
        refine ⟨List.nodup_cons.mpr ⟨fun again => others output again (by simp), unique⟩,
          List.forall_mem_cons.mpr ⟨fresh, fun other member isTaken => ?_⟩⟩
        exact others other member (List.mem_cons_of_mem _ isTaken)

section Filled

variable {poolLength : Nat} {inputs outputs : List Span}

theorem separable_iff (filled : ∀ span ∈ inputs ++ outputs, span.start < span.stop) :
    Separable poolLength inputs outputs ↔ Disjoint poolLength inputs outputs := by
  constructor
  · intro separable
    constructor
    case inside =>
      exact fun span member =>
        (Span.within_iff (filled span member)).mp (separable.within span member)
    case disjoint =>
      intro left leftMember right rightMember different
      rw [← Span.apart_iff (filled left leftMember) (filled right rightMember)]
      exact (separable.separate left leftMember right rightMember).resolve_left different
    case outputsOnce => exact separable.outputsOnce
    case outputsOnly => exact fun output listed isInput => separable.notRead output isInput listed
  · intro disjoint
    constructor
    case separate =>
      intro left leftMember right rightMember
      rw [Span.apart_iff (filled left leftMember) (filled right rightMember)]
      exact or_iff_not_imp_left.mpr (disjoint.disjoint left leftMember right rightMember)
    case filled => exact filled
    case within =>
      exact fun span member =>
        (Span.within_iff (filled span member)).mpr (disjoint.inside span member)
    case outputsOnce => exact disjoint.outputsOnce
    case notRead => exact fun input isInput listed => disjoint.outputsOnly input listed isInput

variable (filled : ∀ span ∈ inputs ++ outputs, span.start < span.stop)

include filled

theorem filled_arrange : ∀ span ∈ arrange (inputs ++ outputs), span.start < span.stop :=
  fun span member => filled span (mem_arrange_iff.mp member)

theorem within_arrange (separate : firstOverlap (arrange (inputs ++ outputs)) = none)
    (lastInside : ((arrange (inputs ++ outputs)).getLast?.filter fun last =>
      poolLength < last.stop) = none) :
    ∀ span ∈ arrange (inputs ++ outputs), span.Within poolLength := by
  have arrangedFilled := filled_arrange filled
  have ordered := pairwise_of_firstOverlap separate arrangedFilled
  intro span member
  have isFilled := arrangedFilled span member
  cases isLast : (arrange (inputs ++ outputs)).getLast? with
  | none =>
      rw [List.getLast?_eq_none_iff.mp isLast] at member
      cases member
  | some last =>
      have behind := stop_le_of_getLast? isLast ordered arrangedFilled span member
      have inside : last.stop ≤ poolLength := by simpa [isLast] using lastInside
      exact ⟨by omega, by omega⟩

theorem fault_eq_none_iff_separable :
    fault poolLength inputs outputs = none ↔ Separable poolLength inputs outputs := by
  refine ⟨fun faultless => ?_, fault_eq_none⟩
  simp only [fault] at faultless
  split at faultless
  · cases faultless
  · rename_i separate
    split at faultless
    · cases faultless
    · rename_i lastInside
      split at faultless
      · cases faultless
      · rename_i once
        have arranged := pairwise_of_firstOverlap separate (filled_arrange filled)
        have within := within_arrange filled separate lastInside
        constructor
        case separate =>
          have symmetric : Std.Symm Span.Apart := ⟨fun _ _ => Span.Apart.symm⟩
          have apart : (arrange (inputs ++ outputs)).Pairwise Span.Apart := arranged.imp Or.inl
          intro left leftMember right rightMember
          exact or_iff_not_imp_left.mpr
            (apart.forall (mem_arrange_iff.mpr leftMember) (mem_arrange_iff.mpr rightMember))
        case filled => exact filled
        case within => exact fun span member => within span (mem_arrange_iff.mpr member)
        case outputsOnce => exact (repeatedOutput_eq_none_iff.mp once).1
        case notRead => simpa using faultless

end Filled

end Split

namespace Guarded

variable {α : Type}

def piecesLeft (pool : List α) (spans taken : List Span) : List (Span × List α) :=
  (spans.filter fun span => span ∉ taken).map fun span => (span, span.view pool)

theorem lookup_piecesLeft {pool : List α} {spans taken : List Span} {span : Span}
    (member : span ∈ spans) :
    (piecesLeft pool spans taken).lookup span =
      if span ∈ taken then none else some (span.view pool) := by
  split
  · rename_i isTaken
    rw [List.lookup_eq_none_iff]
    intro piece listed
    obtain ⟨other, isLeft, rfl⟩ := List.mem_map.mp listed
    have notTaken : other ∉ taken := by simpa using (List.mem_filter.mp isLeft).2
    simpa using fun same : span = other => notTaken (same ▸ isTaken)
  · rename_i notTaken
    exact lookup_map (List.mem_filter.mpr ⟨member, by simpa using notTaken⟩)

theorem filter_piecesLeft (pool : List α) (spans taken : List Span) (output : Span) :
    ((piecesLeft pool spans taken).filter fun other => other.1 ≠ output) =
      piecesLeft pool spans (output :: taken) := by
  rw [piecesLeft, piecesLeft, List.filter_map, List.filter_filter]
  congr 1
  refine List.filter_congr fun span _ => ?_
  simp

theorem handOut_eq {pool : List α} {spans taken outputs : List Span} (inside : outputs ⊆ spans) :
    handOut outputs (piecesLeft pool spans taken) =
      match Split.repeatedOutput taken outputs with
      | some output => .error (.outputIsOperand output)
      | none => .ok (outputs.map fun span => span.view pool,
          piecesLeft pool spans (outputs.reverse ++ taken)) := by
  induction outputs generalizing taken with
  | nil => rfl
  | cons output rest ih =>
      obtain ⟨member, restInside⟩ := List.cons_subset.mp inside
      rw [handOut, lookup_piecesLeft member, Split.repeatedOutput]
      by_cases isTaken : output ∈ taken
      · simp only [isTaken, if_true]
      · simp only [isTaken, if_false]
        rw [filter_piecesLeft, ih restInside]
        cases Split.repeatedOutput (output :: taken) rest with
        | some other => rfl
        | none =>
            rw [List.reverse_cons, List.append_assoc, List.singleton_append]
            rfl

theorem lend_eq {pool : List α} {spans taken inputs : List Span} (inside : inputs ⊆ spans) :
    lend (piecesLeft pool spans taken) inputs =
      match inputs.find? fun input => input ∈ taken with
      | some input => .error (.inputIsOutput input)
      | none => .ok (inputs.map fun span => span.view pool) := by
  induction inputs with
  | nil => rfl
  | cons input rest ih =>
      obtain ⟨member, restInside⟩ := List.cons_subset.mp inside
      rw [lend, lookup_piecesLeft member, List.find?_cons]
      by_cases isTaken : input ∈ taken
      · simp only [isTaken, if_true, decide_true]
      · simp only [isTaken, if_false, decide_false]
        rw [ih restInside]
        cases rest.find? fun other => other ∈ taken with
        | some other => rfl
        | none => rfl

theorem cutPool_agrees (pool : List α) {inputs outputs : List Span}
    (filled : ∀ span ∈ inputs ++ outputs, span.start < span.stop) :
    Agrees (cutPool pool inputs outputs) (splitPool pool inputs outputs) := by
  simp only [cutPool, splitPool, Split.fault]
  cases separate : Split.firstOverlap (Split.arrange (inputs ++ outputs)) with
  | some overlap => exact .of_plain _
  | none =>
      cases lastInside : (Split.arrange (inputs ++ outputs)).getLast?.filter fun last =>
          pool.length < last.stop with
      | some last => exact .of_plain _
      | none =>
          have within := Split.within_arrange filled separate lastInside
          have carved := @carve?_eq _ pool _ 0 separate within fun span _ => Nat.zero_le span.start
          rw [List.drop_zero] at carved
          refine .access_bind carved ?_
          have whole : ((Split.arrange (inputs ++ outputs)).map fun span => (span, span.view pool)) =
              piecesLeft pool (Split.arrange (inputs ++ outputs)) [] := by
            simp [piecesLeft]
          have outputsInside : outputs ⊆ Split.arrange (inputs ++ outputs) := fun span listed =>
            Split.mem_arrange_iff.mpr (List.mem_append_right _ listed)
          have inputsInside : inputs ⊆ Split.arrange (inputs ++ outputs) := fun span listed =>
            Split.mem_arrange_iff.mpr (List.mem_append_left _ listed)
          rw [whole, handOut_eq outputsInside]
          cases Split.repeatedOutput [] outputs with
          | some output => exact .of_plain _
          | none =>
              refine .plain_bind ?_
              simp only [lend_eq inputsInside, List.append_nil, List.mem_reverse]
              cases inputs.find? fun input => input ∈ outputs with
              | some input => exact .of_plain _
              | none => exact .of_plain _

end Guarded

section Writing

variable {α : Type}

/-- New contents were written to the outputs: their spans show them, the views of the inputs are
still what the pool shows, and all other positions are as before. -/
structure WrittenThrough (pool written : List α) (inputs outputs : List Span) (views : Views α)
    (contents : List (List α)) : Prop where
  sameLength : written.length = pool.length
  outputsShow : List.Forall₂ (fun span content => span.Shows written content) outputs contents
  inputsShow : List.Forall₂ (fun span content => span.Shows written content) inputs views.inputs
  others : ∀ position, (∀ output ∈ outputs, ¬output.Covers position) →
    written[position]? = pool[position]?

theorem Split.Separable.joinable {pool : List α} {inputs outputs : List Span}
    (separable : Split.Separable pool.length inputs outputs) {contents : List (List α)}
    (fitting : contents.map List.length = outputs.map Span.length) :
    Joinable pool.length outputs contents where
  within span listed := separable.within span (List.mem_append_right _ listed)
  apart := by
    refine separable.outputsOnce.imp_of_mem fun {left right} leftListed rightListed different => ?_
    exact (separable.separate left (List.mem_append_right _ leftListed) right
      (List.mem_append_right _ rightListed)).resolve_left different
  fitting

theorem writtenThrough {pool : List α} {inputs outputs : List Span} {views : Views α}
    (separable : Split.Separable pool.length inputs outputs)
    (inputViews : views.inputs = inputs.map fun span => span.view pool)
    {contents : List (List α)} (fitting : contents.map List.length = outputs.map Span.length) :
    WrittenThrough pool (joinPool pool outputs contents) inputs outputs views contents := by
  have joinable := separable.joinable fitting
  have sameLength := length_joinPool joinable
  have inWritten : ∀ span ∈ inputs ++ outputs,
      span.Within (joinPool pool outputs contents).length := by
    rw [sameLength]
    exact separable.within
  constructor
  case sameLength => exact sameLength
  case outputsShow =>
    have shown := Span.forall₂_shows fun span listed =>
      inWritten span (List.mem_append_right _ listed)
    rwa [map_view_joinPool joinable] at shown
  case inputsShow =>
    have shown := Span.forall₂_shows fun span listed =>
      inWritten span (List.mem_append_left _ listed)
    have unchanged : (inputs.map fun span => span.view (joinPool pool outputs contents)) =
        views.inputs := by
      rw [inputViews]
      refine List.map_congr_left fun input isInput => ?_
      refine view_joinPool_of_apart joinable fun output listed => ?_
      refine (separable.separate input (List.mem_append_left _ isInput) output
        (List.mem_append_right _ listed)).resolve_left fun same => ?_
      exact separable.notRead input isInput (same ▸ listed)
    rwa [unchanged] at shown
  case others => exact fun position uncovered => getElem?_joinPool joinable uncovered

end Writing

/-- Splitting a pool is exact: operands are separated if and only if their spans allow it, each view
shows its span, and writing through the outputs changes their spans alone. -/
theorem splitPool_exact {α : Type} (pool : List α) (inputs outputs : List Span)
    (filled : ∀ span ∈ inputs ++ outputs, span.start < span.stop) :
    Guarded.Agrees (Guarded.cutPool pool inputs outputs) (splitPool pool inputs outputs) ∧
    ((∃ views, splitPool pool inputs outputs = .ok views) ↔
      Split.Disjoint pool.length inputs outputs) ∧
    ∀ views, splitPool pool inputs outputs = .ok views →
      List.Forall₂ (fun span view => span.Shows pool view) inputs views.inputs ∧
      List.Forall₂ (fun span view => span.Shows pool view) outputs views.outputs ∧
      ∀ contents, contents.map List.length = views.outputs.map List.length →
        WrittenThrough pool (joinPool pool outputs contents) inputs outputs views contents := by
  have faultless := @Split.fault_eq_none_iff_separable pool.length inputs outputs filled
  refine ⟨Guarded.cutPool_agrees pool filled, ?_, fun views succeeded => ?_⟩
  · rw [← Split.separable_iff filled]
    refine ⟨fun ⟨views, succeeded⟩ => ?_, fun separable => ⟨_, splitPool_ok separable⟩⟩
    rw [splitPool] at succeeded
    split at succeeded
    · cases succeeded
    · rename_i none
      exact faultless.mp none
  · have separable : Split.Separable pool.length inputs outputs := by
      rw [splitPool] at succeeded
      split at succeeded
      · cases succeeded
      · rename_i none
        exact faultless.mp none
    rw [splitPool_ok separable] at succeeded
    cases succeeded
    refine ⟨Span.forall₂_shows fun span listed =>
        separable.within span (List.mem_append_left _ listed),
      Span.forall₂_shows fun span listed =>
        separable.within span (List.mem_append_right _ listed), fun contents sameLengths => ?_⟩
    refine writtenThrough separable rfl (sameLengths.trans ?_)
    rw [List.map_map]
    exact List.map_congr_left fun span listed =>
      Span.length_view (separable.within span (List.mem_append_right _ listed))

theorem splitPool_exact_repeated :
    ∃ views, splitPool [1, 2, 3, 4, 5, 6] [⟨2, 4⟩, ⟨2, 4⟩] [⟨4, 6⟩] = .ok views ∧
      views.inputs = [[3, 4], [3, 4]] ∧ views.outputs = [[5, 6]] ∧
      WrittenThrough [1, 2, 3, 4, 5, 6] [1, 2, 3, 4, 7, 8] [⟨2, 4⟩, ⟨2, 4⟩] [⟨4, 6⟩] views
        [[7, 8]] := by
  refine ⟨_, rfl, rfl, rfl, ?_⟩
  exact ((splitPool_exact [1, 2, 3, 4, 5, 6] [⟨2, 4⟩, ⟨2, 4⟩] [⟨4, 6⟩] (by decide)).2.2 _
    rfl).2.2 [[7, 8]] rfl

end TensorGraph
