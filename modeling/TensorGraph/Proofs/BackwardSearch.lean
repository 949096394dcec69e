import TensorGraph.Graph.BackwardSearch
import TensorGraph.Proofs.BackwardClosure
import TensorGraph.Proofs.Guarded
import TensorGraph.Proofs.Marks

/-!
Searching backward with a stack comes to the closure. Whatever the marks call for is marked as well,
or waits on the stack. Outputs that are marked along with their producer are never looked at, but
all they call for is that producer. An input is left out only if it has a mark, and then its
producer has one.
-/

namespace TensorGraph

namespace BackwardSearch

variable {graph : Graph} {wanted : List Nat} {search : BackwardSearch}

def Covered (search : BackwardSearch) (tensor : Nat) : Prop :=
  search.tensors[tensor]? = some true ∨ tensor ∈ search.stack

structure Sound (graph : Graph) (wanted : List Nat) (search : BackwardSearch) : Prop where
  tensorCount : search.tensors.length = graph.tensors.length
  operationCount : search.operations.length = graph.operations.length
  leads : ∀ position : Nat, search.operations[position]? = some true →
    graph.LeadsTo wanted position
  touched : ∀ tensor, search.Covered tensor →
    graph.isTouched wanted search.operations tensor = true
  wantedCovered : ∀ tensor ∈ wanted, search.Covered tensor
  inputs : ∀ (position : Nat) (node : OperationNode), graph.operations[position]? = some node →
    search.operations[position]? = some true → ∀ tensor ∈ node.inputs, search.Covered tensor
  outputs : ∀ (position : Nat) (node : OperationNode), graph.operations[position]? = some node →
    search.operations[position]? = some true →
      ∀ tensor ∈ node.outputs, search.tensors[tensor]? = some true
  producers : ∀ tensor producer : Nat, search.tensors[tensor]? = some true →
    graph.producer? tensor = some producer → search.operations[producer]? = some true

/-- Tensors that wait, and inputs that may still be put on the stack. -/
def owed (graph : Graph) (search : BackwardSearch) : Nat :=
  search.stack.length +
    unmarkedTotal (fun node => node.inputs.length) graph.operations search.operations

theorem isTouched_mono {before after : List Bool}
    (grows : ∀ position : Nat, before[position]? = some true → after[position]? = some true)
    {tensor : Nat} (touched : graph.isTouched wanted before tensor = true) :
    graph.isTouched wanted after tensor = true := by
  rw [Graph.isTouched_iff] at touched ⊢
  refine touched.imp_right ?_
  rintro ⟨position, node, found, isMarked, operand⟩
  exact ⟨position, node, found, grows position isMarked, operand⟩

section Turns

variable {tensor : Nat} {rest : List Nat}

theorem Covered.advance {next : BackwardSearch} {other : Nat} (covered : search.Covered other)
    (top : search.stack = tensor :: rest)
    (grows : ∀ place : Nat, search.tensors[place]? = some true → next.tensors[place]? = some true)
    (isMarked : next.tensors[tensor]? = some true) (waiting : ∀ place ∈ rest, place ∈ next.stack) :
    next.Covered other := by
  rcases covered with known | waits
  · exact Or.inl (grows other known)
  · rcases List.mem_cons.mp (top ▸ waits) with rfl | later
    · exact Or.inl isMarked
    · exact Or.inr (waiting other later)

theorem Sound.lt_of_covered (sound : Sound graph wanted search) (wellFormed : graph.WellFormed)
    (inside : ∀ tensor ∈ wanted, tensor < graph.tensors.length)
    (covered : search.Covered tensor) : tensor < graph.tensors.length := by
  rcases Graph.isTouched_iff.mp (sound.touched tensor covered) with
    isWanted | ⟨position, node, found, _, operand⟩
  · exact inside tensor isWanted
  · exact wellFormed.lt_of_operand (List.mem_of_getElem? found) operand

theorem Sound.leadsTo_of_covered (sound : Sound graph wanted search)
    (wellFormed : graph.WellFormed) (covered : search.Covered tensor) {producer : Nat}
    (produced : graph.producer? tensor = some producer) : graph.LeadsTo wanted producer := by
  rcases Graph.isTouched_iff.mp (sound.touched tensor covered) with
    isWanted | ⟨position, node, found, isMarked, isInput | isOutput⟩
  · obtain ⟨writer, writerFound, written⟩ := wellFormed.producer?_eq_some_iff.mp produced
    exact Graph.leadsTo_of_writes writerFound written isWanted
  · exact (sound.leads position isMarked).of_feeds ⟨node, found, tensor, isInput, produced⟩
  · have samePlace := wellFormed.producer?_eq_some_iff.mpr ⟨node, found, isOutput⟩
    rw [produced] at samePlace
    cases samePlace
    exact sound.leads producer isMarked

theorem Sound.drop (sound : Sound graph wanted search) (top : search.stack = tensor :: rest)
    (isMarked : search.tensors[tensor]? = some true) :
    Sound graph wanted ⟨rest, search.tensors, search.operations⟩ := by
  have remains : ∀ other, search.Covered other →
      Covered ⟨rest, search.tensors, search.operations⟩ other := fun other covered =>
    covered.advance top (fun _ => id) isMarked fun _ => id
  exact { sound with
    touched := fun other covered => sound.touched other
      (covered.imp_right fun later => top ▸ List.mem_cons_of_mem _ later)
    wantedCovered := fun other isWanted => remains other (sound.wantedCovered other isWanted)
    inputs := fun position node found entered other isInput =>
      remains other (sound.inputs position node found entered other isInput) }

theorem Sound.mark (sound : Sound graph wanted search) (top : search.stack = tensor :: rest)
    (bound : tensor < graph.tensors.length)
    (entered : ∀ producer, graph.producer? tensor = some producer →
      search.operations[producer]? = some true) :
    Sound graph wanted ⟨rest, search.tensors.set tensor true, search.operations⟩ := by
  rw [← sound.tensorCount] at bound
  have isMarked := getElem?_mark_iff bound
  have remains : ∀ other, search.Covered other →
      Covered ⟨rest, search.tensors.set tensor true, search.operations⟩ other :=
    fun other covered => covered.advance top (fun place known =>
      (isMarked place).mpr (Or.inr known)) ((isMarked tensor).mpr (Or.inl rfl)) fun _ => id
  exact {
    tensorCount := List.length_set.trans sound.tensorCount
    operationCount := sound.operationCount
    leads := sound.leads
    touched := by
      rintro other (known | later)
      · rcases (isMarked other).mp known with rfl | before
        · exact sound.touched other (Or.inr (top ▸ List.mem_cons_self))
        · exact sound.touched other (Or.inl before)
      · exact sound.touched other (Or.inr (top ▸ List.mem_cons_of_mem _ later))
    wantedCovered := fun other isWanted => remains other (sound.wantedCovered other isWanted)
    inputs := fun position node found isEntered other isInput =>
      remains other (sound.inputs position node found isEntered other isInput)
    outputs := fun position node found isEntered other isOutput =>
      (isMarked other).mpr (Or.inr (sound.outputs position node found isEntered other isOutput))
    producers := fun other producer known produced => by
      rcases (isMarked other).mp known with rfl | before
      · exact entered producer produced
      · exact sound.producers other producer before produced }

/-- The producer of the tensor on top is entered: its outputs are marked, and its inputs are on the
stack unless they have a mark. -/
theorem Sound.enter (sound : Sound graph wanted search) (wellFormed : graph.WellFormed)
    (top : search.stack = tensor :: rest) {producer : Nat} {node : OperationNode}
    (produced : graph.producer? tensor = some producer)
    (found : graph.operations[producer]? = some node) {marks : List Bool}
    (count : marks.length = search.tensors.length)
    (isMarked : ∀ other : Nat, marks[other]? = some true ↔
      other ∈ node.outputs ∨ search.tensors[other]? = some true) {stack : List Nat}
    (pushed : ∀ other, other ∈ stack ↔
      (other ∈ node.inputs ∧ marks[other]? ≠ some true) ∨ other ∈ rest) :
    Sound graph wanted ⟨stack, marks, search.operations.set producer true⟩ := by
  have bound : producer < search.operations.length := by
    rw [sound.operationCount]
    exact (List.getElem?_eq_some_iff.mp found).1
  have isEntered := getElem?_mark_iff bound
  have onTop : search.Covered tensor := Or.inr (top ▸ List.mem_cons_self)
  have written : tensor ∈ node.outputs := by
    obtain ⟨writer, writerFound, written⟩ := wellFormed.producer?_eq_some_iff.mp produced
    cases found.symm.trans writerFound
    exact written
  have remains : ∀ other, search.Covered other →
      Covered ⟨stack, marks, search.operations.set producer true⟩ other := fun other covered =>
    covered.advance top (fun place known => (isMarked place).mpr (Or.inr known))
      ((isMarked tensor).mpr (Or.inl written)) fun place later => (pushed place).mpr (Or.inr later)
  have operand : ∀ other, other ∈ node.inputs ∨ other ∈ node.outputs →
      graph.isTouched wanted (search.operations.set producer true) other = true := fun other uses =>
    Graph.isTouched_iff.mpr
      (Or.inr ⟨producer, node, found, (isEntered producer).mpr (Or.inl rfl), uses⟩)
  have stillTouched : ∀ other, search.Covered other →
      graph.isTouched wanted (search.operations.set producer true) other = true :=
    fun other covered => isTouched_mono (fun position known =>
      (isEntered position).mpr (Or.inr known)) (sound.touched other covered)
  constructor
  case tensorCount => exact count.trans sound.tensorCount
  case operationCount => exact List.length_set.trans sound.operationCount
  case leads =>
    intro position known
    rcases (isEntered position).mp known with rfl | before
    · exact sound.leadsTo_of_covered wellFormed onTop produced
    · exact sound.leads position before
  case touched =>
    rintro other (known | waits)
    · rcases (isMarked other).mp known with isOutput | before
      · exact operand other (Or.inr isOutput)
      · exact stillTouched other (Or.inl before)
    · rcases (pushed other).mp waits with ⟨isInput, _⟩ | later
      · exact operand other (Or.inl isInput)
      · exact stillTouched other (Or.inr (top ▸ List.mem_cons_of_mem _ later))
  case wantedCovered =>
    exact fun other isWanted => remains other (sound.wantedCovered other isWanted)
  case inputs =>
    intro position other otherFound known input isInput
    rcases (isEntered position).mp known with rfl | before
    · cases found.symm.trans otherFound
      by_cases already : marks[input]? = some true
      · exact Or.inl already
      · exact Or.inr ((pushed input).mpr (Or.inl ⟨isInput, already⟩))
    · exact remains input (sound.inputs position other otherFound before input isInput)
  case outputs =>
    intro position other otherFound known output isOutput
    rcases (isEntered position).mp known with rfl | before
    · cases found.symm.trans otherFound
      exact (isMarked output).mpr (Or.inl isOutput)
    · exact (isMarked output).mpr
        (Or.inr (sound.outputs position other otherFound before output isOutput))
  case producers =>
    intro other otherProducer known otherProduced
    refine (isEntered otherProducer).mpr ?_
    rcases (isMarked other).mp known with isOutput | before
    · have samePlace := wellFormed.producer?_eq_some_iff.mpr ⟨node, found, isOutput⟩
      rw [otherProduced] at samePlace
      exact Or.inl (Option.some.inj samePlace)
    · exact Or.inr (sound.producers other otherProducer before otherProduced)

theorem exists_markAll? {marks : List Bool} {tensors : List Nat}
    (inside : ∀ tensor ∈ tensors, tensor < marks.length) :
    ∃ after, markAll? marks tensors = some after ∧ after.length = marks.length ∧
      ∀ other : Nat, after[other]? = some true ↔ other ∈ tensors ∨ marks[other]? = some true := by
  induction tensors generalizing marks with
  | nil => exact ⟨marks, rfl, rfl, by simp⟩
  | cons first others ih =>
      obtain ⟨bound, othersInside⟩ := List.forall_mem_cons.mp inside
      obtain ⟨after, marked, count, isMarked⟩ :=
        @ih (marks.set first true) (by simpa using othersInside)
      refine ⟨after, ?_, count.trans List.length_set, fun other => ?_⟩
      · rw [markAll?, List.foldlM_cons, Guarded.put?, if_pos bound]
        exact marked
      · rw [isMarked, getElem?_mark_iff bound, List.mem_cons]
        tauto

theorem pushUnmarked?_eq {marks : List Bool} {inputs : List Nat}
    (inside : ∀ tensor ∈ inputs, tensor < marks.length) (stack : List Nat) :
    inputs.foldlM (pushUnmarked? marks) stack =
      some ((inputs.filter fun tensor => !marks[tensor]?.getD false).reverse ++ stack) := by
  induction inputs generalizing stack with
  | nil => rfl
  | cons first others ih =>
      obtain ⟨bound, othersInside⟩ := List.forall_mem_cons.mp inside
      have known := List.getElem?_eq_getElem bound
      rw [List.foldlM_cons, pushUnmarked?, known]
      cases isMarked : marks[first] with
      | true => simp [known, isMarked, ih othersInside]
      | false => simp [known, isMarked, ih othersInside]

theorem mem_pushed_iff {marks : List Bool} {inputs : List Nat} {other : Nat} :
    other ∈ (inputs.filter fun input => !marks[input]?.getD false).reverse ++ rest ↔
      (other ∈ inputs ∧ marks[other]? ≠ some true) ∨ other ∈ rest := by
  rw [List.mem_append, List.mem_reverse, List.mem_filter, Bool.not_eq_true', ← Bool.not_eq_true,
    getD_mark_iff]

/-- An operation that is entered gives back what its inputs cost. -/
theorem Sound.exists_enter (sound : Sound graph wanted search) (wellFormed : graph.WellFormed)
    (top : search.stack = tensor :: rest) (bound : tensor < graph.tensors.length)
    {producer : Nat} (produced : graph.producer? tensor = some producer)
    (unentered : search.operations[producer]? = some false) :
    ∃ next, enter? graph ⟨rest, search.tensors.set tensor true, search.operations⟩ producer =
        some next ∧ Sound graph wanted next ∧ next.owed graph < search.owed graph := by
  obtain ⟨node, found, written⟩ := wellFormed.producer?_eq_some_iff.mp produced
  have member := List.mem_of_getElem? found
  have entryBound := (List.getElem?_eq_some_iff.mp unentered).1
  rw [← sound.tensorCount] at bound
  have operandBound : ∀ other, other ∈ node.inputs ∨ other ∈ node.outputs →
      other < search.tensors.length := fun other uses => by
    rw [sound.tensorCount]
    exact wellFormed.lt_of_operand member uses
  obtain ⟨marks, marked, count, isMarked⟩ :=
    @exists_markAll? (search.tensors.set tensor true) node.outputs fun other isOutput => by
      rw [List.length_set]
      exact operandBound other (Or.inr isOutput)
  rw [List.length_set] at count
  have isMarkedAtAll : ∀ other : Nat, marks[other]? = some true ↔
      other ∈ node.outputs ∨ search.tensors[other]? = some true := by
    intro other
    rw [isMarked, getElem?_mark_iff bound]
    constructor
    · rintro (isOutput | rfl | before)
      · exact Or.inl isOutput
      · exact Or.inl written
      · exact Or.inr before
    · exact Or.imp_right Or.inr
  have pushed := @pushUnmarked?_eq marks node.inputs (fun other isInput => by
    rw [count]
    exact operandBound other (Or.inl isInput)) rest
  refine ⟨_, ?_, sound.enter wellFormed top produced found count isMarkedAtAll
    fun other => mem_pushed_iff, ?_⟩
  · rw [enter?]
    simp only [unentered, found, marked, pushed, Guarded.put?, if_pos entryBound,
      Option.bind_eq_bind, Option.bind_some, Bool.false_eq_true, if_false]
    rfl
  · have paid : unmarkedTotal (fun node : OperationNode => node.inputs.length) graph.operations
        (search.operations.set producer true) + node.inputs.length = _ :=
      unmarkedTotal_mark found unentered
    have few := List.length_filter_le (fun input => !marks[input]?.getD false) node.inputs
    simp only [owed, top, List.length_append, List.length_reverse, List.length_cons]
    omega

section Turn

variable {node : TensorNode}

theorem turn?_of_unproduced (known : search.tensors[tensor]? = some false)
    (found : graph.tensors[tensor]? = some node) (unproduced : node.producer = none) :
    search.turn? graph tensor rest =
      some ⟨rest, search.tensors.set tensor true, search.operations⟩ := by
  have marked : Guarded.put? search.tensors tensor true = some (search.tensors.set tensor true) :=
    if_pos (List.getElem?_eq_some_iff.mp known).1
  simp [turn?, known, marked, found, unproduced]

theorem turn?_of_produced (known : search.tensors[tensor]? = some false)
    (found : graph.tensors[tensor]? = some node) {producer : Nat}
    (produced : node.producer = some producer) :
    search.turn? graph tensor rest =
      enter? graph ⟨rest, search.tensors.set tensor true, search.operations⟩ producer := by
  have marked : Guarded.put? search.tensors tensor true = some (search.tensors.set tensor true) :=
    if_pos (List.getElem?_eq_some_iff.mp known).1
  simp [turn?, known, marked, found, produced]

end Turn

theorem Sound.turn (sound : Sound graph wanted search) (wellFormed : graph.WellFormed)
    (inside : ∀ tensor ∈ wanted, tensor < graph.tensors.length)
    (top : search.stack = tensor :: rest) :
    ∃ next, search.turn? graph tensor rest = some next ∧ Sound graph wanted next ∧
      next.owed graph < search.owed graph := by
  have bound := sound.lt_of_covered wellFormed inside (Or.inr (top ▸ List.mem_cons_self))
  have markBound : tensor < search.tensors.length := sound.tensorCount ▸ bound
  have known := List.getElem?_eq_getElem markBound
  have found := List.getElem?_eq_getElem bound
  have source : graph.producer? tensor = graph.tensors[tensor].producer := by
    rw [Graph.producer?, found]
    rfl
  have shorter : ∀ marks, owed graph ⟨rest, marks, search.operations⟩ < search.owed graph := by
    simp [owed, top]
  cases isMarked : search.tensors[tensor] with
  | true =>
      rw [isMarked] at known
      exact ⟨_, by rw [turn?, known]; rfl, sound.drop top known, shorter _⟩
  | false =>
      rw [isMarked] at known
      cases produced : graph.tensors[tensor].producer with
      | none =>
          exact ⟨_, turn?_of_unproduced known found produced,
            sound.mark top bound (by simp [source, produced]), shorter _⟩
      | some producer =>
          rw [produced] at source
          obtain ⟨writer, writerFound, _⟩ := wellFormed.producer?_eq_some_iff.mp source
          have entryBound : producer < search.operations.length :=
            sound.operationCount ▸ (List.getElem?_eq_some_iff.mp writerFound).1
          have entry := List.getElem?_eq_getElem entryBound
          rw [turn?_of_produced known found produced]
          cases isEntered : search.operations[producer] with
          | true =>
              rw [isEntered] at entry
              exact ⟨_, by rw [enter?, entry]; rfl, sound.mark top bound (by simp [source, entry]),
                shorter _⟩
          | false =>
              rw [isEntered] at entry
              exact sound.exists_enter wellFormed top bound source entry

end Turns

theorem Sound.run (sound : Sound graph wanted search) (wellFormed : graph.WellFormed)
    (inside : ∀ tensor ∈ wanted, tensor < graph.tensors.length) {turns : Nat}
    (enough : search.owed graph ≤ turns) :
    ∃ last, run? graph turns search = some last ∧ Sound graph wanted last ∧ last.stack = [] := by
  induction turns generalizing search with
  | zero =>
      have empty : search.stack = [] :=
        List.eq_nil_of_length_eq_zero (by rw [owed] at enough; omega)
      exact ⟨search, by rw [run?.eq_def, empty], sound, empty⟩
  | succ turns ih =>
      cases top : search.stack with
      | nil => exact ⟨search, by rw [run?.eq_def, top], sound, top⟩
      | cons tensor rest =>
          obtain ⟨next, turned, nextSound, paid⟩ := sound.turn wellFormed inside top
          obtain ⟨last, ran, lastSound, empty⟩ := ih nextSound (by omega)
          refine ⟨last, ?_, lastSound, empty⟩
          rw [run?.eq_def, top]
          dsimp only
          rw [turned]
          exact ran

section Finished

theorem Sound.operations_eq (sound : Sound graph wanted search) (wellFormed : graph.WellFormed)
    (empty : search.stack = []) : search.operations = graph.neededOperations wanted := by
  have isMarked : ∀ tensor, search.Covered tensor → search.tensors[tensor]? = some true :=
    fun tensor covered => covered.resolve_right (by simp [empty])
  refine marks_ext (sound.operationCount.trans (graph.length_neededOperations wanted).symm)
    fun position => ?_
  rw [← @getD_mark_iff (graph.neededOperations wanted), wellFormed.needed_iff_leadsTo]
  refine ⟨sound.leads position, ?_⟩
  rintro ⟨last, node, flow, found, tensor, written, isWanted⟩
  induction flow using Relation.ReflTransGen.head_induction_on with
  | refl =>
      exact sound.producers tensor last (isMarked tensor (sound.wantedCovered tensor isWanted))
        (wellFormed.producer?_eq_some_iff.mpr ⟨node, found, written⟩)
  | head feeds _ entered =>
      obtain ⟨reader, readerFound, input, isInput, produced⟩ := feeds
      exact sound.producers input _
        (isMarked input (sound.inputs _ reader readerFound entered input isInput)) produced

theorem Sound.tensors_eq (sound : Sound graph wanted search) (wellFormed : graph.WellFormed)
    (inside : ∀ tensor ∈ wanted, tensor < graph.tensors.length) (empty : search.stack = []) :
    search.tensors =
      (List.range graph.tensors.length).map (graph.isTouched wanted search.operations) := by
  refine marks_ext (by simp [sound.tensorCount]) fun tensor => ?_
  have isMarked : ∀ other, search.Covered other → search.tensors[other]? = some true :=
    fun other covered => covered.resolve_right (by simp [empty])
  have touched : graph.isTouched wanted search.operations tensor = true ↔
      search.tensors[tensor]? = some true := by
    refine ⟨fun isTouched => ?_, fun known => sound.touched tensor (Or.inl known)⟩
    rcases Graph.isTouched_iff.mp isTouched with
      isWanted | ⟨position, node, found, entered, isInput | isOutput⟩
    · exact isMarked tensor (sound.wantedCovered tensor isWanted)
    · exact isMarked tensor (sound.inputs position node found entered tensor isInput)
    · exact sound.outputs position node found entered tensor isOutput
  rw [← touched, List.getElem?_map]
  by_cases bound : tensor < graph.tensors.length
  · rw [List.getElem?_range bound, Option.map_some, Option.some.injEq]
  · rw [List.getElem?_eq_none (by simpa using bound), Option.map_none]
    refine iff_of_false (fun isTouched => bound ?_) (by simp)
    exact sound.lt_of_covered wellFormed inside (Or.inl (touched.mp isTouched))

end Finished

theorem sound_start (graph : Graph) (wanted : List Nat) :
    Sound graph wanted (start graph wanted.reverse) := by
  have unmarked := getElem?_unmarked graph.tensors
  have unentered := getElem?_unmarked graph.operations
  exact {
    tensorCount := List.length_map _
    operationCount := List.length_map _
    leads := fun position known => absurd known (unentered position)
    touched := by
      rintro tensor (known | waits)
      · exact absurd known (unmarked tensor)
      · exact Graph.isTouched_iff.mpr (Or.inl (List.mem_reverse.mp waits))
    wantedCovered := fun tensor isWanted => Or.inr (List.mem_reverse.mpr isWanted)
    inputs := fun position _ _ known => absurd known (unentered position)
    outputs := fun position _ _ known => absurd known (unentered position)
    producers := fun tensor _ known => absurd known (unmarked tensor) }

theorem pushWanted_eq (graph : Graph) (stack wanted : List Nat) :
    pushWanted graph stack wanted =
      match graph.firstOutside wanted with
      | some index => .error (.tensorIndexOutOfBounds index graph.tensors.length)
      | none => .ok (wanted.reverse ++ stack) := by
  induction wanted generalizing stack with
  | nil => rfl
  | cons tensor rest ih =>
      rw [pushWanted, Graph.firstOutside, List.find?_cons]
      by_cases bound : tensor < graph.tensors.length
      · simp only [bound, if_true, Nat.not_le.mpr bound, decide_false, ih, Graph.firstOutside,
          List.reverse_cons, List.append_assoc, List.singleton_append]
      · simp only [bound, if_false, Nat.not_lt.mp bound, decide_true]

/-- Markers are entered in place. Each reads marks behind itself only, which are entered later. -/
theorem markHeaders?_eq {marked before : List Bool} {slots : List Slot}
    (count : before.length + slots.length = marked.length)
    (fits : ∀ (place members : Nat) (pinned : Bool),
      slots[place]? = some (.header members pinned) →
        before.length + place + 1 + members ≤ marked.length) :
    markHeaders? before.length slots (before ++ marked.drop before.length) =
      some (before ++ (slots.zipIdx before.length).map fun entry =>
        Graph.markOf marked entry.2 entry.1) := by
  induction slots generalizing before with
  | nil => simp [markHeaders?, ← count]
  | cons slot rest ih =>
      rw [List.length_cons] at count
      have here : before.length < marked.length := by omega
      have current : marked.drop before.length =
          marked[before.length] :: marked.drop (before.length + 1) := List.drop_eq_getElem_cons here
      have next : before.length + 1 =
          (before ++ [Graph.markOf marked before.length slot]).length := by simp
      have onward := @ih (before ++ [Graph.markOf marked before.length slot])
        (by rw [← next]; omega) fun place members pinned isHeader => by
          have bound := fits (place + 1) members pinned isHeader
          rw [← next]
          omega
      rw [← next, List.append_assoc, List.append_assoc, List.singleton_append,
        List.singleton_append] at onward
      rw [List.zipIdx_cons, List.map_cons, ← onward, current]
      cases slot with
      | free rank =>
          simp only [markHeaders?, Graph.markOf, List.getElem?_eq_getElem here, Option.getD_some]
      | member header pinned =>
          simp only [markHeaders?, Graph.markOf, List.getElem?_eq_getElem here, Option.getD_some]
      | header members pinned =>
          have room := fits 0 members pinned rfl
          have membersWithin : members ≤ (marked.drop (before.length + 1)).length := by
            rw [List.length_drop]
            omega
          rw [markHeaders?, Guarded.cut?_behind]
          simp only [Option.bind_eq_bind, Option.bind_some]
          rw [Guarded.cut?, if_pos membersWithin]
          simp only [Option.bind_some]
          rw [Guarded.put?_behind]
          rfl

theorem owed_start (graph : Graph) (wanted : List Nat) :
    (start graph wanted.reverse).owed graph = turnLimit graph wanted := by
  rw [owed, start, unmarkedTotal_start, List.length_reverse, turnLimit]

end BackwardSearch

namespace Graph

variable {graph : Graph} {wanted : List Nat}

namespace WellFormed

theorem header_within (wellFormed : graph.WellFormed) {header members : Nat} {pinned : Bool}
    (isHeader : graph.slots[header]? = some (.header members pinned)) :
    header + 1 + members ≤ graph.operations.length := by
  have bound := (List.getElem?_eq_some_iff.mp isHeader).1
  rw [wellFormed.slotCount] at bound
  have found := List.getElem?_eq_getElem bound
  have listed : graph.operationList[header]? = some graph.operations[header].operation :=
    operationList_getElem?.mpr ⟨_, found, rfl⟩
  cases isGroup : graph.operations[header].operation.isGroup with
  | false =>
      rcases wellFormed.slot_of_plain found isGroup with ⟨_, isFree⟩ | ⟨_, _, isMember⟩
      · cases isHeader.symm.trans isFree
      · cases isHeader.symm.trans isMember
  | true =>
      obtain ⟨isMarker, memberSlots⟩ := wellFormed.headerSlots header _ listed isGroup
      cases isHeader.symm.trans isMarker
      cases count : graph.operations[header].operation.inputs.length with
      | zero => omega
      | succ last =>
          have lastSlot := memberSlots last (by omega)
          have lastBound := (List.getElem?_eq_some_iff.mp lastSlot).1
          rw [wellFormed.slotCount] at lastBound
          omega

theorem markHeaders?_eq (wellFormed : graph.WellFormed) {marked : List Bool}
    (count : marked.length = graph.operations.length) :
    BackwardSearch.markHeaders? 0 graph.slots marked = some (markGroups graph.slots marked) :=
  @BackwardSearch.markHeaders?_eq marked [] graph.slots
    (by rw [List.length_nil, Nat.zero_add, wellFormed.slotCount, count])
    fun place members pinned isHeader => by
      have within := wellFormed.header_within isHeader
      rw [List.length_nil, count]
      omega

theorem search_agrees (wellFormed : graph.WellFormed) (wanted : List Nat) :
    Guarded.Agrees (BackwardSearch.search graph wanted) (graph.reachability wanted) := by
  rw [BackwardSearch.search, reachability, BackwardSearch.pushWanted_eq]
  cases outside : graph.firstOutside wanted with
  | some index => exact .of_failed (.of_plain _) _
  | none =>
      have inside : ∀ tensor ∈ wanted, tensor < graph.tensors.length := fun tensor isWanted => by
        simpa using List.find?_eq_none.mp outside tensor isWanted
      obtain ⟨last, ran, sound, empty⟩ := (BackwardSearch.sound_start graph wanted).run wellFormed
        inside (Nat.le_of_eq (BackwardSearch.owed_start graph wanted))
      have headers := wellFormed.markHeaders?_eq sound.operationCount
      have tensors := sound.tensors_eq wellFormed inside empty
      rw [sound.operations_eq wellFormed empty] at headers tensors
      rw [List.append_nil]
      refine .plain_bind (.access_bind ran ?_)
      rw [tensors, sound.operations_eq wellFormed empty]
      exact .access_bind headers (.of_plain _)

end WellFormed

theorem reachability_exact (obtained : graph.Obtained) (wanted : List Nat) :
    Guarded.Agrees (BackwardSearch.search graph wanted) (graph.reachability wanted) ∧
    ((∀ tensor ∈ wanted, tensor < graph.tensors.length) →
      ∃ marks, graph.reachability wanted = .ok marks ∧ marks.Exact graph wanted) ∧
    ∀ before index behind, wanted = before ++ index :: behind →
      (∀ tensor ∈ before, tensor < graph.tensors.length) → graph.tensors.length ≤ index →
      graph.reachability wanted = .error (.tensorIndexOutOfBounds index graph.tensors.length) := by
  obtain ⟨_, _, _, built⟩ := obtained.exists_build
  have wellFormed := wellFormed_of_build built
  refine ⟨wellFormed.search_agrees wanted, fun inside => ?_, ?_⟩
  · exact ⟨_, reachability_ok_iff.mpr ⟨inside, rfl⟩, wellFormed.exact_marks inside⟩
  · rintro before index behind rfl inside outside
    exact reachability_of_outside inside outside

theorem reachability_exact_fork :
    ∃ graph marks, build relayTensors forkOperations ⟨8, 8⟩ = .ok graph ∧
      (∀ tensor ∈ [3], tensor < graph.tensors.length) ∧
      graph.reachability [3] = .ok marks ∧ marks.tensors = [true, true, true, true, false] ∧
      marks.operations = [true, false, true, false] ∧
      Guarded.Agrees (BackwardSearch.search graph [3]) (.ok marks) ∧ marks.Exact graph [3] ∧
      graph.reachability [3, 6, 5] = .error (.tensorIndexOutOfBounds 6 5) := by
  have built := @Obtained.built relayTensors forkOperations ⟨8, 8⟩ _ rfl
  obtain ⟨searched, inRange, _⟩ := reachability_exact built [3]
  obtain ⟨_, _, outOfRange⟩ := reachability_exact built [3, 6, 5]
  obtain ⟨marks, reached, exact⟩ := inRange (by decide)
  cases reached
  exact ⟨_, _, rfl, by decide, rfl, rfl, rfl, searched, exact,
    outOfRange [3] 6 [5] rfl (by decide) (by decide)⟩

end Graph

end TensorGraph
