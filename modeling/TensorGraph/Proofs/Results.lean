import Mathlib.Data.List.Forall2
import Mathlib.Data.List.Induction

/-!
Success and failure of computations that may fail: of one after the other, and of one for each item.
-/

namespace TensorGraph

variable {α β ε : Type}

theorem bind_eq_ok_iff {first : Except ε α} {next : α → Except ε β} {result : β} :
    (first >>= next) = .ok result ↔ ∃ value, first = .ok value ∧ next value = .ok result := by
  cases first with
  | error failure => simp [bind, Except.bind]
  | ok value => simp [bind, Except.bind]

theorem seq_eq_ok_iff {first : Except ε Unit} {next : Unit → Except ε β} {result : β} :
    (first >>= next) = .ok result ↔ first = .ok () ∧ next () = .ok result := by
  rw [bind_eq_ok_iff]
  exact ⟨fun ⟨_, done, rest⟩ => ⟨done, rest⟩, fun ⟨done, rest⟩ => ⟨(), done, rest⟩⟩

theorem bind_eq_error_iff {first : Except ε α} {next : α → Except ε β} {failure : ε} :
    (first >>= next) = .error failure ↔
      first = .error failure ∨ ∃ value, first = .ok value ∧ next value = .error failure := by
  cases first with
  | error other => simp [bind, Except.bind]
  | ok value => simp [bind, Except.bind]

theorem discard_eq_error_iff {result : Except ε α} {failure : ε} :
    (result.map fun _ => ()) = .error failure ↔ result = .error failure := by
  cases result with
  | error other => simp [Except.map]
  | ok value => simp [Except.map]

theorem discard_eq_ok_iff {result : Except ε α} :
    (result.map fun _ => ()) = .ok () ↔ ∃ value, result = .ok value := by
  cases result with
  | error failure => simp [Except.map]
  | ok value => simp [Except.map]

theorem mapM_eq_some_iff {function : α → Option β} {items : List α} {results : List β} :
    items.mapM function = some results ↔
      List.Forall₂ (fun item result => function item = some result) items results := by
  induction items generalizing results with
  | nil => simp [eq_comm]
  | cons item items ih =>
      simp only [List.mapM_cons, Option.bind_eq_bind, Option.bind_eq_some_iff, ih,
        List.forall₂_cons_left_iff]
      constructor
      · rintro ⟨result, found, rest, others, same⟩
        exact ⟨result, rest, found, others, by simpa using same.symm⟩
      · rintro ⟨result, rest, found, others, same⟩
        exact ⟨result, found, rest, others, by simp [same]⟩

theorem mapM_id_eq_some_iff {items : List (Option α)} {results : List α} :
    items.mapM id = some results ↔ items = results.map some := by
  rw [mapM_eq_some_iff, ← List.forall₂_eq_eq_eq, List.forall₂_map_right_iff]
  rfl

theorem mapM_eq_some {guarded : α → Option β} {function : α → β} {items : List α}
    (agree : ∀ item ∈ items, guarded item = some (function item)) :
    items.mapM guarded = some (items.map function) := by
  rw [mapM_eq_some_iff, List.forall₂_map_right_iff, List.forall₂_same]
  exact agree

theorem foldlM_eq_some {σ : Type} {guarded : σ → α → Option σ} {step : σ → α → σ}
    {items : List α} (agree : ∀ item ∈ items, ∀ state, guarded state item = some (step state item))
    (start : σ) : items.foldlM guarded start = some (items.foldl step start) := by
  induction items generalizing start with
  | nil => rfl
  | cons item rest ih =>
      rw [List.foldlM_cons, agree item (by simp)]
      exact ih (fun later member => agree later (List.mem_cons_of_mem _ member)) _

theorem exists_foldlM_of_total {σ : Type} {step : σ → α → Option σ}
    (total : ∀ state item, ∃ next, step state item = some next) (items : List α) (start : σ) :
    ∃ result, items.foldlM step start = some result := by
  induction items generalizing start with
  | nil => exact ⟨start, rfl⟩
  | cons item rest ih =>
      obtain ⟨next, stepped⟩ := total start item
      rw [List.foldlM_cons, stepped]
      exact ih next

theorem mapM_eq_ok_iff {function : α → Except ε β} {items : List α} {results : List β} :
    items.mapM function = .ok results ↔
      List.Forall₂ (fun item result => function item = .ok result) items results := by
  induction items generalizing results with
  | nil => simp [pure, Except.pure, eq_comm]
  | cons item items ih =>
      simp only [List.mapM_cons, bind_eq_ok_iff, ih, List.forall₂_cons_left_iff]
      constructor
      · rintro ⟨result, found, rest, others, same⟩
        exact ⟨result, rest, found, others, by simpa [pure, Except.pure] using same.symm⟩
      · rintro ⟨result, rest, found, others, same⟩
        exact ⟨result, found, rest, others, by simp [same, pure, Except.pure]⟩

theorem exists_of_mapM_error {function : α → Except ε β} {items : List α} {failure : ε}
    (failed : items.mapM function = .error failure) :
    ∃ item ∈ items, function item = .error failure := by
  induction items with
  | nil => cases failed
  | cons item items ih =>
      rw [List.mapM_cons, bind_eq_error_iff] at failed
      rcases failed with here | ⟨_, _, later⟩
      · exact ⟨item, List.mem_cons_self, here⟩
      · rcases bind_eq_error_iff.mp later with rest | ⟨_, _, wrong⟩
        · obtain ⟨other, listed, failedThere⟩ := ih rest
          exact ⟨other, List.mem_cons_of_mem _ listed, failedThere⟩
        · cases wrong

theorem mapM_ne_error {function : α → Except ε β} {items : List α} {failure : ε}
    (total : ∀ item ∈ items, ∃ result, function item = .ok result) :
    items.mapM function ≠ .error failure := by
  intro failed
  obtain ⟨item, listed, failedThere⟩ := exists_of_mapM_error failed
  obtain ⟨result, done⟩ := total item listed
  rw [done] at failedThere
  cases failedThere

/-- What every step keeps, said of the items passed so far, holds when all items are passed. -/
theorem foldlM_induction {σ : Type} {step : σ → α → Except ε σ} {motive : List α → σ → Prop}
    {items : List α} {start result : σ}
    (extend : ∀ seen item rest state next, items = seen ++ item :: rest → motive seen state →
      step state item = .ok next → motive (seen ++ [item]) next)
    (holds : motive [] start) (done : items.foldlM step start = .ok result) :
    motive items result := by
  have reached : ∀ seen rest state, items = seen ++ rest → seen.foldlM step start = .ok state →
      motive seen state := by
    intro seen
    induction seen using List.reverseRecOn with
    | nil =>
        intro _ _ _ same
        cases same
        exact holds
    | append_singleton seen item ih =>
        intro rest next split done
        rw [List.foldlM_append, bind_eq_ok_iff] at done
        obtain ⟨state, before, last⟩ := done
        rw [List.foldlM_cons, bind_eq_ok_iff] at last
        obtain ⟨_, stepped, same⟩ := last
        cases same
        rw [List.append_assoc, List.singleton_append] at split
        exact extend seen item rest state next split (ih (item :: rest) state split before) stepped
  exact reached items [] result (List.append_nil items).symm done

theorem exists_foldlM {σ : Type} {step : σ → α → Except ε σ} {motive : List α → σ → Prop}
    {items : List α} {start : σ}
    (proceed : ∀ seen item rest state, items = seen ++ item :: rest → motive seen state →
      ∃ next, step state item = .ok next ∧ motive (seen ++ [item]) next)
    (holds : motive [] start) :
    ∃ result, items.foldlM step start = .ok result ∧ motive items result := by
  have reached : ∀ seen rest, items = seen ++ rest →
      ∃ state, seen.foldlM step start = .ok state ∧ motive seen state := by
    intro seen
    induction seen using List.reverseRecOn with
    | nil => exact fun _ _ => ⟨start, rfl, holds⟩
    | append_singleton seen item ih =>
        intro rest split
        rw [List.append_assoc, List.singleton_append] at split
        obtain ⟨state, before, kept⟩ := ih (item :: rest) split
        obtain ⟨next, stepped, extended⟩ := proceed seen item rest state split kept
        refine ⟨next, ?_, extended⟩
        rw [List.foldlM_append, bind_eq_ok_iff]
        refine ⟨state, before, ?_⟩
        rw [List.foldlM_cons, bind_eq_ok_iff]
        exact ⟨next, stepped, rfl⟩
  exact reached items [] (List.append_nil items).symm

/-- A run that fails does so at one of its steps, with all steps before it done. -/
theorem exists_of_foldlM_error {σ : Type} {step : σ → α → Except ε σ} {motive : List α → σ → Prop}
    {items : List α} {start : σ} {failure : ε}
    (extend : ∀ seen item rest state next, items = seen ++ item :: rest → motive seen state →
      step state item = .ok next → motive (seen ++ [item]) next)
    (holds : motive [] start) (failed : items.foldlM step start = .error failure) :
    ∃ seen item rest state, items = seen ++ item :: rest ∧ motive seen state ∧
      step state item = .error failure := by
  have reached : ∀ rest seen state, items = seen ++ rest → motive seen state →
      rest.foldlM step state = .error failure → ∃ seen item rest state,
        items = seen ++ item :: rest ∧ motive seen state ∧ step state item = .error failure := by
    intro rest
    induction rest with
    | nil => exact fun _ _ _ _ wrong => nomatch wrong
    | cons item rest ih =>
        intro seen state split kept failed
        rw [List.foldlM_cons, bind_eq_error_iff] at failed
        rcases failed with here | ⟨next, stepped, later⟩
        · exact ⟨seen, item, rest, state, split, kept, here⟩
        · exact ih (seen ++ [item]) next (by simp [split])
            (extend seen item rest state next split kept stepped) later
  exact reached items [] start rfl holds failed

theorem eq_of_getElem?_snoc {items : List α} {last item : α} {position : Nat}
    (found : (items ++ [last])[position]? = some item) :
    items[position]? = some item ∨ position = items.length ∧ item = last := by
  by_cases before : position < items.length
  · rw [List.getElem?_append_left before] at found
    exact Or.inl found
  · have bound := (List.getElem?_eq_some_iff.mp found).1
    rw [List.length_append, List.length_singleton] at bound
    have atEnd : position = items.length := by omega
    subst atEnd
    rw [List.getElem?_concat_length] at found
    exact Or.inr ⟨rfl, (Option.some.inj found).symm⟩

theorem exists_of_forall₂ {relation : α → β → Prop} {items : List α} {results : List β}
    (related : List.Forall₂ relation items results) {item : α} (member : item ∈ items) :
    ∃ result ∈ results, relation item result := by
  induction related with
  | nil => simp at member
  | cons first _ ih =>
      rcases List.mem_cons.mp member with same | later
      · subst same
        exact ⟨_, by simp, first⟩
      · obtain ⟨result, present, holds⟩ := ih later
        exact ⟨result, List.mem_cons_of_mem _ present, holds⟩

theorem exists_forall₂ {relation : α → β → Prop} {items : List α}
    (related : ∀ item ∈ items, ∃ result, relation item result) :
    ∃ results, List.Forall₂ relation items results := by
  induction items with
  | nil => exact ⟨[], .nil⟩
  | cons item rest ih =>
      obtain ⟨first, others⟩ := List.forall_mem_cons.mp related
      obtain ⟨result, here⟩ := first
      obtain ⟨results, behind⟩ := ih others
      exact ⟨result :: results, .cons here behind⟩

theorem getElem?_of_forall₂ {relation : α → β → Prop} {items : List α} {results : List β}
    (related : List.Forall₂ relation items results) {position : Nat} {item : α}
    (found : items[position]? = some item) :
    ∃ result, results[position]? = some result ∧ relation item result := by
  induction related generalizing position with
  | nil => simp at found
  | @cons first second _ _ holds _ ih =>
      cases position with
      | zero =>
          cases found
          exact ⟨second, rfl, holds⟩
      | succ position => exact ih found

theorem forall₂_join {γ : Type} {left : α → γ → Prop} {right : β → γ → Prop} {items : List α}
    {others : List β} {middle : List γ} (first : List.Forall₂ left items middle)
    (second : List.Forall₂ right others middle) :
    List.Forall₂ (fun item other => ∃ common ∈ middle, left item common ∧ right other common)
      items others := by
  induction first generalizing others with
  | nil =>
      cases second
      exact .nil
  | cons related _ ih =>
      cases second with
      | cons otherRelated rest =>
          refine .cons ⟨_, List.mem_cons_self, related, otherRelated⟩ ((ih rest).imp ?_)
          rintro item other ⟨common, member, both⟩
          exact ⟨common, List.mem_cons_of_mem _ member, both⟩

end TensorGraph
