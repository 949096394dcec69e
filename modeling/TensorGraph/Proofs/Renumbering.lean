import TensorGraph.Proofs.Ranking

/-!
Rankings do not depend on how nodes are numbered. If each node has an image in another relation, and
the image lists the images of what the node lists, then both are ranked alike.
-/

namespace TensorGraph

namespace Sources

/-- A node and an image that it stands for list, entry by entry, nothing or sources that stand for
each other. -/
def Mirrors (stands : Nat → Nat → Prop) (sources others : Sources) : Prop :=
  ∀ node image, stands node image → ∃ entries images, sources[node]? = some entries ∧
    others[image]? = some images ∧ List.Forall₂ (Option.Rel stands) entries images

end Sources

namespace Rankings

variable {stands : Nat → Nat → Prop}

theorem ofNode?_eq_of_alike {known others : Rankings}
    (alike : ∀ node image, stands node image → known.get? node = others.get? image)
    {entries images : List (Option Nat)}
    (mirrored : List.Forall₂ (Option.Rel stands) entries images) :
    known.ofNode? entries = others.ofNode? images := by
  have source : ∀ entry image, Option.Rel stands entry image →
      known.source? entry = others.source? image := by
    intro entry image related
    cases related with
    | none => rfl
    | some stand => rw [source?, source?, alike _ _ stand]
  have lookups : entries.mapM known.source? = images.mapM others.source? := by
    induction mirrored with
    | nil => rfl
    | cons related _ ih => rw [List.mapM_cons, List.mapM_cons, source _ _ related, ih]
  rw [ofNode?, ofNode?, lookups]

theorem get?_advance {sources : Sources} {known : Rankings} {node : Nat}
    {entries : List (Option Nat)} (listed : sources[node]? = some entries) :
    (advance sources known).get? node = known.ofNode? entries := by
  simp [advance, get?, listed]

theorem get?_iterate_of_mirrors {sources others : Sources}
    (mirrors : sources.Mirrors stands others) (rounds : Nat) :
    ∀ node image, stands node image →
      ((advance sources)^[rounds] (sources.map fun _ => none)).get? node =
        ((advance others)^[rounds] (others.map fun _ => none)).get? image := by
  induction rounds with
  | zero =>
      intro node image stand
      obtain ⟨entries, images, listed, imageListed, _⟩ := mirrors node image stand
      simp only [Function.iterate_zero_apply, get?, List.getElem?_map, listed, imageListed,
        Option.map_some, Option.join_some]
  | succ rounds ih =>
      intro node image stand
      obtain ⟨entries, images, listed, imageListed, mirrored⟩ := mirrors node image stand
      rw [Function.iterate_succ_apply', Function.iterate_succ_apply', get?_advance listed,
        get?_advance imageListed]
      exact ofNode?_eq_of_alike ih mirrored

end Rankings

theorem rankings_eq_iterate {sources : Sources} {rounds : Nat}
    (enough : sources.length ≤ rounds) :
    rankings sources = (Rankings.advance sources)^[rounds] (sources.map fun _ => none) := by
  induction enough with
  | refl => exact Rankings.settle_eq_iterate sources sources.length _
  | step _ ih =>
      rw [Function.iterate_succ_apply', ← ih]
      exact (rankings_fixed sources).symm

theorem rankings_get?_of_mirrors {stands : Nat → Nat → Prop} {sources others : Sources}
    (mirrors : sources.Mirrors stands others) {node image : Nat} (stand : stands node image) :
    (rankings sources).get? node = (rankings others).get? image := by
  have enough := Nat.le_max_left sources.length others.length
  have enoughToo := Nat.le_max_right sources.length others.length
  rw [rankings_eq_iterate enough, rankings_eq_iterate enoughToo]
  exact Rankings.get?_iterate_of_mirrors mirrors _ node image stand

end TensorGraph
