import Mathlib

/-!
# Disjoint intervals

Half-open intervals that are not empty, in the order of their starts, are
pairwise disjoint exactly when no neighbours overlap.
-/

namespace Pocketboot.Sorting

variable {ι α : Type} [LinearOrder α] {start stop : ι → α} {items : List ι}

theorem disjoint_of_le {first second third fourth : α}
    (before : second ≤ third) :
    Disjoint (Set.Ico first second) (Set.Ico third fourth) :=
  Set.Ico_disjoint_Ico.mpr
    ((min_le_left _ _).trans (before.trans (le_max_right _ _)))

/-- An interval that starts no earlier and is disjoint starts at the end. -/
theorem le_of_disjoint {first second third fourth : α} (sorted : first ≤ third)
    (filled : third < fourth)
    (apart : Disjoint (Set.Ico first second) (Set.Ico third fourth)) :
    second ≤ third := by
  have ends := Set.Ico_disjoint_Ico.mp apart
  rw [max_eq_right sorted] at ends
  rcases min_le_iff.mp ends with before | absurd'
  · exact before
  · exact absurd absurd' (not_le.mpr filled)

theorem isChain_iff_pairwise_disjoint
    (filled : ∀ item ∈ items, start item < stop item)
    (sorted : items.Pairwise fun left right => start left ≤ start right) :
    items.IsChain (fun left right => stop left ≤ start right) ↔
      items.Pairwise fun left right =>
        Disjoint (Set.Ico (start left) (stop left))
          (Set.Ico (start right) (stop right)) := by
  induction items with
  | nil => simp
  | cons first rest induction =>
      obtain ⟨-, filledRest⟩ := List.forall_mem_cons.mp filled
      obtain ⟨firstSorted, restSorted⟩ := List.pairwise_cons.mp sorted
      have later := induction filledRest restSorted
      rw [List.pairwise_cons, ← later]
      cases rest with
      | nil => simp
      | cons second rest =>
          rw [List.isChain_cons_cons]
          obtain ⟨secondSorted, -⟩ := List.pairwise_cons.mp restSorted
          refine and_congr_left fun _ => ⟨fun before other member => ?_,
            fun apart => ?_⟩
          · refine disjoint_of_le (before.trans ?_)
            rcases List.mem_cons.mp member with rfl | member
            · exact le_rfl
            · exact secondSorted other member
          · exact le_of_disjoint (firstSorted second List.mem_cons_self)
              (filledRest second List.mem_cons_self)
              (apart second List.mem_cons_self)

/-- In smaller units the intervals are still disjoint. -/
theorem disjoint_scaled {first second third fourth : Nat}
    (apart : Disjoint (Set.Ico first second) (Set.Ico third fourth))
    (unit : Nat) :
    Disjoint (Set.Ico (first * unit) (second * unit))
      (Set.Ico (third * unit) (fourth * unit)) := by
  rw [Set.Ico_disjoint_Ico] at apart ⊢
  rw [Nat.mul_min_mul_right, Nat.mul_max_mul_right]
  exact Nat.mul_le_mul_right unit apart

end Pocketboot.Sorting
