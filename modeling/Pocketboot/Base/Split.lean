import Pocketboot.Base.Bytes

/-!
# Byte strings cut at a byte

The pieces between the separators of a byte string have no separator in them,
and pieces without one are found again between those put after each.
-/

namespace Pocketboot.Bytes

variable {separator : UInt8}

theorem notMem_splitOn {data piece : Bytes}
    (member : piece ∈ data.splitOn separator) : separator ∉ piece := by
  induction data generalizing piece with
  | nil =>
      obtain rfl := List.mem_singleton.mp member
      exact List.not_mem_nil
  | cons byte data induction =>
      rw [List.splitOn_cons_eq_if_modifyHead] at member
      split at member
      · rcases List.mem_cons.mp member with rfl | later
        · exact List.not_mem_nil
        · exact induction later
      · rename_i other
        obtain ⟨first, rest, pieces⟩ := List.exists_cons_of_ne_nil
          (List.splitOn_ne_nil separator data)
        rw [pieces, List.modifyHead_cons, List.mem_cons] at member
        rw [pieces] at induction
        rcases member with rfl | later
        · rw [List.mem_cons, not_or]
          exact ⟨fun same => other (by simp [same]),
            induction List.mem_cons_self⟩
        · exact induction (List.mem_cons_of_mem _ later)

/-- Pieces that each end in a separator, without the last one, are the pieces
between separators. -/
theorem terminated_eq {pieces : List Bytes} (nonempty : pieces ≠ []) :
    pieces.flatMap (· ++ [separator]) =
      [separator].intercalate pieces ++ [separator] := by
  induction pieces with
  | nil => exact absurd rfl nonempty
  | cons piece pieces induction =>
      cases pieces with
      | nil => simp
      | cons next pieces =>
          rw [List.flatMap_cons, induction (List.cons_ne_nil _ _),
            List.intercalate_cons_cons]
          simp

theorem splitOn_terminated {pieces : List Bytes} (nonempty : pieces ≠ [])
    (absent : ∀ piece ∈ pieces, separator ∉ piece) :
    (pieces.flatMap (· ++ [separator])).dropLast.splitOn separator =
      pieces := by
  rw [terminated_eq nonempty, List.dropLast_concat]
  exact List.splitOn_intercalate separator absent nonempty

end Pocketboot.Bytes
