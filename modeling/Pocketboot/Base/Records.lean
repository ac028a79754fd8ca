import Pocketboot.Base.Bytes

/-!
# Tables of records

Byte strings that are made of pieces of one length: a record for each entry of
a list, and copies of one piece.  A piece is found at the multiple of the length
that its number says.
-/

namespace Pocketboot

variable {α : Type} {record : α → Nat → Bytes} {stride width offset : Nat}
  {entries : List α} {entry : α}

/-- A record for each entry, whose offsets are a stride apart. -/
def records (record : α → Nat → Bytes) (stride : Nat) :
    List α → Nat → Bytes
  | [], _ => []
  | entry :: entries, offset =>
      record entry offset ++ records record stride entries (offset + stride)

theorem records_length
    (widths : ∀ entry offset, (record entry offset).length = width) :
    (records record stride entries offset).length =
      entries.length * width := by
  induction entries generalizing offset with
  | nil => simp [records]
  | cons entry entries induction =>
      rw [records, List.length_append, widths, induction, List.length_cons,
        Nat.succ_mul, Nat.add_comm]

theorem records_split
    (widths : ∀ entry offset, (record entry offset).length = width)
    {index : Nat} (found : entries[index]? = some entry) :
    ∃ front back, records record stride entries offset =
        front ++ (record entry (offset + index * stride) ++ back) ∧
      front.length = index * width := by
  induction entries generalizing index offset with
  | nil => simp at found
  | cons first entries induction =>
      cases index with
      | zero =>
          obtain rfl := Option.some.inj found
          refine ⟨[], records record stride entries (offset + stride), ?_, ?_⟩
          · simp [records]
          · simp
      | succ index =>
          obtain ⟨front, back, split, length⟩ :=
            @induction (offset + stride) index found
          refine ⟨record first offset ++ front, back, ?_, ?_⟩
          · rw [records, split, List.append_assoc, Nat.succ_mul,
              Nat.add_assoc offset, Nat.add_comm stride]
          · rw [List.length_append, widths, length, Nat.succ_mul, Nat.add_comm]

theorem copies_split {piece : Bytes} {copies index : Nat}
    (inside : index < copies) :
    ∃ front back, (List.replicate copies piece).flatten =
        front ++ (piece ++ back) ∧ front.length = index * piece.length := by
  have parts : copies = index + (1 + (copies - index - 1)) := by omega
  rw [parts, List.replicate_add, List.replicate_add, List.flatten_append,
    List.flatten_append]
  refine ⟨(List.replicate index piece).flatten,
    (List.replicate (copies - index - 1) piece).flatten, by simp, by simp⟩

end Pocketboot
