import Pocketboot.AbSlots.Runs

/-!
# Entry tables as lists of records

A table is read as the list of its whole entry records.  A slot update replaces
one record by another of the same length, and a lookup by name finds the first
used record that carries the name.
-/

namespace Pocketboot.AbSlots

/-- The record of index `index`. -/
def recordAt (table : Bytes) (entrySize index : Nat) : Bytes :=
  Bytes.slice table (index * entrySize) (index * entrySize + entrySize)

/-- The record of index `index` lies in the table. -/
def HasRecord (table : Bytes) (entrySize index : Nat) : Prop :=
  index * entrySize + entrySize ≤ table.length

/-- The first used record with a name; the names before it are readable. -/
structure FirstNamed (records : List Bytes) (name : Name) (index : Nat) :
    Prop where
  record : ∃ record, records[index]? = some record ∧
    isUnusedEntry record = false ∧ partitionName record = .ok (some name)
  first : ∀ earlier < index, ∀ record, records[earlier]? = some record →
    isUnusedEntry record = true ∨
      ∃ other, partitionName record = .ok other ∧ other ≠ some name

/-- Two record lists with the same used records and the same names. -/
def SameNames : List Bytes → List Bytes → Prop :=
  List.Forall₂ fun left right =>
    isUnusedEntry left = isUnusedEntry right ∧
      partitionName left = partitionName right

theorem hasRecord_iff {table : Bytes} {entrySize index : Nat}
    (positive : 0 < entrySize) :
    HasRecord table entrySize index ↔ index < table.length / entrySize := by
  rw [HasRecord, ← Nat.succ_mul, Nat.lt_iff_add_one_le,
    Nat.le_div_iff_mul_le positive]

theorem getElem?_entries {table : Bytes} {entrySize : Nat}
    (positive : 0 < entrySize) (index : Nat) (record : Bytes) :
    (entries table entrySize)[index]? = some record ↔
      HasRecord table entrySize index ∧
        recordAt table entrySize index = record := by
  rw [hasRecord_iff positive, entries, List.getElem?_map]
  by_cases inside : index < table.length / entrySize
  · simp [inside, recordAt]
  · simp [inside]

theorem HasRecord.length {table : Bytes} {entrySize index : Nat}
    (present : HasRecord table entrySize index) :
    (recordAt table entrySize index).length = entrySize := by
  rw [recordAt, Bytes.slice_length_of_le present]
  omega

/-- Records of different indices do not overlap. -/
theorem records_apart {entrySize left right : Nat} (different : left ≠ right) :
    left * entrySize + entrySize ≤ right * entrySize ∨
      right * entrySize + entrySize ≤ left * entrySize := by
  rcases Nat.lt_or_gt_of_ne different with lower | higher
  · left
    rw [← Nat.succ_mul]
    exact Nat.mul_le_mul_right _ lower
  · right
    rw [← Nat.succ_mul]
    exact Nat.mul_le_mul_right _ higher

/-- The table with one record replaced. -/
def replaceRecord (table : Bytes) (entrySize index : Nat) (record : Bytes) :
    Bytes :=
  Bytes.splice table (index * entrySize) record

section Replaced

variable {table record : Bytes} {entrySize index : Nat}

theorem replaceRecord_length (present : HasRecord table entrySize index)
    (sized : record.length = entrySize) :
    (replaceRecord table entrySize index record).length = table.length :=
  Bytes.splice_length (by rw [sized]; exact present)

theorem recordAt_replaceRecord_self
    (present : HasRecord table entrySize index)
    (sized : record.length = entrySize) :
    recordAt (replaceRecord table entrySize index record) entrySize index =
      record := by
  have replaced := Bytes.slice_splice_self
    (show index * entrySize + record.length ≤ table.length by
      rw [sized]; exact present)
  rw [sized] at replaced
  exact replaced

theorem recordAt_replaceRecord_other {other : Nat}
    (present : HasRecord table entrySize index)
    (sized : record.length = entrySize) (different : other ≠ index) :
    recordAt (replaceRecord table entrySize index record) entrySize other =
      recordAt table entrySize other :=
  Bytes.slice_splice_of_disjoint (by rw [sized]; exact present)
    (by rw [sized]; exact records_apart different)

theorem getElem?_replaceRecord (present : HasRecord table entrySize index)
    (sized : record.length = entrySize) (position : Nat) :
    (replaceRecord table entrySize index record)[position]? =
      if index * entrySize ≤ position ∧
          position < index * entrySize + entrySize
      then record[position - index * entrySize]?
      else table[position]? := by
  rw [replaceRecord, Bytes.getElem?_splice (by rw [sized]; exact present),
    sized]
  by_cases before : position < index * entrySize
  · rw [if_pos before, if_neg (by omega)]
  · rw [if_neg before]
    by_cases inside : position < index * entrySize + entrySize
    · rw [if_pos inside, if_pos (by omega)]
    · rw [if_neg inside, if_neg (by omega)]

theorem replaceRecord_recordAt (present : HasRecord table entrySize index) :
    replaceRecord table entrySize index (recordAt table entrySize index) =
      table := by
  have sized := present.length
  have inside : index * entrySize + entrySize ≤ table.length := present
  apply List.ext_getElem?
  intro position
  rw [replaceRecord, Bytes.getElem?_splice (by omega), sized, recordAt,
    Bytes.getElem?_slice]
  split
  · rfl
  · split
    · rw [if_pos (by omega)]
      congr 1
      omega
    · rfl

end Replaced

private theorem firstNamed_zero {record : Bytes} {rest : List Bytes}
    {name : Name} :
    FirstNamed (record :: rest) name 0 ↔
      isUnusedEntry record = false ∧
        partitionName record = .ok (some name) := by
  constructor
  · rintro ⟨⟨found, same, used, named⟩, _⟩
    simp only [List.getElem?_cons_zero, Option.some.injEq] at same
    subst found
    exact ⟨used, named⟩
  · rintro ⟨used, named⟩
    exact ⟨⟨record, rfl, used, named⟩, fun earlier before => by omega⟩

private theorem firstNamed_succ {record : Bytes} {rest : List Bytes}
    {name : Name} {index : Nat} :
    FirstNamed (record :: rest) name (index + 1) ↔
      (isUnusedEntry record = true ∨
        ∃ other, partitionName record = .ok other ∧ other ≠ some name) ∧
      FirstNamed rest name index := by
  constructor
  · rintro ⟨named, first⟩
    refine ⟨first 0 (by omega) record rfl, named, ?_⟩
    intro earlier before entry found
    exact first (earlier + 1) (by omega) entry found
  · rintro ⟨passed, named, first⟩
    refine ⟨named, ?_⟩
    intro earlier before entry found
    cases earlier with
    | zero =>
        simp only [List.getElem?_cons_zero, Option.some.injEq] at found
        subst found
        exact passed
    | succ earlier => exact first earlier (by omega) entry found

/-- `find_entry_index` finds exactly the first used record with the name. -/
theorem findEntryIndexFrom_eq_some {name : Name} {start index : Nat}
    {records : List Bytes} :
    findEntryIndexFrom name start records = .ok (some index) ↔
      ∃ offset, index = start + offset ∧ FirstNamed records name offset := by
  induction records generalizing start with
  | nil =>
      simp only [findEntryIndexFrom, Run.pure_eq_ok, Except.ok.injEq,
        reduceCtorEq, false_iff, not_exists, not_and]
      rintro offset rfl ⟨⟨record, found, _⟩, _⟩
      simp at found
  | cons record rest induction =>
      have later : (∃ offset, index = start + 1 + offset ∧
          FirstNamed rest name offset) ↔
          ∃ offset, index = start + (offset + 1) ∧
            FirstNamed rest name offset := by
        simp only [Nat.add_assoc, Nat.add_comm 1]
      have split : (∃ offset, index = start + offset ∧
          FirstNamed (record :: rest) name offset) ↔
          (index = start ∧ FirstNamed (record :: rest) name 0) ∨
          ∃ offset, index = start + (offset + 1) ∧
            FirstNamed (record :: rest) name (offset + 1) := by
        constructor
        · rintro ⟨offset, place, first⟩
          cases offset with
          | zero => exact .inl ⟨place, first⟩
          | succ offset => exact .inr ⟨offset, place, first⟩
        · rintro (⟨place, first⟩ | ⟨offset, place, first⟩)
          · exact ⟨0, place, first⟩
          · exact ⟨offset + 1, place, first⟩
      simp only [split, firstNamed_zero, firstNamed_succ, findEntryIndexFrom]
      cases used : isUnusedEntry record with
      | true => simp [induction, later]
      | false =>
          cases named : partitionName record with
          | error fault => simp
          | ok found =>
              by_cases same : found = some name
              · subst same
                simp [eq_comm]
              · simp [same, induction, later]

theorem findEntryIndex_eq_some {table : Bytes} {entrySize index : Nat}
    {name : Name} :
    findEntryIndex table entrySize name = .ok (some index) ↔
      FirstNamed (entries table entrySize) name index := by
  rw [findEntryIndex, findEntryIndexFrom_eq_some]
  simp

theorem findEntryIndexFrom_congr {left right : List Bytes}
    (same : SameNames left right) (name : Name) (start : Nat) :
    findEntryIndexFrom name start left =
      findEntryIndexFrom name start right := by
  induction same generalizing start with
  | nil => rfl
  | cons head tail induction =>
      simp only [findEntryIndexFrom, head.1, head.2, induction]

namespace FirstNamed

variable {table : Bytes} {entrySize index : Nat} {name : Name}

theorem hasRecord (found : FirstNamed (entries table entrySize) name index)
    (positive : 0 < entrySize) : HasRecord table entrySize index := by
  obtain ⟨record, place, _⟩ := found.record
  exact ((getElem?_entries positive index record).mp place).1

theorem used (found : FirstNamed (entries table entrySize) name index)
    (positive : 0 < entrySize) :
    isUnusedEntry (recordAt table entrySize index) = false := by
  obtain ⟨record, place, used, _⟩ := found.record
  obtain ⟨_, rfl⟩ := (getElem?_entries positive index record).mp place
  exact used

theorem named (found : FirstNamed (entries table entrySize) name index)
    (positive : 0 < entrySize) :
    partitionName (recordAt table entrySize index) = .ok (some name) := by
  obtain ⟨record, place, _, named⟩ := found.record
  obtain ⟨_, rfl⟩ := (getElem?_entries positive index record).mp place
  exact named

end FirstNamed

/-- Tables with the same used records and names, record by record. -/
theorem sameNames_of_records {left right : Bytes} {entrySize : Nat}
    (lengths : left.length = right.length)
    (records : ∀ index, HasRecord left entrySize index →
      isUnusedEntry (recordAt left entrySize index) =
          isUnusedEntry (recordAt right entrySize index) ∧
        partitionName (recordAt left entrySize index) =
          partitionName (recordAt right entrySize index))
    (positive : 0 < entrySize) :
    SameNames (entries left entrySize) (entries right entrySize) := by
  rw [SameNames, entries, entries, List.forall₂_map_left_iff,
    List.forall₂_map_right_iff, lengths, List.forall₂_same]
  intro index member
  have inside : index < left.length / entrySize := by
    simpa [lengths] using member
  exact records index ((hasRecord_iff positive).mpr inside)

end Pocketboot.AbSlots
