import Pocketboot.AbSlots.PairSwitch
import Pocketboot.AbSlots.RoundTrip

/-!
# The effect of `set_active_pair`

A successful call finds the pair in both tables and marks its four records.
The later lookups of the pair, of every other base and of a second call are
then read off the marked tables.
-/

namespace Pocketboot.AbSlots

open Storage

/-- Where the first used entries of a pair stand in a table. -/
def PairAt (table : Bytes) (entrySize : Nat) (base : Name)
    (index : Slot → Nat) : Prop :=
  ∀ slot, FirstNamed (entries table entrySize) (slotName base slot)
    (index slot)

/-- The table with both records of a pair switched. -/
def switchedTable (table : Bytes) (entrySize : Nat) (index : Slot → Nat)
    (target : Slot) (activeGuid inactiveGuid : Bytes) : Bytes :=
  let record (slot : Slot) : Bytes :=
    switchedRecord target slot activeGuid inactiveGuid
      (recordAt table entrySize (index slot))
  replaceRecord
    (replaceRecord table entrySize (index .a) (record .a))
    entrySize (index .b) (record .b)

/-- The byte positions that a switch may change. -/
def Touched (entrySize : Nat) (index : Slot → Nat) (position : Nat) : Prop :=
  ∃ slot, (index slot * entrySize ≤ position ∧
      position < index slot * entrySize + typeGuidSize) ∨
    position = index slot * entrySize + abFlagOffset

theorem FirstNamed.unique {records : List Bytes} {left right : Name}
    {index : Nat} (one : FirstNamed records left index)
    (two : FirstNamed records right index) : left = right := by
  obtain ⟨record, place, _, named⟩ := one.record
  obtain ⟨other, samePlace, _, otherNamed⟩ := two.record
  rw [place] at samePlace
  obtain rfl := Option.some.inj samePlace
  rw [named] at otherNamed
  exact Option.some.inj (Except.ok.inj otherNamed)

namespace PairAt

variable {table : Bytes} {entrySize : Nat} {base : Name} {index : Slot → Nat}

theorem different (pair : PairAt table entrySize base index) {left right : Slot}
    (slots : left ≠ right) : index left ≠ index right := by
  intro same
  have names := (same ▸ pair left).unique (pair right)
  exact slots (slotName_inj names).2

theorem apart (pair : PairAt table entrySize base index) {other : Name}
    (bases : other ≠ base) {found : Nat} {slot otherSlot : Slot}
    (named : FirstNamed (entries table entrySize) (slotName other otherSlot)
      found) : found ≠ index slot := by
  intro same
  have names := (same ▸ named).unique (pair slot)
  exact bases (slotName_inj names).1

theorem hasRecord (pair : PairAt table entrySize base index)
    (size : gptMinEntrySize ≤ entrySize) (slot : Slot) :
    HasRecord table entrySize (index slot) :=
  (pair slot).hasRecord (lt_of_lt_of_le (by decide) size)

theorem long (pair : PairAt table entrySize base index)
    (size : gptMinEntrySize ≤ entrySize) (slot : Slot) :
    gptMinEntrySize ≤ (recordAt table entrySize (index slot)).length := by
  rw [(pair.hasRecord size slot).length]
  exact size

theorem congr {other : Bytes} (pair : PairAt table entrySize base index)
    (same : SameNames (entries table entrySize) (entries other entrySize)) :
    PairAt other entrySize base index := by
  intro slot
  have found := findEntryIndexFrom_congr same (slotName base slot) 0
  rw [← findEntryIndex_eq_some, findEntryIndex, ← found]
  exact findEntryIndex_eq_some.mpr (pair slot)

end PairAt

section Switched

variable {table : Bytes} {entrySize : Nat} {base : Name} {index : Slot → Nat}
  {target : Slot} {activeGuid inactiveGuid : Bytes}
  (pair : PairAt table entrySize base index)
  (size : gptMinEntrySize ≤ entrySize)
  (activeSized : activeGuid.length = typeGuidSize)
  (inactiveSized : inactiveGuid.length = typeGuidSize)

include pair size activeSized inactiveSized

variable (target) in
private theorem switchedRecord_sized (slot : Slot) :
    (switchedRecord target slot activeGuid inactiveGuid
      (recordAt table entrySize (index slot))).length = entrySize := by
  rw [switchedRecord_length (pair.long size slot) activeSized inactiveSized,
    (pair.hasRecord size slot).length]

variable (target) in
private theorem halfSwitched_length :
    (replaceRecord table entrySize (index .a)
      (switchedRecord target .a activeGuid inactiveGuid
        (recordAt table entrySize (index .a)))).length = table.length :=
  replaceRecord_length (pair.hasRecord size .a)
    (switchedRecord_sized target pair size activeSized inactiveSized .a)

variable (target) in
private theorem halfSwitched_hasRecord :
    HasRecord (replaceRecord table entrySize (index .a)
      (switchedRecord target .a activeGuid inactiveGuid
        (recordAt table entrySize (index .a)))) entrySize (index .b) := by
  rw [HasRecord,
    halfSwitched_length target pair size activeSized inactiveSized]
  exact pair.hasRecord size .b

theorem switchedTable_length :
    (switchedTable table entrySize index target activeGuid
      inactiveGuid).length = table.length := by
  rw [switchedTable, replaceRecord_length
      (halfSwitched_hasRecord target pair size activeSized inactiveSized)
      (switchedRecord_sized target pair size activeSized inactiveSized .b),
    halfSwitched_length target pair size activeSized inactiveSized]

theorem recordAt_switchedTable (slot : Slot) :
    recordAt (switchedTable table entrySize index target activeGuid
      inactiveGuid) entrySize (index slot) =
      switchedRecord target slot activeGuid inactiveGuid
        (recordAt table entrySize (index slot)) := by
  have present := halfSwitched_hasRecord target pair size
    activeSized inactiveSized
  have sized := switchedRecord_sized target pair size activeSized
    inactiveSized
  cases slot with
  | a =>
      rw [switchedTable, recordAt_replaceRecord_other present (sized .b)
          (pair.different (by decide)),
        recordAt_replaceRecord_self (pair.hasRecord size .a) (sized .a)]
  | b => rw [switchedTable, recordAt_replaceRecord_self present (sized .b)]

theorem recordAt_switchedTable_other {other : Nat}
    (outside : ∀ slot, other ≠ index slot) :
    recordAt (switchedTable table entrySize index target activeGuid
      inactiveGuid) entrySize other = recordAt table entrySize other := by
  have sized := switchedRecord_sized target pair size activeSized
    inactiveSized
  rw [switchedTable, recordAt_replaceRecord_other
      (halfSwitched_hasRecord target pair size activeSized inactiveSized)
      (sized .b)
      (outside .b),
    recordAt_replaceRecord_other (pair.hasRecord size .a) (sized .a)
      (outside .a)]

private theorem getElem?_switchedRecord_inside {slot : Slot} {position : Nat}
    (untouched : ¬ Touched entrySize index position)
    (inside : index slot * entrySize ≤ position ∧
      position < index slot * entrySize + entrySize) :
    (switchedRecord target slot activeGuid inactiveGuid
      (recordAt table entrySize (index slot)))[
        position - index slot * entrySize]? = table[position]? := by
  have outside : typeGuidSize ≤ position - index slot * entrySize ∧
      position - index slot * entrySize ≠ abFlagOffset := by
    constructor
    · by_contra low
      exact untouched ⟨slot, .inl ⟨inside.1, by omega⟩⟩
    · intro flagged
      exact untouched ⟨slot, .inr (by omega)⟩
  rw [getElem?_switchedRecord (pair.long size slot) activeSized inactiveSized
    outside, recordAt, Bytes.getElem?_slice, if_pos (by omega)]
  congr 1
  omega

/-- Only the GUIDs and the attribute bytes of the two records change. -/
theorem getElem?_switchedTable {position : Nat}
    (untouched : ¬ Touched entrySize index position) :
    (switchedTable table entrySize index target activeGuid
      inactiveGuid)[position]? = table[position]? := by
  have sized := switchedRecord_sized target pair size activeSized
    inactiveSized
  have inside := fun slot => @getElem?_switchedRecord_inside table entrySize
    base index target activeGuid inactiveGuid pair size activeSized
    inactiveSized slot position untouched
  rw [switchedTable, getElem?_replaceRecord
      (halfSwitched_hasRecord target pair size activeSized inactiveSized)
      (sized .b),
    getElem?_replaceRecord (pair.hasRecord size .a) (sized .a)]
  split
  · exact inside .b ‹_›
  · split
    · exact inside .a ‹_›
    · rfl

/-- The switched table has the used records and the names of the old one. -/
theorem sameNames_switchedTable
    (activeUsed : activeGuid.all (· == 0) = false)
    (inactiveUsed : inactiveGuid.all (· == 0) = false) :
    SameNames (entries table entrySize)
      (entries (switchedTable table entrySize index target activeGuid
        inactiveGuid) entrySize) := by
  have positive : 0 < entrySize := lt_of_lt_of_le (by decide) size
  apply sameNames_of_records _ _ positive
  · exact (switchedTable_length pair size activeSized inactiveSized).symm
  · intro position _
    by_cases member : ∃ slot, position = index slot
    · obtain ⟨slot, rfl⟩ := member
      rw [recordAt_switchedTable pair size activeSized inactiveSized,
        isUnusedEntry_switchedRecord (pair.long size slot) activeSized
          inactiveSized activeUsed inactiveUsed,
        partitionName_switchedRecord (pair.long size slot) activeSized
          inactiveSized]
      exact ⟨(pair slot).used positive, rfl⟩
    · rw [recordAt_switchedTable_other pair size activeSized inactiveSized
        fun slot same => member ⟨slot, same⟩]
      exact ⟨rfl, rfl⟩

end Switched

/-- Switching records that are already switched changes no byte. -/
theorem switchedTable_self {table : Bytes} {entrySize : Nat} {base : Name}
    {index : Slot → Nat} {target : Slot} {activeGuid inactiveGuid : Bytes}
    (pair : PairAt table entrySize base index)
    (size : gptMinEntrySize ≤ entrySize)
    (fixed : ∀ slot, switchedRecord target slot activeGuid inactiveGuid
      (recordAt table entrySize (index slot)) =
        recordAt table entrySize (index slot)) :
    switchedTable table entrySize index target activeGuid inactiveGuid =
      table := by
  simp only [switchedTable, fixed]
  rw [replaceRecord_recordAt (pair.hasRecord size .a),
    replaceRecord_recordAt (pair.hasRecord size .b)]

theorem switchedTable_switchedTable {table : Bytes} {entrySize : Nat}
    {base : Name} {index : Slot → Nat} {target : Slot}
    {activeGuid inactiveGuid : Bytes}
    (pair : PairAt table entrySize base index)
    (size : gptMinEntrySize ≤ entrySize)
    (activeSized : activeGuid.length = typeGuidSize)
    (inactiveSized : inactiveGuid.length = typeGuidSize)
    (activeUsed : activeGuid.all (· == 0) = false)
    (inactiveUsed : inactiveGuid.all (· == 0) = false) :
    switchedTable (switchedTable table entrySize index target activeGuid
        inactiveGuid) entrySize index target activeGuid inactiveGuid =
      switchedTable table entrySize index target activeGuid inactiveGuid := by
  have again : PairAt (switchedTable table entrySize index target activeGuid
      inactiveGuid) entrySize base index :=
    pair.congr (sameNames_switchedTable pair size activeSized inactiveSized
      activeUsed inactiveUsed)
  apply switchedTable_self again size
  intro slot
  rw [recordAt_switchedTable pair size activeSized inactiveSized]
  exact switchedRecord_switchedRecord (pair.long size slot) activeSized
    inactiveSized

private theorem updateTableEntry_eq {table : Bytes} {entrySize index : Nat}
    (present : HasRecord table entrySize index)
    (small : table.length < wordSize) (target slot : Slot)
    (activeGuid inactiveGuid : Bytes) :
    updateTableEntry table entrySize index (target = slot) activeGuid
      inactiveGuid = .ok (replaceRecord table entrySize index
        (switchedRecord target slot activeGuid inactiveGuid
          (recordAt table entrySize index))) := by
  have inside : index * entrySize + entrySize ≤ table.length := present
  have product : checkedMul index entrySize = some (index * entrySize) :=
    checkedMul_eq_some.mpr ⟨by omega, rfl⟩
  have stop : checkedAdd (index * entrySize) entrySize =
      some (index * entrySize + entrySize) :=
    checkedAdd_eq_some.mpr ⟨by omega, rfl⟩
  have offset : entryOffset table entrySize index =
      .ok (index * entrySize) := by
    simp [entryOffset, product, stop, Run.ofOption, Run.ensure_of inside]
  simp only [updateTableEntry, offset, Run.ok_bind, Run.pure_eq_ok,
    updateSlotEntry_eq]
  rfl

private theorem updatePairTable_of_pair {table : Bytes} {entrySize : Nat}
    {base : Name} {index : Slot → Nat} {target : Slot}
    {activeGuid inactiveGuid : Bytes}
    (pair : PairAt table entrySize base index)
    (size : gptMinEntrySize ≤ entrySize) (small : table.length < wordSize)
    (activeSized : activeGuid.length = typeGuidSize)
    (inactiveSized : inactiveGuid.length = typeGuidSize) :
    updatePairTable table entrySize (slotName base .a) (slotName base .b)
      target activeGuid inactiveGuid = .ok (switchedTable table entrySize
        index target activeGuid inactiveGuid) := by
  have foundA := findEntryIndex_eq_some.mpr (pair .a)
  have foundB := findEntryIndex_eq_some.mpr (pair .b)
  have halfLength := halfSwitched_length target pair size
    activeSized inactiveSized
  have unchanged : recordAt (replaceRecord table entrySize (index .a)
      (switchedRecord target .a activeGuid inactiveGuid
        (recordAt table entrySize (index .a)))) entrySize (index .b) =
      recordAt table entrySize (index .b) :=
    recordAt_replaceRecord_other (pair.hasRecord size .a)
      (switchedRecord_sized target pair size activeSized inactiveSized .a)
      (pair.different (by decide))
  simp only [updatePairTable, foundA, foundB, Run.ok_bind, Run.ofOption,
    updateTableEntry_eq (pair.hasRecord size .a) small,
    updateTableEntry_eq
      (halfSwitched_hasRecord target pair size activeSized inactiveSized)
      (halfLength.trans_lt small), unchanged]
  rfl

/-- `update_pair_table` succeeds exactly when both names are found. -/
theorem updatePairTable_eq_ok {table updated : Bytes} {entrySize : Nat}
    {base : Name} {target : Slot} {activeGuid inactiveGuid : Bytes}
    (size : gptMinEntrySize ≤ entrySize) (small : table.length < wordSize)
    (activeSized : activeGuid.length = typeGuidSize)
    (inactiveSized : inactiveGuid.length = typeGuidSize) :
    updatePairTable table entrySize (slotName base .a) (slotName base .b)
      target activeGuid inactiveGuid = .ok updated ↔
      ∃ index, PairAt table entrySize base index ∧
        updated = switchedTable table entrySize index target activeGuid
          inactiveGuid := by
  constructor
  · intro updates
    have lookups := updates
    simp only [updatePairTable, Run.bind_eq_ok, Run.ofOption_eq_ok] at lookups
    obtain ⟨_, foundA, aIndex, rfl, _, foundB, bIndex, rfl, _⟩ := lookups
    have pair : PairAt table entrySize base
        (fun slot => if slot = .a then aIndex else bIndex) := by
      intro slot
      cases slot with
      | a => exact findEntryIndex_eq_some.mp foundA
      | b => exact findEntryIndex_eq_some.mp foundB
    rw [updatePairTable_of_pair pair size small activeSized inactiveSized]
      at updates
    exact ⟨_, pair, (Except.ok.inj updates).symm⟩
  · rintro ⟨index, pair, rfl⟩
    exact updatePairTable_of_pair pair size small activeSized inactiveSized

namespace GptDisk

/-- The type GUID of a base's slot in the primary table. -/
def slotGuid (disk : GptDisk) (base : Name) (slot : Slot) :
    Run IoError (Option Bytes) := do
  let found ← findEntry disk.primaryEntries disk.primaryHeader.entrySize
    (slotName base slot)
  return found.map typeGuid

/-- A pair in both tables of a disk. -/
structure HasPair (disk : GptDisk) (base : Name)
    (primary backup : Slot → Nat) : Prop where
  primary : PairAt disk.primaryEntries disk.primaryHeader.entrySize base primary
  backup : PairAt disk.backupEntries disk.backupHeader.entrySize base backup

/-- The GUID of a slot's record in the primary table. -/
def guidAt (disk : GptDisk) (primary : Slot → Nat) (slot : Slot) : Bytes :=
  typeGuid (recordAt disk.primaryEntries disk.primaryHeader.entrySize
    (primary slot))

/-- The disk with a pair switched in both tables. -/
def switched (disk : GptDisk) (primary backup : Slot → Nat)
    (active target : Slot) : GptDisk :=
  { disk with
    primaryEntries := switchedTable disk.primaryEntries
      disk.primaryHeader.entrySize primary target
      (disk.guidAt primary active) (disk.guidAt primary active.other)
    backupEntries := switchedTable disk.backupEntries
      disk.backupHeader.entrySize backup target
      (disk.guidAt primary active) (disk.guidAt primary active.other) }

namespace WellFormed

variable {disk : GptDisk} (wellFormed : disk.WellFormed)

include wellFormed

theorem primarySize : gptMinEntrySize ≤ disk.primaryHeader.entrySize := by
  rw [wellFormed.primaryFields]
  exact wellFormed.primaryShape.entrySize_ge

theorem backupSize : gptMinEntrySize ≤ disk.backupHeader.entrySize := by
  rw [wellFormed.backupFields]
  exact wellFormed.backupShape.entrySize_ge

theorem primarySmall : disk.primaryEntries.length < wordSize := by
  have table := wellFormed.primaryTable
  simp only [tableBytes, Run.bind_eq_ok, Run.ensure_eq_ok, Run.pure_eq_ok,
    Except.ok.injEq] at table
  obtain ⟨bytes, _, _, ⟨_, bounded⟩, rfl⟩ := table
  exact lt_of_le_of_lt bounded (by decide)

theorem backupSmall : disk.backupEntries.length < wordSize := by
  have table := wellFormed.backupTable
  simp only [tableBytes, Run.bind_eq_ok, Run.ensure_eq_ok, Run.pure_eq_ok,
    Except.ok.injEq] at table
  obtain ⟨bytes, _, _, ⟨_, bounded⟩, rfl⟩ := table
  exact lt_of_le_of_lt bounded (by decide)

theorem guidAt_length {base : Name} {primary : Slot → Nat}
    (pair : PairAt disk.primaryEntries disk.primaryHeader.entrySize base
      primary) (slot : Slot) :
    (disk.guidAt primary slot).length = typeGuidSize := by
  have long := pair.long wellFormed.primarySize slot
  simp only [guidAt, typeGuid, List.length_take]
  exact Nat.min_eq_left (le_trans (by decide) long)

theorem guidAt_used {base : Name} {primary : Slot → Nat}
    (pair : PairAt disk.primaryEntries disk.primaryHeader.entrySize base
      primary) (slot : Slot) :
    (disk.guidAt primary slot).all (· == 0) = false :=
  (pair slot).used (lt_of_lt_of_le (by decide) wellFormed.primarySize)

end WellFormed

theorem findEntry_of_pair {table : Bytes} {entrySize : Nat} {base : Name}
    {index : Slot → Nat} (pair : PairAt table entrySize base index)
    (slot : Slot) :
    findEntry table entrySize (slotName base slot) =
      .ok (some (recordAt table entrySize (index slot))) := by
  have found := findEntryIndex_eq_some.mpr (pair slot)
  simp only [findEntry, found, Run.ok_bind, Option.map_some]
  rfl

/-- The reported slot of a pair of records. -/
def activeOf (record : Slot → Bytes) : Option Slot :=
  if isSlotActive (record .a) then some .a
  else if isSlotActive (record .b) then some .b
  else none

section Pair

variable {disk : GptDisk} {base : Name} {primary : Slot → Nat}
  (pair : PairAt disk.primaryEntries disk.primaryHeader.entrySize base primary)

include pair

theorem activeSlotForBase_of_pair :
    disk.activeSlotForBase base = .ok (activeOf fun slot =>
      recordAt disk.primaryEntries disk.primaryHeader.entrySize
        (primary slot)) := by
  have flagsA : disk.attributeByte (base ++ ['_', 'a']) = .ok (some
      (slotFlags (recordAt disk.primaryEntries disk.primaryHeader.entrySize
        (primary .a)))) := by
    have found := findEntry_of_pair pair .a
    simp only [slotName] at found
    simp only [attributeByte, found, Run.ok_bind]
    rfl
  have flagsB : disk.attributeByte (base ++ ['_', 'b']) = .ok (some
      (slotFlags (recordAt disk.primaryEntries disk.primaryHeader.entrySize
        (primary .b)))) := by
    have found := findEntry_of_pair pair .b
    simp only [slotName] at found
    simp only [attributeByte, found, Run.ok_bind]
    rfl
  simp only [activeSlotForBase, flagsA, flagsB, Run.ok_bind, activeOf,
    Option.any_some]
  rfl

theorem slotGuid_of_pair (slot : Slot) :
    disk.slotGuid base slot = .ok (some (disk.guidAt primary slot)) := by
  simp only [slotGuid, findEntry_of_pair pair slot, Run.ok_bind]
  rfl

theorem pairGuids_of_pair :
    disk.pairGuids (slotName base .a) (slotName base .b) =
      .ok ((activeOf fun slot =>
        recordAt disk.primaryEntries disk.primaryHeader.entrySize
          (primary slot)).map fun active =>
            (disk.guidAt primary active, disk.guidAt primary active.other)) := by
  simp only [pairGuids, findEntry_of_pair pair, Run.ok_bind, Run.ofOption,
    activeOf]
  cases isSlotActive (recordAt disk.primaryEntries
      disk.primaryHeader.entrySize (primary .a)) <;>
    cases isSlotActive (recordAt disk.primaryEntries
      disk.primaryHeader.entrySize (primary .b)) <;>
    rfl

end Pair

/-- The lookups of a successful `pairGuids`. -/
theorem pair_of_pairGuids {disk : GptDisk} {base : Name}
    {guids : Option (Bytes × Bytes)}
    (found : disk.pairGuids (slotName base .a) (slotName base .b) =
      .ok guids) :
    ∃ primary, PairAt disk.primaryEntries disk.primaryHeader.entrySize base
      primary := by
  simp only [pairGuids, findEntry, Run.bind_eq_ok, Run.ofOption_eq_ok,
    Run.pure_eq_ok, Except.ok.injEq] at found
  obtain ⟨_, ⟨aFound, foundA, rfl⟩, _, someA, _, ⟨bFound, foundB, rfl⟩, _,
    someB, _⟩ := found
  obtain ⟨aIndex, rfl, _⟩ := Option.map_eq_some_iff.mp someA
  obtain ⟨bIndex, rfl, _⟩ := Option.map_eq_some_iff.mp someB
  refine ⟨fun slot => if slot = .a then aIndex else bIndex, ?_⟩
  intro slot
  cases slot with
  | a => exact findEntryIndex_eq_some.mp foundA
  | b => exact findEntryIndex_eq_some.mp foundB

theorem setActivePair_of_pair {disk : GptDisk} (wellFormed : disk.WellFormed)
    {base : Name} {primary backup : Slot → Nat} {active target : Slot}
    (pair : disk.HasPair base primary backup)
    (reported : disk.activeSlotForBase base = .ok (some active)) :
    disk.setActivePair base target =
      (disk.switched primary backup active target, .ok .updated) := by
  have chosen := (activeSlotForBase_of_pair pair.primary).symm.trans reported
  have guids := pairGuids_of_pair pair.primary
  rw [Except.ok.inj chosen] at guids
  have activeSized := wellFormed.guidAt_length pair.primary active
  have otherSized := wellFormed.guidAt_length pair.primary active.other
  have primaryUpdate := @updatePairTable_of_pair _ _ _ _ target _ _
    pair.primary wellFormed.primarySize wellFormed.primarySmall activeSized
    otherSized
  have backupUpdate := @updatePairTable_of_pair _ _ _ _ target _ _
    pair.backup wellFormed.backupSize wellFormed.backupSmall activeSized
    otherSized
  simp only [slotName] at guids primaryUpdate backupUpdate
  simp only [setActivePair, guids, Option.map_some, primaryUpdate,
    backupUpdate]
  rfl

/-- `set_active_pair` returns `Updated` exactly when both tables have the pair
and one of its slots is active. -/
theorem setActivePair_eq_updated {disk after : GptDisk}
    (wellFormed : disk.WellFormed) {base : Name} {target : Slot} :
    disk.setActivePair base target = (after, .ok .updated) ↔
      ∃ primary backup active, disk.HasPair base primary backup ∧
        disk.activeSlotForBase base = .ok (some active) ∧
        after = disk.switched primary backup active target := by
  constructor
  · intro updated
    have unfolded := updated
    simp only [setActivePair] at unfolded
    split at unfolded
    · simp at unfolded
    · simp at unfolded
    · rename_i activeGuid inactiveGuid guids
      obtain ⟨primary, pair⟩ := @pair_of_pairGuids disk base _ guids
      have same := guids.symm.trans (pairGuids_of_pair pair)
      simp only [Except.ok.injEq] at same
      obtain ⟨active, chosen, both⟩ := Option.map_eq_some_iff.mp same.symm
      obtain ⟨rfl, rfl⟩ := Prod.mk.inj both
      have reported := activeSlotForBase_of_pair pair
      rw [chosen] at reported
      split at unfolded
      · simp at unfolded
      · split at unfolded
        · simp at unfolded
        · rename_i backupUpdate
          obtain ⟨backup, backupPair, _⟩ :=
            (updatePairTable_eq_ok wellFormed.backupSize wellFormed.backupSmall
              (wellFormed.guidAt_length pair active)
              (wellFormed.guidAt_length pair active.other)).mp backupUpdate
          have both : disk.HasPair base primary backup := ⟨pair, backupPair⟩
          rw [setActivePair_of_pair wellFormed both reported] at updated
          exact ⟨primary, backup, active, both, reported,
            (Prod.mk.inj updated).1.symm⟩
  · rintro ⟨primary, backup, active, pair, reported, rfl⟩
    exact setActivePair_of_pair wellFormed pair reported

private theorem inactive_flags (flags : UInt8) :
    (flags &&& ~~~abPartitionAttrSlotActive) &&& abPartitionAttrSlotActive =
      0 := by
  rw [UInt8.and_assoc]
  have cleared : ~~~abPartitionAttrSlotActive &&& abPartitionAttrSlotActive =
      0 := by decide
  rw [cleared, UInt8.and_zero]

section SwitchedDisk

variable {disk : GptDisk} {base : Name} {primary backup : Slot → Nat}
  (wellFormed : disk.WellFormed) (pair : disk.HasPair base primary backup)
  (active target : Slot)

include wellFormed pair

theorem sameNames_switched :
    SameNames (entries disk.primaryEntries disk.primaryHeader.entrySize)
      (entries (disk.switched primary backup active target).primaryEntries
        disk.primaryHeader.entrySize) :=
  sameNames_switchedTable pair.primary wellFormed.primarySize
    (wellFormed.guidAt_length pair.primary active)
    (wellFormed.guidAt_length pair.primary active.other)
    (wellFormed.guidAt_used pair.primary active)
    (wellFormed.guidAt_used pair.primary active.other)

theorem switched_hasPair :
    (disk.switched primary backup active target).HasPair base primary
      backup := by
  constructor
  · exact pair.primary.congr (sameNames_switched wellFormed pair active target)
  · exact pair.backup.congr (sameNames_switchedTable pair.backup
      wellFormed.backupSize (wellFormed.guidAt_length pair.primary active)
      (wellFormed.guidAt_length pair.primary active.other)
      (wellFormed.guidAt_used pair.primary active)
      (wellFormed.guidAt_used pair.primary active.other))

theorem switched_wellFormed :
    (disk.switched primary backup active target).WellFormed := by
  have activeSized := wellFormed.guidAt_length pair.primary active
  have otherSized := wellFormed.guidAt_length pair.primary active.other
  have shape : SameShape disk (disk.switched primary backup active target) :=
    ⟨rfl, rfl, rfl, rfl, rfl,
      switchedTable_length pair.primary wellFormed.primarySize activeSized
        otherSized,
      switchedTable_length pair.backup wellFormed.backupSize activeSized
        otherSized⟩
  exact shape.wellFormed wellFormed

theorem recordAt_switched (slot : Slot) :
    recordAt (disk.switched primary backup active target).primaryEntries
      disk.primaryHeader.entrySize (primary slot) =
      switchedRecord target slot (disk.guidAt primary active)
        (disk.guidAt primary active.other)
        (recordAt disk.primaryEntries disk.primaryHeader.entrySize
          (primary slot)) :=
  recordAt_switchedTable pair.primary wellFormed.primarySize
    (wellFormed.guidAt_length pair.primary active)
    (wellFormed.guidAt_length pair.primary active.other) slot

theorem guidAt_switched (slot : Slot) :
    (disk.switched primary backup active target).guidAt primary slot =
      if slot = target then disk.guidAt primary active
      else disk.guidAt primary active.other := by
  change typeGuid (recordAt
    (disk.switched primary backup active target).primaryEntries
      disk.primaryHeader.entrySize (primary slot)) = _
  rw [recordAt_switched wellFormed pair active target slot]
  exact typeGuid_switchedRecord (pair.primary.long wellFormed.primarySize slot)
    (wellFormed.guidAt_length pair.primary active)
    (wellFormed.guidAt_length pair.primary active.other)

theorem isSlotActive_switched (slot : Slot) :
    isSlotActive (recordAt
      (disk.switched primary backup active target).primaryEntries
        disk.primaryHeader.entrySize (primary slot)) =
      decide (slot = target) := by
  rw [recordAt_switched wellFormed pair active target slot]
  change (slotFlags _ &&& abPartitionAttrSlotActive != 0) = _
  rw [slotFlags_switchedRecord
    (pair.primary.long wellFormed.primarySize slot)
    (wellFormed.guidAt_length pair.primary active)
    (wellFormed.guidAt_length pair.primary active.other)]
  by_cases same : slot = target
  · rw [if_pos same, decide_eq_true same]
    rfl
  · simp [same, inactive_flags]

/-- The target is the slot reported after a switch. -/
theorem activeSlotForBase_switched :
    (disk.switched primary backup active target).activeSlotForBase base =
      .ok (some target) := by
  have isActive := isSlotActive_switched wellFormed pair active target
  have reported := activeSlotForBase_of_pair
    (switched_hasPair wellFormed pair active target).primary
  rw [reported]
  change Except.ok (activeOf fun slot => recordAt
    (disk.switched primary backup active target).primaryEntries
      disk.primaryHeader.entrySize (primary slot)) = _
  simp only [activeOf, isActive]
  cases target <;> rfl

/-- An entry with another name keeps its attribute byte. -/
theorem attributeByte_switched {name : Name}
    (apart : ∀ slot, name ≠ slotName base slot) :
    (disk.switched primary backup active target).attributeByte name =
      disk.attributeByte name := by
  have lookups : findEntryIndex
      (disk.switched primary backup active target).primaryEntries
        disk.primaryHeader.entrySize name =
      findEntryIndex disk.primaryEntries disk.primaryHeader.entrySize name :=
    (findEntryIndexFrom_congr
      (sameNames_switched wellFormed pair active target) name 0).symm
  have entries : findEntry
      (disk.switched primary backup active target).primaryEntries
        disk.primaryHeader.entrySize name =
      findEntry disk.primaryEntries disk.primaryHeader.entrySize name := by
    simp only [findEntry, lookups]
    cases found : findEntryIndex disk.primaryEntries
        disk.primaryHeader.entrySize name with
    | error fault => rfl
    | ok position =>
        cases position with
        | none => rfl
        | some index =>
            have first := findEntryIndex_eq_some.mp found
            have outside : ∀ slot, index ≠ primary slot := by
              intro slot same
              exact apart slot ((same ▸ first).unique (pair.primary slot))
            have record := @recordAt_switchedTable_other _ _ _ _ target _ _
              pair.primary wellFormed.primarySize
              (wellFormed.guidAt_length pair.primary active)
              (wellFormed.guidAt_length pair.primary active.other) _ outside
            exact congrArg (fun record => Except.ok (some record)) record
  change (do
    let found ← findEntry
      (disk.switched primary backup active target).primaryEntries
        disk.primaryHeader.entrySize name
    return found.map fun entry => (entry[abFlagOffset]?).getD 0) = _
  rw [entries]
  rfl

theorem activeSlotForBase_switched_other {other : Name}
    (different : other ≠ base) :
    (disk.switched primary backup active target).activeSlotForBase other =
      disk.activeSlotForBase other := by
  have apart : ∀ left right, slotName other left ≠ slotName base right := by
    intro left right same
    exact different (slotName_inj same).1
  have attributeA := attributeByte_switched wellFormed pair active target
    (apart .a)
  have attributeB := attributeByte_switched wellFormed pair active target
    (apart .b)
  simp only [slotName] at attributeA attributeB
  simp only [activeSlotForBase, attributeA, attributeB]

/-- A second switch to the same target changes nothing. -/
theorem switched_switched_self :
    (disk.switched primary backup active target).switched primary backup
      target target = disk.switched primary backup active target := by
  have activeSized := wellFormed.guidAt_length pair.primary active
  have otherSized := wellFormed.guidAt_length pair.primary active.other
  have activeGuid : (disk.switched primary backup active target).guidAt
      primary target = disk.guidAt primary active := by
    rw [guidAt_switched wellFormed pair, if_pos rfl]
  have otherGuid : (disk.switched primary backup active target).guidAt
      primary target.other = disk.guidAt primary active.other := by
    rw [guidAt_switched wellFormed pair, if_neg target.other_ne]
  have activeUsed := wellFormed.guidAt_used pair.primary active
  have otherUsed := wellFormed.guidAt_used pair.primary active.other
  have primarySame := @switchedTable_switchedTable _ _ _ _ target _ _
    pair.primary wellFormed.primarySize activeSized otherSized activeUsed
    otherUsed
  have backupSame := @switchedTable_switchedTable _ _ _ _ target _ _
    pair.backup wellFormed.backupSize activeSized otherSized activeUsed
    otherUsed
  rw [switched, activeGuid, otherGuid]
  simp only [switched, primarySame, backupSame]

/-- Switching away from the reported slot and back restores the GUIDs. -/
theorem guidAt_switched_back (slot : Slot) :
    ((disk.switched primary backup active active.other).switched primary
      backup active.other active).guidAt primary slot =
      disk.guidAt primary slot := by
  have away := guidAt_switched wellFormed pair active active.other
  have awayPair := switched_hasPair wellFormed pair active active.other
  have awayWellFormed :=
    switched_wellFormed wellFormed pair active active.other
  rw [guidAt_switched awayWellFormed awayPair, away, away]
  cases active <;> cases slot <;> rfl

end SwitchedDisk

/-- What a switch to `target` does to one table: only the GUIDs and the
attribute bytes of the first used entries of the pair change. -/
structure TableSwitch (entrySize : Nat) (base : Name) (target : Slot)
    (activeGuid inactiveGuid before after : Bytes) (index : Slot → Nat) :
    Prop where
  pair : PairAt before entrySize base index
  length : after.length = before.length
  unchanged : ∀ position, ¬ Touched entrySize index position →
    after[position]? = before[position]?
  targetGuid :
    typeGuid (recordAt after entrySize (index target)) = activeGuid
  otherGuid :
    typeGuid (recordAt after entrySize (index target.other)) = inactiveGuid
  targetFlags :
    slotFlags (recordAt after entrySize (index target)) = abSlotActiveVal
  otherFlags :
    slotFlags (recordAt after entrySize (index target.other)) =
      slotFlags (recordAt before entrySize (index target.other)) &&&
        ~~~abPartitionAttrSlotActive

theorem tableSwitch_switchedTable {table : Bytes} {entrySize : Nat}
    {base : Name} {index : Slot → Nat} {target : Slot}
    {activeGuid inactiveGuid : Bytes}
    (pair : PairAt table entrySize base index)
    (size : gptMinEntrySize ≤ entrySize)
    (activeSized : activeGuid.length = typeGuidSize)
    (inactiveSized : inactiveGuid.length = typeGuidSize) :
    TableSwitch entrySize base target activeGuid inactiveGuid table
      (switchedTable table entrySize index target activeGuid inactiveGuid)
      index := by
  have record := @recordAt_switchedTable _ _ _ _ target _ _ pair size
    activeSized inactiveSized
  have guid := fun slot => @typeGuid_switchedRecord target slot _ _ _
    (pair.long size slot) activeSized inactiveSized
  have flags := fun slot => @slotFlags_switchedRecord target slot _ _ _
    (pair.long size slot) activeSized inactiveSized
  constructor
  case pair => exact pair
  case length => exact switchedTable_length pair size activeSized inactiveSized
  case unchanged =>
    intro position untouched
    exact getElem?_switchedTable pair size activeSized inactiveSized untouched
  case targetGuid => rw [record, guid, if_pos rfl]
  case otherGuid => rw [record, guid, if_neg target.other_ne]
  case targetFlags => rw [record, flags, if_pos rfl]
  case otherFlags => rw [record, flags, if_neg target.other_ne]

/-- The effect of a successful `set_active_pair` on a well-formed disk, which
is what `load` returns (`load_eq_ok`) and every call keeps. -/
theorem setActivePair_effect {disk after : GptDisk} {base : Name}
    {target : Slot} (wellFormed : disk.WellFormed)
    (updated : disk.setActivePair base target = (after, .ok .updated)) :
    ∃ active activeGuid inactiveGuid,
      disk.activeSlotForBase base = .ok (some active) ∧
      disk.slotGuid base active = .ok (some activeGuid) ∧
      disk.slotGuid base active.other = .ok (some inactiveGuid) ∧
      after = { disk with
        primaryEntries := after.primaryEntries
        backupEntries := after.backupEntries } ∧
      (∃ index, TableSwitch disk.primaryHeader.entrySize base target activeGuid
        inactiveGuid disk.primaryEntries after.primaryEntries index) ∧
      (∃ index, TableSwitch disk.backupHeader.entrySize base target activeGuid
        inactiveGuid disk.backupEntries after.backupEntries index) ∧
      after.activeSlotForBase base = .ok (some target) ∧
      (∀ other, other ≠ base →
        after.activeSlotForBase other = disk.activeSlotForBase other) ∧
      after.setActivePair base target = (after, .ok .updated) ∧
      ∃ away back,
        disk.setActivePair base active.other = (away, .ok .updated) ∧
        away.setActivePair base active = (back, .ok .updated) ∧
        ∀ slot, back.slotGuid base slot = disk.slotGuid base slot := by
  obtain ⟨primary, backup, active, pair, reported, rfl⟩ :=
    (setActivePair_eq_updated wellFormed).mp updated
  have activeSized := wellFormed.guidAt_length pair.primary active
  have otherSized := wellFormed.guidAt_length pair.primary active.other
  have afterPair := switched_hasPair wellFormed pair active target
  have afterWellFormed := switched_wellFormed wellFormed pair active target
  have afterReports := activeSlotForBase_switched wellFormed pair active target
  have awayPair := switched_hasPair wellFormed pair active active.other
  have awayWellFormed :=
    switched_wellFormed wellFormed pair active active.other
  have awayReports :=
    activeSlotForBase_switched wellFormed pair active active.other
  refine ⟨active, disk.guidAt primary active, disk.guidAt primary active.other,
    reported, slotGuid_of_pair pair.primary active,
    slotGuid_of_pair pair.primary active.other, rfl, ⟨primary, ?_⟩,
    ⟨backup, ?_⟩, afterReports, ?_, ?_, ?_⟩
  · exact tableSwitch_switchedTable pair.primary wellFormed.primarySize
      activeSized otherSized
  · exact tableSwitch_switchedTable pair.backup wellFormed.backupSize
      activeSized otherSized
  · intro other different
    exact activeSlotForBase_switched_other wellFormed pair active target
      different
  · have again := @setActivePair_of_pair _ afterWellFormed _ _ _ _ target
      afterPair afterReports
    rw [switched_switched_self wellFormed pair active target] at again
    exact again
  · refine ⟨_, _, setActivePair_of_pair wellFormed pair reported,
      setActivePair_of_pair awayWellFormed awayPair awayReports, ?_⟩
    intro slot
    have backPair :=
      switched_hasPair awayWellFormed awayPair active.other active
    rw [slotGuid_of_pair backPair.primary, slotGuid_of_pair pair.primary,
      guidAt_switched_back wellFormed pair active slot]

/-- The pair of the sample disk, switched to slot B. -/
theorem setActivePair_effect_bootPair :
    (switchedGpt 1).activeSlotForBase bootName = .ok (some .b) ∧
      (switchedGpt 1).setActivePair bootName .b =
        (switchedGpt 1, .ok .updated) := by
  have known : 1 = 1 ∨ 1 = 3 := .inl rfl
  have wellFormed : (bootGpt 1).WellFormed :=
    (pairGpt_wellFormed _ _ known bootEntries_length).refreshed
  obtain ⟨_, _, _, _, _, _, _, _, _, reported, _, again, _⟩ :=
    setActivePair_effect wellFormed (bootGpt_switches known)
  exact ⟨reported, again⟩

end GptDisk

end Pocketboot.AbSlots
