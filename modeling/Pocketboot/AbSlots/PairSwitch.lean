import Pocketboot.AbSlots.Records

/-!
# What a slot switch does to a pair

`setActivePair` marks one record of each slot in both tables: the marked record
has a new type GUID and a new A/B attribute byte, and is otherwise the old one.
Marking keeps every record used and every name, so later lookups find the same
records; the effect of a second switch follows from that.
-/

namespace Pocketboot.AbSlots

def Slot.other : Slot → Slot
  | .a => .b
  | .b => .a

theorem Slot.other_ne (slot : Slot) : slot.other ≠ slot := by
  cases slot <;> decide

/-- The partition name of a base's slot. -/
def slotName (base : Name) : Slot → Name
  | .a => base ++ ['_', 'a']
  | .b => base ++ ['_', 'b']

def typeGuid (record : Bytes) : Bytes := record.take typeGuidSize

def slotFlags (record : Bytes) : UInt8 := (record[abFlagOffset]?).getD 0

/-- A record with a new type GUID and a new A/B attribute byte. -/
def markRecord (record guid : Bytes) (flags : UInt8) : Bytes :=
  Bytes.splice (Bytes.splice record 0 guid) abFlagOffset [flags]

theorem slotName_inj {left right : Name} {slot other : Slot}
    (same : slotName left slot = slotName right other) :
    left = right ∧ slot = other := by
  cases slot <;> cases other <;>
    simpa [slotName] using (List.append_inj' same rfl)

section Marked

variable {record guid : Bytes} {flags : UInt8}
  (long : gptMinEntrySize ≤ record.length)
  (sized : guid.length = typeGuidSize)

include long sized

theorem getElem?_markRecord (position : Nat) :
    (markRecord record guid flags)[position]? =
      if position < typeGuidSize then guid[position]?
      else if position = abFlagOffset then some flags
      else record[position]? := by
  have reach : 128 ≤ record.length := long
  have width : guid.length = 16 := sized
  have inner : (Bytes.splice record 0 guid).length = record.length :=
    Bytes.splice_length (by omega)
  rw [markRecord, Bytes.getElem?_splice
      (by rw [inner]; simp only [abFlagOffset, List.length_singleton]; omega),
    Bytes.getElem?_splice (by omega)]
  have guidEnd : typeGuidSize = 16 := rfl
  have flagPlace : abFlagOffset = 54 := rfl
  by_cases low : position < typeGuidSize
  · rw [if_pos (by omega), if_neg (by omega), if_pos (by omega), if_pos low]
    rfl
  · rw [if_neg low]
    by_cases flagged : position = abFlagOffset
    · subst flagged
      simp
    · rw [if_neg flagged, if_neg (by omega : ¬ position < 0),
        if_neg (by omega : ¬ position < 0 + guid.length)]
      split
      · rfl
      · rw [if_neg (by simp only [List.length_singleton]; omega)]

theorem markRecord_length :
    (markRecord record guid flags).length = record.length := by
  have reach : 128 ≤ record.length := long
  have width : guid.length = 16 := sized
  have inner : (Bytes.splice record 0 guid).length = record.length :=
    Bytes.splice_length (by omega)
  rw [markRecord, Bytes.splice_length, inner]
  simp only [abFlagOffset, List.length_singleton]
  omega

theorem typeGuid_markRecord : typeGuid (markRecord record guid flags) = guid := by
  have width : guid.length = 16 := sized
  apply List.ext_getElem?
  intro position
  rw [typeGuid, List.getElem?_take, getElem?_markRecord long sized]
  by_cases low : position < typeGuidSize
  · simp [low]
  · have beyond : guid.length ≤ position := by rw [sized]; omega
    simp [low, beyond]

theorem slotFlags_markRecord :
    slotFlags (markRecord record guid flags) = flags := by
  rw [slotFlags, getElem?_markRecord long sized]
  rfl

theorem partitionName_markRecord :
    partitionName (markRecord record guid flags) = partitionName record := by
  have name : Bytes.slice (markRecord record guid flags) partitionNameOffset
      (partitionNameOffset + partitionNameBytes) =
      Bytes.slice record partitionNameOffset
        (partitionNameOffset + partitionNameBytes) := by
    apply List.ext_getElem?
    intro position
    rw [Bytes.getElem?_slice, Bytes.getElem?_slice,
      getElem?_markRecord long sized]
    have guidEnd : typeGuidSize = 16 := rfl
    have flagPlace : abFlagOffset = 54 := rfl
    have namePlace : partitionNameOffset = 56 := rfl
    rw [if_neg (by omega : ¬ partitionNameOffset + position < typeGuidSize),
      if_neg (by omega : ¬ partitionNameOffset + position = abFlagOffset)]
  rw [partitionName, partitionName, name, markRecord_length long sized]

theorem isUnusedEntry_markRecord :
    isUnusedEntry (markRecord record guid flags) = guid.all (· == 0) := by
  have marked : typeGuid (markRecord record guid flags) = guid :=
    typeGuid_markRecord long sized
  rw [typeGuid] at marked
  rw [isUnusedEntry, marked]

end Marked

theorem markRecord_self {record : Bytes}
    (long : gptMinEntrySize ≤ record.length) :
    markRecord record (typeGuid record) (slotFlags record) = record := by
  have reach : 128 ≤ record.length := long
  have sized : (typeGuid record).length = typeGuidSize := by
    simp only [typeGuid, List.length_take, typeGuidSize]
    omega
  apply List.ext_getElem?
  intro position
  rw [getElem?_markRecord long sized, typeGuid, List.getElem?_take]
  split
  · rfl
  · split
    · rename_i flagged
      subst flagged
      rw [slotFlags, List.getElem?_eq_getElem
        (show abFlagOffset < record.length by
          simp only [abFlagOffset]; omega)]
      rfl
    · rfl

/-- The record of a slot after a switch to `target`. -/
def switchedRecord (target slot : Slot) (activeGuid inactiveGuid : Bytes)
    (record : Bytes) : Bytes :=
  if slot = target then markRecord record activeGuid abSlotActiveVal
  else markRecord record inactiveGuid
    (slotFlags record &&& ~~~abPartitionAttrSlotActive)

theorem updateSlotEntry_eq (target slot : Slot)
    (activeGuid inactiveGuid record : Bytes) :
    updateSlotEntry record (target = slot) activeGuid inactiveGuid =
      switchedRecord target slot activeGuid inactiveGuid record := by
  by_cases same : slot = target
  · simp [updateSlotEntry, switchedRecord, markRecord, same]
  · have different : ¬ target = slot := fun equal => same equal.symm
    simp [updateSlotEntry, switchedRecord, markRecord, slotFlags, same,
      different]

section Switched

variable {target slot : Slot} {activeGuid inactiveGuid record : Bytes}
  (long : gptMinEntrySize ≤ record.length)
  (activeSized : activeGuid.length = typeGuidSize)
  (inactiveSized : inactiveGuid.length = typeGuidSize)

include long activeSized inactiveSized

theorem switchedRecord_length :
    (switchedRecord target slot activeGuid inactiveGuid record).length =
      record.length := by
  unfold switchedRecord
  split
  · exact markRecord_length long activeSized
  · exact markRecord_length long inactiveSized

theorem getElem?_switchedRecord {position : Nat}
    (outside : typeGuidSize ≤ position ∧ position ≠ abFlagOffset) :
    (switchedRecord target slot activeGuid inactiveGuid record)[position]? =
      record[position]? := by
  have past : ¬ position < typeGuidSize := by omega
  unfold switchedRecord
  split
  · rw [getElem?_markRecord long activeSized, if_neg past,
      if_neg outside.2]
  · rw [getElem?_markRecord long inactiveSized, if_neg past,
      if_neg outside.2]

theorem typeGuid_switchedRecord :
    typeGuid (switchedRecord target slot activeGuid inactiveGuid record) =
      if slot = target then activeGuid else inactiveGuid := by
  unfold switchedRecord
  split
  · exact typeGuid_markRecord long activeSized
  · exact typeGuid_markRecord long inactiveSized

theorem slotFlags_switchedRecord :
    slotFlags (switchedRecord target slot activeGuid inactiveGuid record) =
      if slot = target then abSlotActiveVal
      else slotFlags record &&& ~~~abPartitionAttrSlotActive := by
  unfold switchedRecord
  split
  · exact slotFlags_markRecord long activeSized
  · exact slotFlags_markRecord long inactiveSized

theorem partitionName_switchedRecord :
    partitionName (switchedRecord target slot activeGuid inactiveGuid record) =
      partitionName record := by
  unfold switchedRecord
  split
  · exact partitionName_markRecord long activeSized
  · exact partitionName_markRecord long inactiveSized

/-- Neither GUID is the zero GUID of an unused entry. -/
theorem isUnusedEntry_switchedRecord
    (activeUsed : activeGuid.all (· == 0) = false)
    (inactiveUsed : inactiveGuid.all (· == 0) = false) :
    isUnusedEntry
      (switchedRecord target slot activeGuid inactiveGuid record) = false := by
  unfold switchedRecord
  split
  · rw [isUnusedEntry_markRecord long activeSized, activeUsed]
  · rw [isUnusedEntry_markRecord long inactiveSized, inactiveUsed]

end Switched

/-- A record that already has the GUID and the flags stays as it is. -/
theorem switchedRecord_self {target slot : Slot}
    {activeGuid inactiveGuid record : Bytes}
    (long : gptMinEntrySize ≤ record.length)
    (guid : typeGuid record =
      if slot = target then activeGuid else inactiveGuid)
    (flags : slotFlags record =
      if slot = target then abSlotActiveVal
      else slotFlags record &&& ~~~abPartitionAttrSlotActive) :
    switchedRecord target slot activeGuid inactiveGuid record = record := by
  unfold switchedRecord
  split <;> rename_i same
  · rw [if_pos same] at guid flags
    rw [← guid, ← flags, markRecord_self long]
  · rw [if_neg same] at guid flags
    rw [← guid, ← flags, markRecord_self long]

/-- Switching a record twice is switching it once. -/
theorem switchedRecord_switchedRecord {target slot : Slot}
    {activeGuid inactiveGuid record : Bytes}
    (long : gptMinEntrySize ≤ record.length)
    (activeSized : activeGuid.length = typeGuidSize)
    (inactiveSized : inactiveGuid.length = typeGuidSize) :
    switchedRecord target slot activeGuid inactiveGuid
      (switchedRecord target slot activeGuid inactiveGuid record) =
      switchedRecord target slot activeGuid inactiveGuid record := by
  apply switchedRecord_self
  · rw [switchedRecord_length long activeSized inactiveSized]
    exact long
  · exact typeGuid_switchedRecord long activeSized inactiveSized
  · rw [slotFlags_switchedRecord long activeSized inactiveSized]
    split
    · rfl
    · rw [UInt8.and_assoc, UInt8.and_self]

end Pocketboot.AbSlots
