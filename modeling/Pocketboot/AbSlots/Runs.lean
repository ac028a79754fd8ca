import Pocketboot.AbSlots.Loaded

/-!
# Runs of slot updates

A slot update changes bytes inside the two entry arrays and nothing else, so
whatever `load` established about the headers survives any run of them, failed
calls included.
-/

namespace Pocketboot.AbSlots

open Storage

/-- Two disks that differ at most in the bytes of their entry arrays. -/
structure SameShape (before after : GptDisk) : Prop where
  disk : after.disk = before.disk
  primaryHeader : after.primaryHeader = before.primaryHeader
  backupHeader : after.backupHeader = before.backupHeader
  primaryHeaderBytes : after.primaryHeaderBytes = before.primaryHeaderBytes
  backupHeaderBytes : after.backupHeaderBytes = before.backupHeaderBytes
  primaryLength : after.primaryEntries.length = before.primaryEntries.length
  backupLength : after.backupEntries.length = before.backupEntries.length

namespace SameShape

theorem refl (disk : GptDisk) : SameShape disk disk :=
  ⟨rfl, rfl, rfl, rfl, rfl, rfl, rfl⟩

theorem trans {first second third : GptDisk}
    (left : SameShape first second) (right : SameShape second third) :
    SameShape first third :=
  ⟨right.disk.trans left.disk, right.primaryHeader.trans left.primaryHeader,
    right.backupHeader.trans left.backupHeader,
    right.primaryHeaderBytes.trans left.primaryHeaderBytes,
    right.backupHeaderBytes.trans left.backupHeaderBytes,
    right.primaryLength.trans left.primaryLength,
    right.backupLength.trans left.backupLength⟩

theorem wellFormed {before after : GptDisk} (same : SameShape before after)
    (wellFormed : before.WellFormed) : after.WellFormed := by
  have offset : ∀ lba, after.lbaOffset lba = before.lbaOffset lba := by
    intro lba
    simp [GptDisk.lbaOffset, same.disk]
  have blocks : after.totalBlocks = before.totalBlocks := by
    simp [GptDisk.totalBlocks, same.disk]
  constructor <;>
    simp only [blocks, offset, same.primaryHeader, same.backupHeader,
      same.primaryHeaderBytes, same.backupHeaderBytes, same.primaryLength,
      same.backupLength, same.disk]
  · exact wellFormed.blocks
  · exact wellFormed.primaryShape
  · exact wellFormed.backupShape
  · exact wellFormed.primaryFields
  · exact wellFormed.backupFields
  · exact wellFormed.primaryLength
  · exact wellFormed.backupLength
  · exact wellFormed.primaryTable
  · exact wellFormed.backupTable
  · exact wellFormed.primaryFits
  · exact wellFormed.backupFits
  · exact wellFormed.sameCount
  · exact wellFormed.sameSize

end SameShape

theorem updateSlotEntry_length (entry : Bytes) (active : Bool)
    {activeGuid inactiveGuid : Bytes} (long : gptMinEntrySize ≤ entry.length)
    (activeShort : activeGuid.length ≤ typeGuidSize)
    (inactiveShort : inactiveGuid.length ≤ typeGuidSize) :
    (updateSlotEntry entry active activeGuid inactiveGuid).length =
      entry.length := by
  have reach : 128 ≤ entry.length := long
  have activeBound : activeGuid.length ≤ 16 := activeShort
  have inactiveBound : inactiveGuid.length ≤ 16 := inactiveShort
  have activeLength : (Bytes.splice entry 0 activeGuid).length =
      entry.length := Bytes.splice_length (by omega)
  have inactiveLength : (Bytes.splice entry 0 inactiveGuid).length =
      entry.length := Bytes.splice_length (by omega)
  unfold updateSlotEntry
  cases active
  · simp only [Bool.false_eq_true, if_false]
    rw [Bytes.splice_length (by simp [abFlagOffset]; omega), inactiveLength]
  · simp only [if_true]
    rw [Bytes.splice_length (by simp [abFlagOffset]; omega), activeLength]

theorem updateTableEntry_length {table updated : Bytes}
    {entrySize index : Nat} {active : Bool} {activeGuid inactiveGuid : Bytes}
    (size : gptMinEntrySize ≤ entrySize)
    (activeShort : activeGuid.length ≤ typeGuidSize)
    (inactiveShort : inactiveGuid.length ≤ typeGuidSize)
    (updates : updateTableEntry table entrySize index active activeGuid
      inactiveGuid = .ok updated) :
    updated.length = table.length := by
  simp only [updateTableEntry, entryOffset, Run.bind_eq_ok,
    Run.ofOption_eq_ok, checkedMul_eq_some, checkedAdd_eq_some,
    Run.ensure_eq_ok, Run.pure_eq_ok, Except.ok.injEq] at updates
  obtain ⟨offset, ⟨product, _, stop, ⟨_, rfl⟩, _, inside, same⟩, rfl⟩ :=
    updates
  subst product
  have record : (Bytes.slice table offset (offset + entrySize)).length =
      entrySize := by
    rw [Bytes.slice_length_of_le inside]
    omega
  have updatedRecord := updateSlotEntry_length
    (Bytes.slice table offset (offset + entrySize)) active
    (by omega) activeShort inactiveShort
  rw [Bytes.splice_length (by omega)]

theorem updatePairTable_length {table updated : Bytes} {entrySize : Nat}
    {aName bName : Name} {target : Slot} {activeGuid inactiveGuid : Bytes}
    (size : gptMinEntrySize ≤ entrySize)
    (activeShort : activeGuid.length ≤ typeGuidSize)
    (inactiveShort : inactiveGuid.length ≤ typeGuidSize)
    (updates : updatePairTable table entrySize aName bName target activeGuid
      inactiveGuid = .ok updated) :
    updated.length = table.length := by
  simp only [updatePairTable, Run.bind_eq_ok] at updates
  obtain ⟨_, _, _, _, _, _, _, _, halfway, first, second⟩ := updates
  have firstLength :=
    updateTableEntry_length size activeShort inactiveShort first
  have secondLength :=
    updateTableEntry_length size activeShort inactiveShort second
  exact secondLength.trans firstLength

namespace GptDisk

theorem pairGuids_short {disk : GptDisk} {aName bName : Name}
    {activeGuid inactiveGuid : Bytes}
    (guids : disk.pairGuids aName bName =
      .ok (some (activeGuid, inactiveGuid))) :
    activeGuid.length ≤ typeGuidSize ∧ inactiveGuid.length ≤ typeGuidSize := by
  simp only [pairGuids, Run.bind_eq_ok] at guids
  obtain ⟨_, _, aEntry, _, _, _, bEntry, _, result⟩ := guids
  split at result
  · simp at result
  · split at result <;>
      · simp only [Run.pure_eq_ok, Except.ok.injEq, Option.some.injEq,
          Prod.mk.injEq] at result
        obtain ⟨rfl, rfl⟩ := result
        simp [typeGuidSize]

/-- One call of `set_active_pair`, whatever its outcome, keeps the shape. -/
theorem setActivePair_sameShape {disk : GptDisk} (wellFormed : disk.WellFormed)
    (base : Name) (target : Slot) :
    SameShape disk (disk.setActivePair base target).1 := by
  have primarySize : gptMinEntrySize ≤ disk.primaryHeader.entrySize := by
    rw [wellFormed.primaryFields]
    exact wellFormed.primaryShape.entrySize_ge
  have backupSize : gptMinEntrySize ≤ disk.backupHeader.entrySize := by
    rw [wellFormed.backupFields]
    exact wellFormed.backupShape.entrySize_ge
  unfold setActivePair
  dsimp only
  split
  · exact SameShape.refl disk
  · exact SameShape.refl disk
  · rename_i activeGuid inactiveGuid guids
    obtain ⟨activeShort, inactiveShort⟩ := pairGuids_short guids
    split
    · exact SameShape.refl disk
    · rename_i primary primaryUpdate
      have primaryLength := updatePairTable_length primarySize activeShort
        inactiveShort primaryUpdate
      split
      · exact ⟨rfl, rfl, rfl, rfl, rfl, primaryLength, rfl⟩
      · rename_i backup backupUpdate
        have backupLength := updatePairTable_length backupSize activeShort
          inactiveShort backupUpdate
        exact ⟨rfl, rfl, rfl, rfl, rfl, primaryLength, backupLength⟩

/-- The disk after a sequence of calls, failed calls included. -/
def afterCalls (disk : GptDisk) (calls : List (Name × Slot)) : GptDisk :=
  calls.foldl (fun disk call => (disk.setActivePair call.1 call.2).1) disk

theorem afterCalls_sameShape {disk : GptDisk} (wellFormed : disk.WellFormed)
    (calls : List (Name × Slot)) : SameShape disk (disk.afterCalls calls) := by
  induction calls generalizing disk with
  | nil => exact SameShape.refl disk
  | cons call rest induction =>
      have step := setActivePair_sameShape wellFormed call.1 call.2
      exact step.trans (induction (step.wellFormed wellFormed))

/-- The disk with all four checksums recomputed, in sectors and fields. -/
def refreshed (disk : GptDisk) : GptDisk :=
  { disk with
    primaryHeaderBytes :=
      refreshedHeader disk.primaryHeaderBytes disk.primaryEntries
    backupHeaderBytes :=
      refreshedHeader disk.backupHeaderBytes disk.backupEntries
    primaryHeader := { disk.primaryHeader with
      entryArrayCrc32 := (crc32Ieee disk.primaryEntries).toNat }
    backupHeader := { disk.backupHeader with
      entryArrayCrc32 := (crc32Ieee disk.backupEntries).toNat } }

@[simp] theorem refreshed_disk (disk : GptDisk) :
    disk.refreshed.disk = disk.disk := rfl

@[simp] theorem refreshed_lbaOffset (disk : GptDisk) (lba : Nat) :
    disk.refreshed.lbaOffset lba = disk.lbaOffset lba := rfl

@[simp] theorem refreshed_totalBlocks (disk : GptDisk) :
    disk.refreshed.totalBlocks = disk.totalBlocks := rfl

@[simp] theorem refreshed_primaryEntries (disk : GptDisk) :
    disk.refreshed.primaryEntries = disk.primaryEntries := rfl

@[simp] theorem refreshed_backupEntries (disk : GptDisk) :
    disk.refreshed.backupEntries = disk.backupEntries := rfl

theorem WellFormed.refreshed_checksums {disk : GptDisk}
    (wellFormed : disk.WellFormed) : disk.refreshed.Checksums :=
  ⟨refreshedHeader_crc wellFormed.primaryShape,
    refreshedHeader_crc wellFormed.backupShape, rfl, rfl⟩

theorem WellFormed.refreshed {disk : GptDisk} (wellFormed : disk.WellFormed) :
    disk.refreshed.WellFormed where
  blocks := wellFormed.blocks
  primaryShape := wellFormed.primaryShape.refreshed
  backupShape := wellFormed.backupShape.refreshed
  primaryFields := by
    simp only [GptDisk.refreshed,
      refreshedHeader_fields _ wellFormed.primaryShape.long,
      wellFormed.primaryFields]
  backupFields := by
    simp only [GptDisk.refreshed,
      refreshedHeader_fields _ wellFormed.backupShape.long,
      wellFormed.backupFields]
  primaryLength := (refreshedHeader_length _ wellFormed.primaryShape.long).trans
    wellFormed.primaryLength
  backupLength := (refreshedHeader_length _ wellFormed.backupShape.long).trans
    wellFormed.backupLength
  primaryTable := wellFormed.primaryTable
  backupTable := wellFormed.backupTable
  primaryFits := wellFormed.primaryFits
  backupFits := wellFormed.backupFits
  sameCount := wellFormed.sameCount
  sameSize := wellFormed.sameSize

/-- The writes of a commit: each header goes to the LBA it names as its own. -/
def headerNamedWrites (disk : GptDisk) : List (Write UInt8) :=
  [⟨disk.lbaOffset disk.primaryHeader.entriesLba, disk.primaryEntries⟩,
   ⟨disk.lbaOffset disk.primaryHeader.currentLba, disk.primaryHeaderBytes⟩,
   ⟨disk.lbaOffset disk.backupHeader.entriesLba, disk.backupEntries⟩,
   ⟨disk.lbaOffset disk.backupHeader.currentLba, disk.backupHeaderBytes⟩]

theorem updateCrcs_eq {disk : GptDisk} (wellFormed : disk.WellFormed) :
    disk.updateCrcs = .ok { disk with
      primaryHeaderBytes := disk.refreshed.primaryHeaderBytes
      backupHeaderBytes := disk.refreshed.backupHeaderBytes } := by
  have primary := updateCrc_eq_refreshedHeader
    disk.primaryEntries wellFormed.primaryShape
  have backup := updateCrc_eq_refreshedHeader
    disk.backupEntries wellFormed.backupShape
  obtain ⟨primaryHalf, primaryEntries, primaryHeader⟩ :=
    Run.bind_eq_ok.mp primary
  obtain ⟨backupHalf, backupEntries, backupHeader⟩ := Run.bind_eq_ok.mp backup
  simp only [updateCrcs, primaryEntries, backupEntries, primaryHeader,
    backupHeader, Run.ok_bind, Run.pure_eq_ok]
  rfl

theorem commitWrites_eq {disk : GptDisk} (wellFormed : disk.WellFormed)
    {primary backup : Bytes} :
    ({ disk with primaryHeaderBytes := primary
                 backupHeaderBytes := backup } : GptDisk).commitWrites =
      (({ disk with primaryHeaderBytes := primary
                    backupHeaderBytes := backup } :
        GptDisk).headerNamedWrites, .ok ()) := by
  have primaryEntries := disk.checkedLbaOffset_of_lt
    disk.primaryHeader.entriesLba (by
      rw [wellFormed.primaryFields]
      exact wellFormed.primaryShape.entriesLba_lt)
  have primaryHeader := disk.checkedLbaOffset_of_lt
    disk.primaryHeader.currentLba (by
      rw [wellFormed.primaryFields]
      exact wellFormed.primaryShape.currentLba_lt)
  have backupEntries := disk.checkedLbaOffset_of_lt
    disk.backupHeader.entriesLba (by
      rw [wellFormed.backupFields]
      exact wellFormed.backupShape.entriesLba_lt)
  have backupHeader := disk.checkedLbaOffset_of_lt
    disk.backupHeader.currentLba (by
      rw [wellFormed.backupFields]
      exact wellFormed.backupShape.currentLba_lt)
  simp [commitWrites, headerNamedWrites, lbaWrites, primaryEntries,
    primaryHeader, backupEntries, backupHeader, lbaOffset]

theorem commit_eq {disk : GptDisk} (wellFormed : disk.WellFormed)
    (io : CommitIo) (device : Device) :
    disk.commit io device =
      match io.openError with
      | some error => (device, Run.fail (.check error))
      | none =>
          writeAll io device (disk.refreshed.headerNamedWrites, .ok ()) := by
  unfold commit
  rw [updateCrcs_eq wellFormed]
  simp only [commitWrites_eq wellFormed]
  rfl

theorem writeAll_cases (io : CommitIo) (device : Device)
    (writes : List (Write UInt8)) :
    ∃ count, (writeAll io device (writes, .ok ())).1 = { device with
        byte := runWrites device.byte (takeCells count writes) } ∧
      ((writeAll io device (writes, .ok ())).2 = .ok () →
        totalCells writes ≤ count ∧
        totalCells writes ≤ cellsInside device.size writes) := by
  unfold writeAll
  dsimp only
  generalize (io.writeStop.map Prod.fst).getD (totalCells writes) = limit
  split
  · exact ⟨_, rfl, by simp⟩
  · rename_i complete
    have reached : totalCells writes ≤
        min (cellsInside device.size writes) limit := Nat.le_of_not_lt complete
    have inside : totalCells writes ≤ cellsInside device.size writes :=
      reached.trans (Nat.min_le_left _ _)
    cases io.syncError with
    | some error => exact ⟨_, rfl, by simp⟩
    | none => exact ⟨_, rfl, fun _ => ⟨reached, inside⟩⟩

/-- What any commit leaves on the device: a prefix of its writes, and the
whole of them when it succeeds. -/
theorem commit_cases {disk : GptDisk} (wellFormed : disk.WellFormed)
    (io : CommitIo) (device : Device) :
    ∃ count, (disk.commit io device).1 = { device with
        byte := runWrites device.byte
          (takeCells count disk.refreshed.headerNamedWrites) } ∧
      ((disk.commit io device).2 = .ok () →
        totalCells disk.refreshed.headerNamedWrites ≤ count ∧
        totalCells disk.refreshed.headerNamedWrites ≤
          cellsInside device.size disk.refreshed.headerNamedWrites) := by
  rw [commit_eq wellFormed]
  cases io.openError with
  | some error => exact ⟨0, by simp [runWrites_takeCells_zero], by simp⟩
  | none => exact writeAll_cases io device _

end GptDisk

end Pocketboot.AbSlots
