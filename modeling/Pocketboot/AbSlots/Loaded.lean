import Pocketboot.AbSlots.Header

/-!
# Loaded disks

`WellFormed` is what `load` establishes about the headers and table sizes of a
disk and what every slot update keeps.  `Holds` says that a device carries a
disk's sectors and tables where `load` reads them.
-/

namespace Pocketboot.AbSlots

open Storage

namespace GptDisk

def totalBlocks (disk : GptDisk) : Nat :=
  disk.disk.totalBytes / disk.disk.logicalBlockSize

/-- The byte offset of an LBA of the disk. -/
def lbaOffset (disk : GptDisk) (lba : Nat) : Nat :=
  lba * disk.disk.logicalBlockSize

/-- Acceptable header sectors, and tables of the sizes their headers give. -/
structure WellFormed (disk : GptDisk) : Prop where
  blocks : 2 ≤ disk.totalBlocks
  primaryShape : HeaderShape disk.primaryHeaderBytes disk.totalBlocks
  backupShape : HeaderShape disk.backupHeaderBytes disk.totalBlocks
  primaryFields : disk.primaryHeader = headerOf disk.primaryHeaderBytes
  backupFields : disk.backupHeader = headerOf disk.backupHeaderBytes
  primaryLength :
    disk.primaryHeaderBytes.length = disk.disk.logicalBlockSize
  backupLength : disk.backupHeaderBytes.length = disk.disk.logicalBlockSize
  primaryTable :
    tableBytes disk.primaryHeader = .ok disk.primaryEntries.length
  backupTable : tableBytes disk.backupHeader = .ok disk.backupEntries.length
  primaryFits : saturatingAdd (disk.lbaOffset disk.primaryHeader.entriesLba)
    disk.primaryEntries.length ≤ disk.disk.totalBytes
  backupFits : saturatingAdd (disk.lbaOffset disk.backupHeader.entriesLba)
    disk.backupEntries.length ≤ disk.disk.totalBytes
  sameCount : disk.primaryHeader.entryCount = disk.backupHeader.entryCount
  sameSize : disk.primaryHeader.entrySize = disk.backupHeader.entrySize

/-- The writes that put every part of the disk where `load` reads it. -/
def homeWrites (disk : GptDisk) : List (Write UInt8) :=
  [⟨disk.lbaOffset disk.primaryHeader.entriesLba, disk.primaryEntries⟩,
   ⟨disk.lbaOffset 1, disk.primaryHeaderBytes⟩,
   ⟨disk.lbaOffset disk.backupHeader.entriesLba, disk.backupEntries⟩,
   ⟨disk.lbaOffset disk.primaryHeader.backupLba, disk.backupHeaderBytes⟩]

/-- The four extents `load` reads. -/
def loadExtents (disk : GptDisk) : List Extent :=
  disk.homeWrites.map Write.extent

/-- The device carries the disk where `load` reads it. -/
def Holds (disk : GptDisk) (device : Device) : Prop :=
  ∀ write ∈ disk.homeWrites,
    write.offset + write.data.length ≤ device.size ∧
      readRange device.byte write.offset write.data.length = write.data

/-- All four checksums match. -/
structure Checksums (disk : GptDisk) : Prop where
  primaryHeader : HeaderCrcMatches disk.primaryHeaderBytes
  backupHeader : HeaderCrcMatches disk.backupHeaderBytes
  primary : (crc32Ieee disk.primaryEntries).toNat =
    disk.primaryHeader.entryArrayCrc32
  backup : (crc32Ieee disk.backupEntries).toNat =
    disk.backupHeader.entryArrayCrc32

theorem lbaOffset_lt (disk : GptDisk) {lba : Nat}
    (bound : lba < disk.totalBlocks) :
    disk.lbaOffset lba + disk.disk.logicalBlockSize ≤
      disk.disk.totalBytes := by
  have multiple : (lba + 1) * disk.disk.logicalBlockSize ≤
      disk.disk.totalBytes :=
    (Nat.mul_le_mul_right _ bound).trans (Nat.div_mul_le_self _ _)
  rw [Nat.add_mul, Nat.one_mul] at multiple
  exact multiple

theorem checkedLbaOffset_of_lt (disk : GptDisk) (lba : Nat)
    (bound : lba < disk.totalBlocks) :
    checkedLbaOffset lba disk.disk.logicalBlockSize =
      .ok (disk.lbaOffset lba) := by
  have inside := disk.lbaOffset_lt bound
  have limit := disk.disk.totalBytes_lt
  have positive := disk.disk.blockSize_ge
  have product : lba * disk.disk.logicalBlockSize < wordSize := by
    unfold lbaOffset at inside
    omega
  simp [checkedLbaOffset, lbaOffset, product]

end GptDisk

private theorem readExactAt_eq_ok {device : Device} {length offset : Nat}
    {bytes : Bytes} (positive : 0 < length) :
    device.readExactAt length offset = .ok bytes ↔
      offset + length ≤ device.size ∧
        readRange device.byte offset length = bytes := by
  unfold Device.readExactAt
  have nonzero : length ≠ 0 := by omega
  by_cases inside : offset + length ≤ device.size <;>
    simp [nonzero, inside]

private theorem tableBytes_pos {header : GptHeader} {bytes : Nat}
    (table : tableBytes header = .ok bytes) : 0 < bytes := by
  simp only [tableBytes, Run.bind_eq_ok, Run.ofOption_eq_ok, Run.ensure_eq_ok,
    Run.pure_eq_ok, Except.ok.injEq] at table
  obtain ⟨product, _, _, ⟨nonzero, _⟩, rfl⟩ := table
  omega

theorem readEntryArray_eq_ok (disk : Disk) {device : Device}
    {header : GptHeader} {entries : Bytes} :
    readEntryArray device.readExactAt disk header = .ok entries ↔
      tableBytes header = .ok entries.length ∧
      checkedLbaOffset header.entriesLba disk.logicalBlockSize =
        .ok (header.entriesLba * disk.logicalBlockSize) ∧
      saturatingAdd (header.entriesLba * disk.logicalBlockSize)
        entries.length ≤ disk.totalBytes ∧
      header.entriesLba * disk.logicalBlockSize + entries.length ≤
        device.size ∧
      readRange device.byte (header.entriesLba * disk.logicalBlockSize)
        entries.length = entries := by
  constructor
  · intro read
    simp only [readEntryArray, Run.bind_eq_ok, Run.ensure_eq_ok] at read
    obtain ⟨bytes, table, offset, place, _, fits, content⟩ := read
    have offsetValue : header.entriesLba * disk.logicalBlockSize = offset := by
      simp only [checkedLbaOffset, Run.ofOption_eq_ok,
        checkedMul_eq_some] at place
      exact place.2
    subst offset
    obtain ⟨inside, range⟩ :=
      (readExactAt_eq_ok (tableBytes_pos table)).mp content
    have length : entries.length = bytes := by rw [← range]; simp
    rw [length]
    exact ⟨table, place, fits, inside, range⟩
  · rintro ⟨table, place, fits, inside, range⟩
    simp only [readEntryArray, table, place, Run.ok_bind,
      Run.ensure_of fits]
    exact (readExactAt_eq_ok (tableBytes_pos table)).mpr ⟨inside, range⟩

theorem readLba_eq_ok (disk : GptDisk) {device : Device} {lba : Nat}
    {sector : Bytes} (bound : lba < disk.totalBlocks) :
    readLba device.readExactAt disk.disk.logicalBlockSize lba = .ok sector ↔
      sector.length = disk.disk.logicalBlockSize ∧
      disk.lbaOffset lba + sector.length ≤ device.size ∧
      readRange device.byte (disk.lbaOffset lba) sector.length = sector := by
  have positive : 0 < disk.disk.logicalBlockSize := by
    have := disk.disk.blockSize_ge
    omega
  simp only [readLba, disk.checkedLbaOffset_of_lt lba bound, Run.ok_bind,
    readExactAt_eq_ok positive]
  constructor
  · rintro ⟨inside, range⟩
    have length : sector.length = disk.disk.logicalBlockSize := by
      rw [← range]; simp
    rw [length]
    exact ⟨rfl, inside, range⟩
  · rintro ⟨length, inside, range⟩
    rw [length] at inside range
    exact ⟨inside, range⟩

/-- `load` succeeds exactly with a well-formed disk that the device holds and
whose tables match their checksums. -/
theorem load_eq_ok {disk : Disk} {device : Device} {gpt : GptDisk} :
    GptDisk.load disk (.ok device.readExactAt) = .ok gpt ↔
      gpt.disk = disk ∧ gpt.WellFormed ∧ gpt.Holds device ∧
        gpt.Checksums := by
  constructor
  · intro loaded
    simp only [GptDisk.load, Run.ok_bind, Run.bind_eq_ok, Run.ensure_eq_ok,
      validateEntryArrayCrc, parseGptHeader_eq_ok, readEntryArray_eq_ok,
      Run.pure_eq_ok, Except.ok.injEq] at loaded
    obtain ⟨_, blocks, primaryBytes, primaryRead, primaryHeader,
      ⟨primaryShape, primaryHeaderCrc, rfl⟩, backupBytes, backupRead, backupHeader,
      ⟨backupShape, backupHeaderCrc, rfl⟩, primaryEntries,
      ⟨primaryTable, _, primaryFits, primaryInside, primaryRange⟩,
      backupEntries, ⟨backupTable, _, backupFits, backupInside, backupRange⟩,
      _, primaryCrc, _, backupCrc, _, ⟨sameCount, sameSize⟩, rfl⟩ := loaded
    let gpt : GptDisk := ⟨disk, headerOf primaryBytes, headerOf backupBytes,
      primaryBytes, backupBytes, primaryEntries, backupEntries⟩
    have firstBlock : 1 < gpt.totalBlocks := blocks
    obtain ⟨primaryLength, primarySectorInside, primarySector⟩ :=
      (readLba_eq_ok gpt firstBlock).mp primaryRead
    obtain ⟨backupLength, backupSectorInside, backupSector⟩ :=
      (readLba_eq_ok gpt primaryShape.backupLba_lt).mp backupRead
    refine ⟨rfl, ⟨blocks, primaryShape, backupShape, rfl, rfl, primaryLength,
      backupLength, primaryTable, backupTable, primaryFits, backupFits,
      sameCount, sameSize⟩, ?_,
      ⟨primaryHeaderCrc, backupHeaderCrc, primaryCrc, backupCrc⟩⟩
    intro write member
    simp only [GptDisk.homeWrites, List.mem_cons, List.not_mem_nil,
      or_false] at member
    rcases member with rfl | rfl | rfl | rfl
    · exact ⟨primaryInside, primaryRange⟩
    · exact ⟨primarySectorInside, primarySector⟩
    · exact ⟨backupInside, backupRange⟩
    · exact ⟨backupSectorInside, backupSector⟩
  · rintro ⟨rfl, wellFormed, holds, checksums⟩
    have primaryPlace := gpt.checkedLbaOffset_of_lt
      gpt.primaryHeader.entriesLba (by
        rw [wellFormed.primaryFields]
        exact wellFormed.primaryShape.entriesLba_lt)
    have backupPlace := gpt.checkedLbaOffset_of_lt
      gpt.backupHeader.entriesLba (by
        rw [wellFormed.backupFields]
        exact wellFormed.backupShape.entriesLba_lt)
    have backupBound : gpt.primaryHeader.backupLba < gpt.totalBlocks := by
      rw [wellFormed.primaryFields]
      exact wellFormed.primaryShape.backupLba_lt
    have primarySector := (readLba_eq_ok gpt wellFormed.blocks).mpr
        ⟨wellFormed.primaryLength,
          holds ⟨gpt.lbaOffset 1, gpt.primaryHeaderBytes⟩
            (by simp [GptDisk.homeWrites])⟩
    have backupSector := (readLba_eq_ok gpt backupBound).mpr
        ⟨wellFormed.backupLength,
          holds ⟨gpt.lbaOffset gpt.primaryHeader.backupLba,
            gpt.backupHeaderBytes⟩ (by simp [GptDisk.homeWrites])⟩
    have primaryEntries := (readEntryArray_eq_ok gpt.disk).mpr
      ⟨wellFormed.primaryTable, primaryPlace, wellFormed.primaryFits,
        holds ⟨gpt.lbaOffset gpt.primaryHeader.entriesLba,
          gpt.primaryEntries⟩ (by simp [GptDisk.homeWrites])⟩
    have backupEntries := (readEntryArray_eq_ok gpt.disk).mpr
      ⟨wellFormed.backupTable, backupPlace, wellFormed.backupFits,
        holds ⟨gpt.lbaOffset gpt.backupHeader.entriesLba,
          gpt.backupEntries⟩ (by simp [GptDisk.homeWrites])⟩
    have primaryParse := parseGptHeader_eq_ok.mpr
      ⟨wellFormed.primaryShape, checksums.primaryHeader,
        wellFormed.primaryFields⟩
    have backupParse := parseGptHeader_eq_ok.mpr
      ⟨wellFormed.backupShape, checksums.backupHeader,
        wellFormed.backupFields⟩
    unfold GptDisk.totalBlocks at primaryParse backupParse
    simp only [GptDisk.load, Run.ok_bind, primarySector, primaryParse,
      backupSector, backupParse, primaryEntries, backupEntries,
      validateEntryArrayCrc, Run.ensure_of checksums.primary,
      Run.ensure_of checksums.backup,
      Run.ensure_of (And.intro wellFormed.sameCount wellFormed.sameSize)]
    have blocks := wellFormed.blocks
    unfold GptDisk.totalBlocks at blocks
    simp [Run.ensure_of blocks]

end Pocketboot.AbSlots
