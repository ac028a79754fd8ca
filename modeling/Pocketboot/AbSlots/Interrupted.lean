import Pocketboot.AbSlots.RoundTrip

/-!
# Interrupted commits

`commit` finishes the primary copy before it starts on the backup copy.  When
the extents of the two copies are disjoint, a commit that stops anywhere leaves
one of them readable: the old backup copy up to the end of the first phase, the
new primary copy after it.
-/

namespace Pocketboot.AbSlots

open Storage

/-- One of the two copies of the tables, with the LBA `load` reads it from. -/
structure Copy where
  lba : Nat
  header : GptHeader
  sector : Bytes
  table : Bytes

namespace Copy

/-- A valid copy on the device at the original location of `original`: its
header sector parses, its table fits the entry array checksum, outside the two
checksums its header is the original one, and its table is one of `tables`. -/
def ValidOn (original : Copy) (disk : Disk) (device : Device)
    (tables : List Bytes) : Prop :=
  ∃ sector header table,
    readLba device.readExactAt disk.logicalBlockSize original.lba =
      .ok sector ∧
    parseGptHeader sector (disk.totalBytes / disk.logicalBlockSize) =
      .ok header ∧
    readEntryArray device.readExactAt disk header = .ok table ∧
    validateEntryArrayCrc table header = .ok () ∧
    header =
      { original.header with entryArrayCrc32 := header.entryArrayCrc32 } ∧
    (∀ index, ¬(16 ≤ index ∧ index < 20) → ¬(88 ≤ index ∧ index < 92) →
      sector[index]? = original.sector[index]?) ∧
    table ∈ tables

/-- Two copies whose headers differ at most in the checksums. -/
structure SameButCrc (original copy : Copy) : Prop where
  lba : copy.lba = original.lba
  header : copy.header =
    { original.header with entryArrayCrc32 := copy.header.entryArrayCrc32 }
  sector : ∀ index, ¬(16 ≤ index ∧ index < 20) →
    ¬(88 ≤ index ∧ index < 92) →
    copy.sector[index]? = original.sector[index]?

/-- The writes that put a copy where `load` reads it. -/
def writes (disk : Disk) (copy : Copy) : List (Write UInt8) :=
  [⟨copy.header.entriesLba * disk.logicalBlockSize, copy.table⟩,
   ⟨copy.lba * disk.logicalBlockSize, copy.sector⟩]

end Copy

namespace GptDisk

def primaryCopy (disk : GptDisk) : Copy :=
  ⟨1, disk.primaryHeader, disk.primaryHeaderBytes, disk.primaryEntries⟩

def backupCopy (disk : GptDisk) : Copy :=
  ⟨disk.primaryHeader.backupLba, disk.backupHeader, disk.backupHeaderBytes,
    disk.backupEntries⟩

theorem homeWrites_eq_copies (disk : GptDisk) :
    disk.homeWrites = disk.primaryCopy.writes disk.disk ++
      disk.backupCopy.writes disk.disk := rfl

/-- A device that carries a copy of a disk has it as a valid copy. -/
theorem WellFormed.validOn_of_carries {disk : GptDisk} {device : Device}
    {copy original : Copy} {tables : List Bytes}
    (wellFormed : disk.WellFormed) (checksums : disk.Checksums)
    (known : copy = disk.primaryCopy ∨ copy = disk.backupCopy)
    (same : original.SameButCrc copy) (listed : copy.table ∈ tables)
    (carried : ∀ write ∈ copy.writes disk.disk,
      write.offset + write.data.length ≤ device.size ∧
        readRange device.byte write.offset write.data.length = write.data) :
    original.ValidOn disk.disk device tables := by
  have tableCarried := carried _ List.mem_cons_self
  have sectorCarried := carried _ (List.mem_cons_of_mem _ List.mem_cons_self)
  refine ⟨copy.sector, copy.header, copy.table, ?_, ?_, ?_, ?_, same.header,
    same.sector, listed⟩
  · rw [← same.lba]
    rcases known with rfl | rfl
    · exact (readLba_eq_ok disk wellFormed.blocks).mpr
        ⟨wellFormed.primaryLength, sectorCarried⟩
    · refine (readLba_eq_ok disk ?_).mpr ⟨wellFormed.backupLength, sectorCarried⟩
      rw [backupCopy, wellFormed.primaryFields]
      exact wellFormed.primaryShape.backupLba_lt
  · rcases known with rfl | rfl
    · exact parseGptHeader_eq_ok.mpr ⟨wellFormed.primaryShape,
        checksums.primaryHeader, wellFormed.primaryFields⟩
    · exact parseGptHeader_eq_ok.mpr ⟨wellFormed.backupShape,
        checksums.backupHeader, wellFormed.backupFields⟩
  · rcases known with rfl | rfl
    · refine (readEntryArray_eq_ok disk.disk).mpr ⟨wellFormed.primaryTable,
        disk.checkedLbaOffset_of_lt _ ?_, wellFormed.primaryFits, tableCarried⟩
      rw [primaryCopy, wellFormed.primaryFields]
      exact wellFormed.primaryShape.entriesLba_lt
    · refine (readEntryArray_eq_ok disk.disk).mpr ⟨wellFormed.backupTable,
        disk.checkedLbaOffset_of_lt _ ?_, wellFormed.backupFits, tableCarried⟩
      rw [backupCopy, wellFormed.backupFields]
      exact wellFormed.backupShape.entriesLba_lt
  · rcases known with rfl | rfl
    · exact Run.ensure_of checksums.primary _
    · exact Run.ensure_of checksums.backup _

end GptDisk

/-- One of the two copies is valid at its original location and holds the
loaded table or the updated one. -/
def HasValidCopy (loaded updated : GptDisk) (device : Device) : Prop :=
  loaded.primaryCopy.ValidOn loaded.disk device
      [loaded.primaryEntries, updated.primaryEntries] ∨
    loaded.backupCopy.ValidOn loaded.disk device
      [loaded.backupEntries, updated.backupEntries]

/-- The refreshed primary copy after any slot updates is the loaded one but
for its table and checksums. -/
private theorem refreshed_primaryCopy_same {loaded updated : GptDisk}
    (same : SameShape loaded updated) (wellFormed : loaded.WellFormed) :
    loaded.primaryCopy.SameButCrc updated.refreshed.primaryCopy where
  lba := rfl
  header := by
    simp [GptDisk.primaryCopy, GptDisk.refreshed, same.primaryHeader]
  sector := by
    intro index notHeaderCrc notEntriesCrc
    have long : gptMinHeaderSize ≤ updated.primaryHeaderBytes.length := by
      rw [same.primaryHeaderBytes]
      exact wellFormed.primaryShape.long
    have kept := refreshedHeader_getElem? updated.primaryEntries
      long notHeaderCrc notEntriesCrc
    rw [same.primaryHeaderBytes] at kept
    simpa [GptDisk.primaryCopy, GptDisk.refreshed, same.primaryHeaderBytes]
      using kept

/-- No address lies in both copies. -/
private theorem copies_apart {disk : GptDisk}
    (disjoint : disk.ExtentsDisjoint) {address : Nat}
    (inPrimary : Covered (disk.primaryCopy.writes disk.disk) address)
    (inBackup : Covered (disk.backupCopy.writes disk.disk) address) :
    False := by
  obtain ⟨primary, primaryListed, insidePrimary⟩ := inPrimary
  obtain ⟨backup, backupListed, insideBackup⟩ := inBackup
  have apart := List.pairwise_map.mp disjoint
  rw [GptDisk.homeWrites_eq_copies, List.pairwise_append] at apart
  exact apart.2.2 primary primaryListed backup backupListed address
    insidePrimary insideBackup

/-- Slot updates and fresh checksums leave the extents of both copies. -/
private theorem refreshed_copyExtents {loaded updated : GptDisk}
    (same : SameShape loaded updated) (wellFormed : loaded.WellFormed) :
    (updated.refreshed.primaryCopy.writes updated.disk).map Write.extent =
        (loaded.primaryCopy.writes loaded.disk).map Write.extent ∧
      (updated.refreshed.backupCopy.writes updated.disk).map Write.extent =
        (loaded.backupCopy.writes loaded.disk).map Write.extent := by
  have extents : updated.refreshed.loadExtents = loaded.loadExtents :=
    (GptDisk.refreshed_extents (same.wellFormed wellFormed)).1.trans
      same.extents.1
  simp only [GptDisk.loadExtents, GptDisk.homeWrites_eq_copies,
    List.map_append] at extents
  exact List.append_inj extents rfl

/-- After any number of written bytes one of the two copies is valid. -/
theorem prefix_hasValidCopy {loaded updated : GptDisk} {before : Device}
    (wellFormed : loaded.WellFormed) (holds : loaded.Holds before)
    (checksums : loaded.Checksums) (home : loaded.HeadersAtHome)
    (disjoint : loaded.ExtentsDisjoint) (same : SameShape loaded updated)
    (count : Nat) :
    HasValidCopy loaded updated { before with
      byte := runWrites before.byte
        (takeCells count updated.refreshed.headerNamedWrites) } := by
  have updatedFormed := same.wellFormed wellFormed
  have updatedHome : updated.refreshed.HeadersAtHome := by
    simpa [GptDisk.HeadersAtHome, GptDisk.refreshed, same.primaryHeader,
      same.backupHeader] using home
  obtain ⟨primaryExtents, backupExtents⟩ :=
    refreshed_copyExtents same wellFormed
  rw [updatedHome.writes_eq, GptDisk.homeWrites_eq_copies]
  rcases takeCells_two_phases before.byte
    (updated.refreshed.primaryCopy.writes updated.disk)
    (updated.refreshed.backupCopy.writes updated.disk) count with
    unfinished | finished
  · right
    refine wellFormed.validOn_of_carries checksums (.inr rfl)
      ⟨rfl, rfl, fun _ _ _ => rfl⟩ List.mem_cons_self ?_
    intro write listed
    obtain ⟨inside, reads⟩ := holds write (by
      rw [GptDisk.homeWrites_eq_copies]
      exact List.mem_append_right _ listed)
    refine ⟨inside, Eq.trans (readRange_congr ?_) reads⟩
    intro address member
    apply unfinished
    rw [covered_congr primaryExtents]
    intro inPrimary
    exact copies_apart disjoint inPrimary ⟨write, listed, member⟩
  · left
    rw [← same.disk]
    refine updatedFormed.refreshed.validOn_of_carries
      updatedFormed.refreshed_checksums (.inl rfl)
      (refreshed_primaryCopy_same same wellFormed)
      (List.mem_cons_of_mem _ List.mem_cons_self) ?_
    intro write listed
    have placed : write.extent ∈ loaded.loadExtents := by
      rw [GptDisk.loadExtents, GptDisk.homeWrites_eq_copies, List.map_append,
        ← primaryExtents]
      exact List.mem_append_left _ (List.mem_map_of_mem listed)
    have ordered : ((updated.refreshed.primaryCopy.writes
        updated.disk).map Write.extent).Pairwise Extent.Disjoint := by
      rw [primaryExtents]
      rw [GptDisk.ExtentsDisjoint, GptDisk.loadExtents,
        GptDisk.homeWrites_eq_copies, List.map_append,
        List.pairwise_append] at disjoint
      exact disjoint.1
    have carried := (agree_of_pairwise_disjoint
      (List.pairwise_map.mp ordered)).carries before.byte
    refine ⟨extents_inside holds write.extent placed,
      Eq.trans (readRange_congr ?_) (carried write listed)⟩
    intro address member
    apply finished
    rw [covered_congr backupExtents]
    intro inBackup
    exact copies_apart disjoint
      ((covered_congr primaryExtents).mp ⟨write, listed, member⟩) inBackup

/-- A commit stopped by a failing write after any number of bytes, or by the
death of the process there, leaves a valid copy. -/
theorem commit_interrupted_hasValidCopy {disk : Disk} {before : Device}
    {loaded : GptDisk} (calls : List (Name × Slot))
    (loads : GptDisk.load disk (.ok before.readExactAt) = .ok loaded)
    (home : loaded.HeadersAtHome) (disjoint : loaded.ExtentsDisjoint) :
    (∀ io, HasValidCopy loaded (loaded.afterCalls calls)
      ((loaded.afterCalls calls).commit io before).1) ∧
    ∀ ready count, (loaded.afterCalls calls).updateCrcs = .ok ready →
      HasValidCopy loaded (loaded.afterCalls calls) { before with
        byte := runWrites before.byte
          (takeCells count ready.commitWrites.1) } := by
  obtain ⟨rfl, wellFormed, holds, checksums⟩ := load_eq_ok.mp loads
  have same := GptDisk.afterCalls_sameShape wellFormed calls
  have updatedFormed := same.wellFormed wellFormed
  constructor
  · intro io
    obtain ⟨count, left, _⟩ := GptDisk.commit_cases updatedFormed io before
    rw [left]
    exact prefix_hasValidCopy wellFormed holds checksums home disjoint same
      count
  · intro ready count refreshes
    rw [GptDisk.updateCrcs_eq updatedFormed] at refreshes
    obtain rfl := Except.ok.inj refreshes
    rw [GptDisk.commitWrites_eq updatedFormed]
    exact prefix_hasValidCopy wellFormed holds checksums home disjoint same
      count

/-- The sample disk, stopped after 300 bytes of the commit. -/
theorem commit_interrupted_after300 :
    HasValidCopy (bootGpt 1) (switchedGpt 1)
      ((switchedGpt 1).commit { writeStop := some (300, ⟨.writeZero, ""⟩) }
        (formatted (bootGpt 1))).1 :=
  (commit_interrupted_hasValidCopy [(bootName, .b)]
    (load_pairGpt _ _ (.inl rfl) bootEntries_length) bootGpt_headersAtHome
    (pairGpt_placed _ _ (.inl rfl) bootEntries_length).1).1 _

end Pocketboot.AbSlots
