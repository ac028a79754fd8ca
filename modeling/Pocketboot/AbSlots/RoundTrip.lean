import Pocketboot.AbSlots.Runs

/-!
# Commit followed by load

`load` reads the primary header at LBA 1 and the backup header at the LBA the
primary names; `commit` writes each header to the LBA the header names for
itself.  The two agree exactly under `CommitInPlace`.
-/

namespace Pocketboot.AbSlots

open Storage

namespace GptDisk

/-- The headers sit at the LBAs their `current_lba` fields name. -/
def HeadersAtHome (disk : GptDisk) : Prop :=
  disk.primaryHeader.currentLba = 1 ∧
    disk.backupHeader.currentLba = disk.primaryHeader.backupLba

/-- The two header sectors and the two entry arrays do not overlap. -/
def ExtentsDisjoint (disk : GptDisk) : Prop :=
  disk.loadExtents.Pairwise Extent.Disjoint

theorem HeadersAtHome.writes_eq {disk : GptDisk}
    (home : disk.HeadersAtHome) :
    disk.headerNamedWrites = disk.homeWrites := by
  simp [headerNamedWrites, homeWrites, home.1, home.2]

/-- The extents `commit` writes. -/
def commitExtents (disk : GptDisk) : List Extent :=
  disk.headerNamedWrites.map Write.extent

/-- Refreshing the checksums moves none of the extents. -/
theorem refreshed_extents {disk : GptDisk} (wellFormed : disk.WellFormed) :
    disk.refreshed.loadExtents = disk.loadExtents ∧
      disk.refreshed.commitExtents = disk.commitExtents := by
  have primary : disk.refreshed.primaryHeaderBytes.length =
      disk.primaryHeaderBytes.length :=
    refreshedHeader_length _ wellFormed.primaryShape.long
  have backup : disk.refreshed.backupHeaderBytes.length =
      disk.backupHeaderBytes.length :=
    refreshedHeader_length _ wellFormed.backupShape.long
  constructor <;>
    · simp only [loadExtents, homeWrites, commitExtents, headerNamedWrites,
        List.map_cons, List.map_nil, Write.extent, primary, backup]
      rfl

end GptDisk

theorem SameShape.extents {before after : GptDisk}
    (same : SameShape before after) :
    after.loadExtents = before.loadExtents ∧
      after.commitExtents = before.commitExtents := by
  have offset : ∀ lba, after.lbaOffset lba = before.lbaOffset lba := by
    intro lba
    simp [GptDisk.lbaOffset, same.disk]
  constructor <;>
    simp [GptDisk.loadExtents, GptDisk.homeWrites, GptDisk.commitExtents,
      GptDisk.headerNamedWrites, Write.extent, offset, same.primaryHeader,
      same.backupHeader, same.primaryHeaderBytes, same.backupHeaderBytes,
      same.primaryLength, same.backupLength]

/-- The extents `load` reads stay inside the device under updates. -/
theorem extents_inside {disk : GptDisk} {device : Device}
    (holds : disk.Holds device) :
    ∀ extent ∈ disk.loadExtents, extent.offset + extent.length ≤
      device.size := by
  intro extent member
  obtain ⟨write, listed, rfl⟩ := List.mem_map.mp member
  exact (holds write listed).1

/-- A device formatted with a disk's refreshed sectors and tables loads. -/
theorem load_formatted {disk : GptDisk} (wellFormed : disk.WellFormed)
    (content : Nat → UInt8) {size : Nat}
    (agree : Agree disk.refreshed.homeWrites)
    (inside : ∀ extent ∈ disk.loadExtents,
      extent.offset + extent.length ≤ size) :
    GptDisk.load disk.disk (.ok (Device.mk size
      (runWrites content disk.refreshed.homeWrites)).readExactAt) =
        .ok disk.refreshed := by
  refine load_eq_ok.mpr ⟨rfl, wellFormed.refreshed, ?_,
    wellFormed.refreshed_checksums⟩
  intro write listed
  have within := inside write.extent (by
    rw [← (GptDisk.refreshed_extents wellFormed).1]
    exact List.mem_map_of_mem listed)
  exact ⟨within, agree.carries _ write listed⟩

def bootName : Name := "boot".toList

/-- A used entry whose type GUID repeats one byte. -/
def entryRecord (guid flags : UInt8) (name : Name) : Bytes :=
  List.replicate 16 guid ++ List.replicate 38 0 ++ [flags, 0] ++
    name.flatMap (fun letter => [UInt8.ofNat letter.toNat, 0]) ++
    List.replicate (72 - 2 * name.length) 0

/-- A header sector of 512 bytes for two entries of 128 bytes. -/
def headerRecord (currentLba backupLba entriesLba : Nat) : Bytes :=
  gptSignature ++ Bytes.toLe 4 0x10000 ++ Bytes.toLe 4 92 ++ Bytes.toLe 8 0 ++
    Bytes.toLe 8 currentLba ++ Bytes.toLe 8 backupLba ++ Bytes.toLe 8 4 ++
    Bytes.toLe 8 4 ++ List.replicate 16 0 ++ Bytes.toLe 8 entriesLba ++
    Bytes.toLe 4 2 ++ Bytes.toLe 4 128 ++ Bytes.toLe 4 0 ++
    List.replicate 420 0

/-- Eight LBAs: headers at 1 and 6, entry arrays at 2 and 5. -/
def pairDisk (name : Name)
    (sysfs : Run IoError (List (Run IoError SysfsEntry))) : Disk where
  name := name
  logicalBlockSize := 512
  totalBytes := 8 * 512
  sysfs := sysfs
  blockSize_ge := by decide
  totalBytes_lt := by decide

/-- The tables of a disk with one used pair, its slot A active. -/
def pairGpt (disk : Disk) (primaryLba : Nat) (entries : Bytes) : GptDisk where
  disk := disk
  primaryHeader := headerOf (headerRecord primaryLba 6 2)
  backupHeader := headerOf (headerRecord 6 1 5)
  primaryHeaderBytes := headerRecord primaryLba 6 2
  backupHeaderBytes := headerRecord 6 1 5
  primaryEntries := entries
  backupEntries := entries

def bootEntries : Bytes :=
  entryRecord 0x11 0x0f (bootName ++ "_a".toList) ++
    entryRecord 0x22 0 (bootName ++ "_b".toList)

/-- The sysfs directory of a partition with the given name. -/
def partitionEntry (name : Name) : Run IoError SysfsEntry :=
  .ok ⟨true, some ("PARTNAME=".toList ++ name)⟩

def bootDisk : Disk :=
  pairDisk "sda".toList
    (.ok (["boot_a".toList, "boot_b".toList].map partitionEntry))

/-- The tables of `bootDisk` with the given `current_lba` in the primary
header. -/
def bootGpt (primaryLba : Nat) : GptDisk :=
  (pairGpt bootDisk primaryLba bootEntries).refreshed

/-- The device that carries a disk's sectors and tables, zero elsewhere. -/
def formatted (disk : GptDisk) : Device where
  size := disk.disk.totalBytes
  byte := runWrites (fun _ => 0) disk.homeWrites

private theorem headerRecord_shape :
    HeaderShape (headerRecord 1 6 2) 8 ∧ HeaderShape (headerRecord 3 6 2) 8 ∧
      HeaderShape (headerRecord 6 1 5) 8 := by
  refine ⟨?_, ?_, ?_⟩ <;> constructor <;> decide +kernel

private theorem headerRecord_length (currentLba backupLba entriesLba : Nat) :
    (headerRecord currentLba backupLba entriesLba).length = 512 := by
  have signature : gptSignature.length = 8 := rfl
  simp only [headerRecord, List.length_append, Bytes.toLe_length,
    List.length_replicate, signature]

private theorem headerRecord_fields {primaryLba : Nat}
    (known : primaryLba = 1 ∨ primaryLba = 3) :
    headerOf (headerRecord primaryLba 6 2) = ⟨primaryLba, 6, 2, 2, 128, 0⟩ ∧
      headerOf (headerRecord 6 1 5) = ⟨6, 1, 5, 2, 128, 0⟩ := by
  rcases known with rfl | rfl <;> decide +kernel

theorem pairGpt_wellFormed (name : Name)
    (sysfs : Run IoError (List (Run IoError SysfsEntry)))
    {primaryLba : Nat} {entries : Bytes}
    (known : primaryLba = 1 ∨ primaryLba = 3)
    (length : entries.length = 256) :
    (pairGpt (pairDisk name sysfs) primaryLba entries).WellFormed := by
  obtain ⟨atOne, atThree, atSix⟩ := headerRecord_shape
  have shape : HeaderShape (headerRecord primaryLba 6 2) 8 := by
    rcases known with rfl | rfl
    · exact atOne
    · exact atThree
  have blocks : (pairGpt (pairDisk name sysfs) primaryLba
      entries).totalBlocks = 8 := by
    simp [GptDisk.totalBlocks, pairGpt, pairDisk]
  obtain ⟨primary, backup⟩ := headerRecord_fields known
  have table : ∀ header : GptHeader, header.entryCount = 2 →
      header.entrySize = 128 → tableBytes header = .ok entries.length := by
    intro header count size
    simp [tableBytes, checkedMul, wordSize, count, size, length,
      gptTableMaxBytes, Run.ensure, Run.ofOption]
  constructor
  · simp [blocks]
  · rw [blocks]
    exact shape
  · rw [blocks]
    exact atSix
  · rfl
  · rfl
  · exact headerRecord_length _ _ _
  · exact headerRecord_length _ _ _
  · exact table _ (by simp only [pairGpt, primary])
      (by simp only [pairGpt, primary])
  · exact table _ (by simp only [pairGpt, backup])
      (by simp only [pairGpt, backup])
  · simp only [pairGpt, primary, length]
    change saturatingAdd (2 * 512) 256 ≤ 8 * 512
    decide
  · simp only [pairGpt, backup, length]
    change saturatingAdd (5 * 512) 256 ≤ 8 * 512
    decide
  · simp only [pairGpt, primary, backup]
  · simp only [pairGpt, primary, backup]

/-- The extents and the commit writes of a sample disk. -/
theorem pairGpt_extents (name : Name)
    (sysfs : Run IoError (List (Run IoError SysfsEntry)))
    {primaryLba : Nat} {entries : Bytes}
    (known : primaryLba = 1 ∨ primaryLba = 3)
    (length : entries.length = 256) :
    (pairGpt (pairDisk name sysfs) primaryLba
        entries).refreshed.loadExtents =
      [⟨1024, 256⟩, ⟨512, 512⟩, ⟨2560, 256⟩, ⟨3072, 512⟩] ∧
    (pairGpt (pairDisk name sysfs) primaryLba
        entries).refreshed.commitExtents =
      [⟨1024, 256⟩, ⟨primaryLba * 512, 512⟩, ⟨2560, 256⟩, ⟨3072, 512⟩] := by
  have wellFormed := pairGpt_wellFormed name sysfs known length
  obtain ⟨primary, backup⟩ := headerRecord_fields known
  have primarySector := wellFormed.refreshed.primaryLength
  have backupSector := wellFormed.refreshed.backupLength
  simp only [GptDisk.loadExtents, GptDisk.homeWrites, GptDisk.commitExtents,
    GptDisk.headerNamedWrites, List.map_cons, List.map_nil, Write.extent,
    primarySector, backupSector]
  simp [GptDisk.refreshed, pairGpt, pairDisk, GptDisk.lbaOffset, primary,
    backup, length]

/-- The extents of a sample disk are disjoint and inside its device. -/
theorem pairGpt_placed (name : Name)
    (sysfs : Run IoError (List (Run IoError SysfsEntry)))
    {primaryLba : Nat} {entries : Bytes}
    (known : primaryLba = 1 ∨ primaryLba = 3)
    (length : entries.length = 256) :
    let disk := (pairGpt (pairDisk name sysfs) primaryLba
      entries).refreshed
    disk.ExtentsDisjoint ∧
      (∀ extent ∈ disk.loadExtents, extent.offset + extent.length ≤ 4096) ∧
      ∀ extent ∈ disk.commitExtents,
        extent.offset + extent.length ≤ 4096 := by
  obtain ⟨home, named⟩ := pairGpt_extents name sysfs known length
  refine ⟨?_, ?_, ?_⟩
  · rw [GptDisk.ExtentsDisjoint, home]
    have apart : List.Pairwise (fun left right : Extent =>
        left.offset + left.length ≤ right.offset ∨
          right.offset + right.length ≤ left.offset)
        [⟨1024, 256⟩, ⟨512, 512⟩, ⟨2560, 256⟩, ⟨3072, 512⟩] := by decide
    exact apart.imp Extent.disjoint_of_le
  · rw [home]
    decide
  · rw [named]
    rcases known with rfl | rfl <;> decide

/-- A fresh disk of this kind loads from the device that carries it. -/
theorem load_pairGpt (name : Name)
    (sysfs : Run IoError (List (Run IoError SysfsEntry)))
    {primaryLba : Nat} {entries : Bytes}
    (known : primaryLba = 1 ∨ primaryLba = 3)
    (length : entries.length = 256) :
    GptDisk.load (pairDisk name sysfs) (.ok (formatted
      (pairGpt (pairDisk name sysfs) primaryLba
        entries).refreshed).readExactAt) =
      .ok (pairGpt (pairDisk name sysfs) primaryLba
        entries).refreshed := by
  have wellFormed := pairGpt_wellFormed name sysfs known length
  obtain ⟨disjoint, inside, _⟩ := pairGpt_placed name sysfs known length
  rw [(GptDisk.refreshed_extents wellFormed).1] at inside
  exact load_formatted wellFormed (fun _ => 0)
    (agree_of_pairwise_disjoint (List.pairwise_map.mp disjoint)) inside

theorem bootEntries_length : bootEntries.length = 256 := by
  decide +kernel

/-- The sample disk after its pair was switched to slot B. -/
def switchedGpt (primaryLba : Nat) : GptDisk :=
  (bootGpt primaryLba).afterCalls [(bootName, .b)]

theorem bootGpt_switches {primaryLba : Nat}
    (known : primaryLba = 1 ∨ primaryLba = 3) :
    (bootGpt primaryLba).setActivePair bootName .b =
      (switchedGpt primaryLba, .ok .updated) := by
  have outcome : ((bootGpt primaryLba).setActivePair bootName .b).2 =
      .ok .updated := by
    rcases known with rfl | rfl <;> decide +kernel
  exact Prod.ext rfl outcome

theorem bootGpt_headersAtHome : (bootGpt 1).HeadersAtHome := by
  obtain ⟨primary, backup⟩ := headerRecord_fields (.inl rfl : 1 = 1 ∨ 1 = 3)
  simp only [GptDisk.HeadersAtHome, bootGpt, GptDisk.refreshed, pairGpt,
    primary, backup, and_self]

end Pocketboot.AbSlots
