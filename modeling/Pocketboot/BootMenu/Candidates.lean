import Pocketboot.AbSlots.Disks
import Pocketboot.BootMenu.Entries
import Pocketboot.Sorting.Stable

/-!
# Boot partition candidates of a disk

The three scanners of one disk: its GPT, its MBR, and the MBRs nested in its
userdata partitions.  What the scanners read (the tables, the sysfs directory,
the loop devices) is a field of the disk; a scanner that fails adds nothing.
-/

namespace Pocketboot.BootMenu

open AbSlots (readTrimmed ueventValue)
open Sorting

def gptMinEntrySize : Nat := 128
def mbrSignature : Bytes := [0x55, 0xaa]
def mbrPartitionTableOffset : Nat := 0x1be
def mbrPartitionEntrySize : Nat := 16
def mbrPrimaryPartitions : Nat := 4
def mbrXbootldrType : Nat := 0xea
def mbrLinuxPartitionType : Nat := 0x83
def defaultLogicalBlockSize : Nat := 512
def userdataPartname : Text := "userdata".toList

def espGuid : Bytes :=
  [0x28, 0x73, 0x2a, 0xc1, 0x1f, 0xf8, 0xd2, 0x11,
   0xba, 0x4b, 0x00, 0xa0, 0xc9, 0x3e, 0xc9, 0x3b]

def xbootldrGuid : Bytes :=
  [0xff, 0xc2, 0x13, 0xbc, 0xe6, 0x59, 0x62, 0x42,
   0xa3, 0x52, 0xb2, 0x75, 0xfd, 0x6f, 0x71, 0x72]

def BootPartitionRole.priority : BootPartitionRole → Nat
  | .xbootldr => 0
  | .esp => 1
  | .nested => 2

structure BootPartitionCandidate where
  disk : Text
  partition : Text
  partno : Nat
  role : BootPartitionRole
  devPath : Text
  removable : Bool
  deriving DecidableEq, Repr

/-- An entry of a disk's sysfs directory, with the contents of its files that
can be read. -/
structure SysfsEntry where
  name : Text
  /-- It has a `partition` file. -/
  isPartition : Bool
  partition : Option Text
  uevent : Option Text
  size : Option Text
  /-- Its device node exists. -/
  devExists : Bool

/-- The partition table a GPT header leads to. -/
structure GptTable where
  totalBlocks : Nat
  firstUsableLba : Nat
  lastUsableLba : Nat
  entryCount : Nat
  entrySize : Nat
  table : Bytes

/-- A partition of a nested MBR. -/
structure MbrPartition where
  isUsed : Bool
  isActive : Bool
  sys : Nat
  startingLba : Nat
  sectors : Nat

/-- The name of a directory entry that could be read. -/
def entryName (entry : Run IoError SysfsEntry) : Option Text :=
  (Run.toOption entry).map SysfsEntry.name

/-- A disk and what its scanners read. -/
structure DiskCandidate where
  name : Text
  removable : Bool
  sectors512 : Nat
  /-- The checked partition table of its GPT. -/
  gpt : Run IoError GptTable
  /-- Its first sector. -/
  mbr : Run IoError Bytes
  /-- The listing of its sysfs directory. -/
  sysfs : Run IoError (List (Run IoError SysfsEntry))
  /-- The partitions of the MBR in one of its partitions, from number 1 on. -/
  nestedMbr : Text → Run IoError (List MbrPartition)
  /-- The loop device made for a part of one of its partitions. -/
  loopMapping : Text → Nat → Nat → Run IoError Text
  /-- The names in a directory are distinct. -/
  distinct : ∀ listed, sysfs = .ok listed → (listed.filterMap entryName).Nodup

def devPathOf (name : Text) : Text := "/dev/".toList ++ name

/-- The number in the `partition` file of a directory entry. -/
def SysfsEntry.partno (entry : SysfsEntry) : Option Nat :=
  (readTrimmed entry.partition).bind (Text.parseU32 10)

/-- The loop of `partition_name_for_partno`. -/
def partitionNameFrom (partno : Nat) :
    List (Run IoError SysfsEntry) → Run IoError (Option Text)
  | [] => return none
  | entry :: rest => do
      let found ← entry
      if found.isPartition ∧ found.partno = some partno then
        return some found.name
      else partitionNameFrom partno rest

namespace DiskCandidate

def partitionNameForPartno (disk : DiskCandidate) (partno : Nat) :
    Run IoError (Option Text) := do
  let listed ← disk.sysfs
  partitionNameFrom partno listed

/-- A candidate on a partition the kernel has a device for. -/
def kernelCandidate (disk : DiskCandidate) (partition : Text) (partno : Nat)
    (role : BootPartitionRole) : BootPartitionCandidate where
  disk := disk.name
  partition := partition
  partno := partno
  role := role
  devPath := devPathOf partition
  removable := disk.removable

/-- The candidate of a partition number, when the kernel has its device. -/
def candidateForPartno (disk : DiskCandidate) (partno : Nat)
    (role : BootPartitionRole) : Run IoError (List BootPartitionCandidate) := do
  let found ← disk.partitionNameForPartno partno
  match found with
  | none => return []
  | some partition => return [disk.kernelCandidate partition partno role]

end DiskCandidate

structure GptEntry where
  partno : Nat
  typeGuid : Bytes
  firstLba : Nat
  lastLba : Nat

def GptEntry.isUnused (entry : GptEntry) : Bool :=
  entry.typeGuid.all (· == 0)

def parseGptEntry (raw : Bytes) (partno : Nat) : Run IoError GptEntry := do
  Run.ensure (gptMinEntrySize ≤ raw.length)
    (invalidData "GPT partition entry is too short")
  return { partno
           typeGuid := raw.take 16
           firstLba := Bytes.ofLe (Bytes.slice raw 32 40)
           lastLba := Bytes.ofLe (Bytes.slice raw 40 48) }

def bootRoleForGuid (guid : Bytes) : Option BootPartitionRole :=
  if guid = xbootldrGuid then some .xbootldr
  else if guid = espGuid then some .esp
  else none

/-- The record of a table at an index. -/
def gptRecord (table : GptTable) (index : Nat) : Run IoError Bytes := do
  let offset ← Run.ofOption
    (invalidData "GPT partition entry offset overflows")
    (checkedMul index table.entrySize)
  let stop ← Run.ofOption (invalidData "GPT partition entry end overflows")
    (checkedAdd offset table.entrySize)
  Run.ensure (stop ≤ table.table.length)
    (invalidData "GPT partition entry exceeds table")
  return Bytes.slice table.table offset stop

/-- The body of the loop over the GPT entries. -/
def gptCandidate (disk : DiskCandidate) (table : GptTable) (index : Nat) :
    Run IoError (List BootPartitionCandidate) := do
  let raw ← gptRecord table index
  let entry ← parseGptEntry raw (index + 1)
  if entry.isUnused then return []
  else if entry.firstLba < table.firstUsableLba ∨
      table.lastUsableLba < entry.lastLba ∨
      table.totalBlocks ≤ entry.lastLba ∨ entry.lastLba < entry.firstLba then
    return []
  else
    match bootRoleForGuid entry.typeGuid with
    | none => return []
    | some role => disk.candidateForPartno entry.partno role

/-- A loop that appends what its body gives for each item. -/
def collect {α : Type} (body : α → Run IoError (List BootPartitionCandidate)) :
    List α → Run IoError (List BootPartitionCandidate)
  | [] => return []
  | item :: rest => do
      let first ← body item
      let others ← collect body rest
      return first ++ others

def gptBootPartitions (disk : DiskCandidate) :
    Run IoError (List BootPartitionCandidate) := do
  let table ← disk.gpt
  collect (gptCandidate disk table) (List.range table.entryCount)

/-- The body of the loop of `parse_mbr_boot_entries`. -/
def parseMbrBootEntry (raw : Bytes) (diskSectors512 index : Nat) :
    Run IoError (List Nat) := do
  let offset := mbrPartitionTableOffset + index * mbrPartitionEntrySize
  let entry := Bytes.slice raw offset (offset + mbrPartitionEntrySize)
  if (entry[4]?.map UInt8.toNat) ≠ some mbrXbootldrType then return []
  else
    let startLba := Bytes.ofLe (Bytes.slice entry 8 12)
    let sectorCount := Bytes.ofLe (Bytes.slice entry 12 16)
    if startLba = 0 ∨ sectorCount = 0 then return []
    else
      let endLba ← Run.ofOption
        (invalidData "MBR boot partition end LBA overflows")
        (checkedAdd startLba (sectorCount - 1))
      if diskSectors512 ≠ 0 ∧ diskSectors512 ≤ endLba then return []
      else return [index + 1]

def parseMbrBootEntries (raw : Bytes) (diskSectors512 : Nat) :
    Run IoError (List Nat) := do
  Run.ensure (512 ≤ raw.length ∧ Bytes.slice raw 510 512 = mbrSignature)
    (invalidData "missing MBR signature")
  let entries ← (List.range mbrPrimaryPartitions).mapM
    (parseMbrBootEntry raw diskSectors512)
  return entries.flatten

def mbrBootPartitions (disk : DiskCandidate) :
    Run IoError (List BootPartitionCandidate) := do
  let mbr ← disk.mbr
  let entries ← parseMbrBootEntries mbr disk.sectors512
  collect (fun partno => disk.candidateForPartno partno .xbootldr) entries

structure OuterPartitionCandidate where
  partition : Text
  partno : Nat
  devPath : Text
  sizeBytes : Nat

/-- The body of the loop of `userdata_partitions`. -/
def userdataPartition (entry : SysfsEntry) :
    Run IoError (List OuterPartitionCandidate) := do
  if !entry.isPartition then return []
  else if ueventValue entry.uevent "PARTNAME".toList ≠ some userdataPartname then
    return []
  else if !entry.devExists then return []
  else
    let sectors512 :=
      ((readTrimmed entry.size).bind (Text.parseU64 10)).getD 0
    let sizeBytes ← Run.ofOption
      (invalidData
        s!"partition {String.ofList entry.name} byte size overflows")
      (checkedMul sectors512 512)
    return [{ partition := entry.name
              partno := entry.partno.getD 0
              devPath := devPathOf entry.name
              sizeBytes }]

/-- The loop of `userdata_partitions`. -/
def userdataFrom : List (Run IoError SysfsEntry) →
    Run IoError (List OuterPartitionCandidate)
  | [] => return []
  | entry :: rest => do
      let found ← entry
      let first ← userdataPartition found
      let others ← userdataFrom rest
      return first ++ others

def userdataPartitions (disk : DiskCandidate) :
    Run IoError (List OuterPartitionCandidate) := do
  let listed ← disk.sysfs
  let partitions ← userdataFrom listed
  return sortBy (fun left right => compare left.partno right.partno) partitions

def isNestedBootEntry (entry : MbrPartition) : Bool :=
  entry.isActive && entry.sys = mbrLinuxPartitionType &&
    0 < entry.startingLba && 0 < entry.sectors

/-- The extent of a used partition in `validate_mbr_extents`. -/
def mbrExtent (totalSectors : Nat) (numbered : MbrPartition × Nat) :
    Run IoError (List (Nat × Nat × Nat)) := do
  let (entry, index) := numbered
  if !entry.isUsed then return []
  else
    let stop ← Run.ofOption
      (invalidData s!"nested MBR partition {index} end overflows")
      (checkedAdd entry.startingLba entry.sectors)
    Run.ensure (¬ (entry.sectors = 0 ∨ totalSectors < stop))
      (invalidData
        s!"nested MBR partition {index} exceeds containing partition")
    return [(index, entry.startingLba, stop)]

/-- Neighbouring extents that overlap. -/
def checkExtents : List (Nat × Nat × Nat) → Run IoError Unit
  | (leftIndex, _, leftEnd) :: (rightIndex, rightStart, rightEnd) :: rest => do
      Run.ensure (leftEnd ≤ rightStart)
        (invalidData s!"nested MBR partitions {leftIndex} and {rightIndex} overlap")
      checkExtents ((rightIndex, rightStart, rightEnd) :: rest)
  | _ => return ()

def validateMbrExtents (mbr : List MbrPartition) (totalSectors : Nat) :
    Run IoError Unit := do
  let extents ← (mbr.zipIdx 1).mapM (mbrExtent totalSectors)
  checkExtents (sortBy (fun left right => compare left.2.1 right.2.1)
    extents.flatten)

/-- The name of a nested partition, `{outer}p{index}`. -/
def nestedName (outer : Text) (index : Nat) : Text :=
  outer ++ 'p' :: (toString index).toList

/-- The body of the loop of `nested_partitions_for_outer`. -/
def nestedCandidate (disk : DiskCandidate) (outer : OuterPartitionCandidate)
    (numbered : MbrPartition × Nat) :
    Run IoError (List BootPartitionCandidate) := do
  let (entry, index) := numbered
  if !isNestedBootEntry entry then return []
  else
    let offset ← Run.ofOption
      (invalidData "nested partition byte offset overflows")
      (checkedMul entry.startingLba defaultLogicalBlockSize)
    let size ← Run.ofOption
      (invalidData "nested partition byte size overflows")
      (checkedMul entry.sectors defaultLogicalBlockSize)
    let path ← Run.mapError (fun error => ⟨error.kind,
        s!"map nested partition {String.ofList outer.partition}p{index} " ++
          s!"at offset {offset}: {error.message}"⟩)
      (disk.loopMapping outer.devPath offset size)
    return [{ disk := disk.name
              partition := nestedName outer.partition index
              partno := index
              role := .nested
              devPath := path
              removable := disk.removable }]

def nestedPartitionsForOuter (disk : DiskCandidate)
    (outer : OuterPartitionCandidate) :
    Run IoError (List BootPartitionCandidate) := do
  let mbr ← disk.nestedMbr outer.partition
  validateMbrExtents mbr (outer.sizeBytes / defaultLogicalBlockSize)
  collect (nestedCandidate disk outer)
    ((mbr.zipIdx 1).filter fun numbered => numbered.2 ≤ mbrPrimaryPartitions)

/-- What a scan adds: nothing when it fails. -/
def found (scan : Run IoError (List BootPartitionCandidate)) :
    List BootPartitionCandidate :=
  (Run.toOption scan).getD []

def nestedBootPartitions (disk : DiskCandidate) :
    Run IoError (List BootPartitionCandidate) := do
  let outers ← userdataPartitions disk
  return outers.flatMap fun outer =>
    found (nestedPartitionsForOuter disk outer)

def bootPartitionsForDisk (disk : DiskCandidate) :
    List BootPartitionCandidate :=
  found (gptBootPartitions disk) ++ found (mbrBootPartitions disk) ++
    found (nestedBootPartitions disk)

/-! ## What the scanners find -/

theorem mem_found {scan : Run IoError (List BootPartitionCandidate)}
    {candidate : BootPartitionCandidate} :
    candidate ∈ found scan ↔ ∃ list, scan = .ok list ∧ candidate ∈ list := by
  cases scan with
  | error fault => simp [found, Run.toOption]
  | ok list => simp [found, Run.toOption]

theorem collect_eq {α : Type}
    {body : α → Run IoError (List BootPartitionCandidate)} {items : List α}
    {result : List BootPartitionCandidate}
    (collected : collect body items = .ok result) :
    result = items.flatMap fun item => found (body item) := by
  induction items generalizing result with
  | nil =>
      simp only [collect, Run.pure_eq_ok, Except.ok.injEq] at collected
      simp [← collected]
  | cons item rest induction =>
      simp only [collect, Run.bind_eq_ok, Run.pure_eq_ok,
        Except.ok.injEq] at collected
      obtain ⟨first, ran, others, later, rfl⟩ := collected
      rw [List.flatMap_cons, ← induction later, found, ran]
      rfl

private theorem partitionNameFrom_entry {partno : Nat}
    {listed : List (Run IoError SysfsEntry)} {name : Text}
    (named : partitionNameFrom partno listed = .ok (some name)) :
    ∃ entry ∈ listed.filterMap Run.toOption,
      entry.name = name ∧ entry.partno = some partno := by
  induction listed with
  | nil => simp [partitionNameFrom] at named
  | cons first rest induction =>
      simp only [partitionNameFrom, Run.bind_eq_ok] at named
      obtain ⟨entry, rfl, named⟩ := named
      split at named
      · rename_i matched
        simp only [Run.pure_eq_ok, Except.ok.injEq, Option.some.injEq] at named
        exact ⟨entry, by simp [Run.toOption], named, matched.2⟩
      · obtain ⟨later, member, facts⟩ := induction named
        exact ⟨later, List.mem_cons_of_mem entry member, facts⟩

namespace DiskCandidate

variable {disk : DiskCandidate}

private theorem entries_distinct {listed : List (Run IoError SysfsEntry)}
    (listing : disk.sysfs = .ok listed) :
    ((listed.filterMap Run.toOption).map SysfsEntry.name).Nodup := by
  rw [List.map_filterMap]
  exact disk.distinct listed listing

/-- A partition name belongs to one partition number. -/
theorem partno_unique {left right : Nat} {name : Text}
    (leftNamed : disk.partitionNameForPartno left = .ok (some name))
    (rightNamed : disk.partitionNameForPartno right = .ok (some name)) :
    left = right := by
  simp only [partitionNameForPartno, Run.bind_eq_ok] at leftNamed rightNamed
  obtain ⟨listed, listing, leftNamed⟩ := leftNamed
  obtain ⟨_, sameListing, rightNamed⟩ := rightNamed
  rw [listing] at sameListing
  obtain rfl := Except.ok.inj sameListing
  obtain ⟨one, oneMember, oneName, onePartno⟩ :=
    partitionNameFrom_entry leftNamed
  obtain ⟨two, twoMember, twoName, twoPartno⟩ :=
    partitionNameFrom_entry rightNamed
  have same := List.inj_on_of_nodup_map (entries_distinct listing) oneMember
    twoMember (oneName.trans twoName.symm)
  rw [same, twoPartno] at onePartno
  exact (Option.some.inj onePartno).symm

end DiskCandidate

/-- A candidate of a disk's own partition table. -/
structure OnKernelPartition (disk : DiskCandidate)
    (candidate : BootPartitionCandidate) : Prop where
  role : candidate.role ≠ .nested
  named : disk.partitionNameForPartno candidate.partno =
    .ok (some candidate.partition)
  fields : candidate =
    disk.kernelCandidate candidate.partition candidate.partno candidate.role

/-- A candidate inside a userdata partition. -/
structure InsidePartition (disk : DiskCandidate)
    (candidate : BootPartitionCandidate) : Prop where
  role : candidate.role = .nested
  onDisk : candidate.disk = disk.name
  removable : candidate.removable = disk.removable

theorem candidateForPartno_onKernel {disk : DiskCandidate} {partno : Nat}
    {role : BootPartitionRole} (kernel : role ≠ .nested)
    {candidate : BootPartitionCandidate}
    (member : candidate ∈ found (disk.candidateForPartno partno role)) :
    OnKernelPartition disk candidate := by
  obtain ⟨list, ran, inside⟩ := mem_found.mp member
  simp only [DiskCandidate.candidateForPartno, Run.bind_eq_ok] at ran
  obtain ⟨name, named, result⟩ := ran
  cases name with
  | none =>
      simp only [Run.pure_eq_ok, Except.ok.injEq] at result
      simp [← result] at inside
  | some name =>
      simp only [Run.pure_eq_ok, Except.ok.injEq] at result
      rw [← result, List.mem_singleton] at inside
      subst inside
      exact ⟨kernel, named, rfl⟩

private theorem bootRoleForGuid_kernel {guid : Bytes}
    {role : BootPartitionRole} (known : bootRoleForGuid guid = some role) :
    role ≠ .nested := by
  rintro rfl
  unfold bootRoleForGuid at known
  split at known
  · simp at known
  · split at known <;> simp at known

theorem gptBootPartitions_onKernel {disk : DiskCandidate}
    {candidate : BootPartitionCandidate}
    (member : candidate ∈ found (gptBootPartitions disk)) :
    OnKernelPartition disk candidate := by
  obtain ⟨list, ran, inside⟩ := mem_found.mp member
  simp only [gptBootPartitions, Run.bind_eq_ok] at ran
  obtain ⟨table, _, collected⟩ := ran
  rw [collect_eq collected] at inside
  obtain ⟨index, _, scanned⟩ := List.mem_flatMap.mp inside
  obtain ⟨part, body, present⟩ := mem_found.mp scanned
  simp only [gptCandidate, Run.bind_eq_ok] at body
  obtain ⟨raw, _, entry, _, body⟩ := body
  split at body
  · simp only [Run.pure_eq_ok, Except.ok.injEq] at body
    simp [← body] at present
  · split at body
    · simp only [Run.pure_eq_ok, Except.ok.injEq] at body
      simp [← body] at present
    · split at body
      · simp only [Run.pure_eq_ok, Except.ok.injEq] at body
        simp [← body] at present
      · rename_i role known
        exact candidateForPartno_onKernel (bootRoleForGuid_kernel known)
          (mem_found.mpr ⟨part, body, present⟩)

theorem mbrBootPartitions_onKernel {disk : DiskCandidate}
    {candidate : BootPartitionCandidate}
    (member : candidate ∈ found (mbrBootPartitions disk)) :
    OnKernelPartition disk candidate := by
  obtain ⟨list, ran, inside⟩ := mem_found.mp member
  simp only [mbrBootPartitions, Run.bind_eq_ok] at ran
  obtain ⟨mbr, _, entries, _, collected⟩ := ran
  rw [collect_eq collected] at inside
  obtain ⟨partno, _, scanned⟩ := List.mem_flatMap.mp inside
  exact candidateForPartno_onKernel (by decide) scanned

/-! ### Nested partitions -/

private theorem nestedName_inj {outer other : Text} {index number : Nat}
    (small : 0 < index ∧ index ≤ 4) (smallOther : 0 < number ∧ number ≤ 4)
    (same : nestedName outer index = nestedName other number) :
    outer = other ∧ index = number := by
  have digit : ∀ value, 0 < value ∧ value ≤ 4 →
      ∃ letter, (toString value).toList = [letter] ∧
        ∀ value', 0 < value' ∧ value' ≤ 4 →
          (toString value').toList = [letter] → value = value' := by
    rintro value ⟨positive, bound⟩
    interval_cases value
    all_goals
      refine ⟨_, rfl, ?_⟩
      rintro value' ⟨positive', bound'⟩ equal
      interval_cases value' <;> first | rfl | exact absurd equal (by decide)
  obtain ⟨letter, shown, unique⟩ := digit index small
  obtain ⟨letter', shown', _⟩ := digit number smallOther
  unfold nestedName at same
  rw [shown, shown'] at same
  obtain ⟨outers, tails⟩ := List.append_inj' same rfl
  simp only [List.cons.injEq, and_true, true_and] at tails
  subst tails
  exact ⟨outers, unique number smallOther shown'⟩

private theorem nestedCandidate_found {disk : DiskCandidate}
    {outer : OuterPartitionCandidate} {numbered : MbrPartition × Nat}
    {candidate : BootPartitionCandidate}
    (member : candidate ∈ found (nestedCandidate disk outer numbered)) :
    InsidePartition disk candidate ∧
      candidate.partition = nestedName outer.partition numbered.2 := by
  obtain ⟨list, ran, inside⟩ := mem_found.mp member
  simp only [nestedCandidate] at ran
  split at ran
  · simp only [Run.pure_eq_ok, Except.ok.injEq] at ran
    simp [← ran] at inside
  · simp only [Run.bind_eq_ok, Run.pure_eq_ok, Except.ok.injEq] at ran
    obtain ⟨offset, _, size, _, path, _, rfl⟩ := ran
    rw [List.mem_singleton] at inside
    subst inside
    exact ⟨⟨rfl, rfl, rfl⟩, rfl⟩

private theorem nestedCandidate_pairwise (disk : DiskCandidate)
    (outer : OuterPartitionCandidate) (numbered : MbrPartition × Nat) :
    (found (nestedCandidate disk outer numbered)).Pairwise
      fun left right => left.partition ≠ right.partition := by
  cases ran : nestedCandidate disk outer numbered with
  | error fault => exact List.Pairwise.nil
  | ok list =>
      simp only [nestedCandidate] at ran
      split at ran
      · simp only [Run.pure_eq_ok, Except.ok.injEq] at ran
        rw [← ran]
        exact List.Pairwise.nil
      · simp only [Run.bind_eq_ok, Run.pure_eq_ok, Except.ok.injEq] at ran
        obtain ⟨offset, _, size, _, path, _, rfl⟩ := ran
        exact List.pairwise_singleton ..

/-- A partition named after an outer one. -/
def NestedIn (outer : OuterPartitionCandidate)
    (candidate : BootPartitionCandidate) : Prop :=
  ∃ index, (0 < index ∧ index ≤ 4) ∧
    candidate.partition = nestedName outer.partition index

private theorem nestedPartitions_of_outer {disk : DiskCandidate}
    {outer : OuterPartitionCandidate} :
    (∀ candidate ∈ found (nestedPartitionsForOuter disk outer),
      InsidePartition disk candidate ∧ NestedIn outer candidate) ∧
    (found (nestedPartitionsForOuter disk outer)).Pairwise
      fun left right => left.partition ≠ right.partition := by
  cases ran : nestedPartitionsForOuter disk outer with
  | error fault => exact ⟨by simp [found, Run.toOption], List.Pairwise.nil⟩
  | ok list =>
      simp only [nestedPartitionsForOuter, Run.bind_eq_ok] at ran
      obtain ⟨mbr, _, _, _, collected⟩ := ran
      have listed := collect_eq collected
      have small : ∀ numbered ∈ (mbr.zipIdx 1).filter
          (fun numbered => numbered.2 ≤ mbrPrimaryPartitions),
          0 < numbered.2 ∧ numbered.2 ≤ 4 := by
        intro numbered member
        obtain ⟨inside, bound⟩ := List.mem_filter.mp member
        have lower := List.le_snd_of_mem_zipIdx inside
        exact ⟨lower, of_decide_eq_true bound⟩
      have members : ∀ candidate ∈ list,
          InsidePartition disk candidate ∧ NestedIn outer candidate := by
        intro candidate member
        rw [listed] at member
        obtain ⟨numbered, position, scanned⟩ := List.mem_flatMap.mp member
        obtain ⟨inside, name⟩ := nestedCandidate_found scanned
        exact ⟨inside, numbered.2, small numbered position, name⟩
      refine ⟨members, ?_⟩
      change list.Pairwise _
      rw [listed, List.pairwise_flatMap]
      refine ⟨fun numbered _ => nestedCandidate_pairwise disk outer numbered, ?_⟩
      have numbers : ((mbr.zipIdx 1).filter
          fun numbered => numbered.2 ≤ mbrPrimaryPartitions).Pairwise
          fun left right => left.2 ≠ right.2 := by
        apply List.Pairwise.filter
        rw [← List.pairwise_map, List.zipIdx_map_snd]
        exact List.nodup_range'
      refine (List.pairwise_iff_forall_sublist.mpr ?_)
      intro left right sub one oneMember two twoMember same
      have different := List.pairwise_iff_forall_sublist.mp numbers sub
      have leftSmall := small left (sub.subset (by simp))
      have rightSmall := small right (sub.subset (by simp))
      rw [(nestedCandidate_found oneMember).2,
        (nestedCandidate_found twoMember).2] at same
      exact different (nestedName_inj leftSmall rightSmall same).2

private theorem userdataFrom_names {listed : List (Run IoError SysfsEntry)}
    {outers : List OuterPartitionCandidate}
    (ran : userdataFrom listed = .ok outers) :
    (outers.map OuterPartitionCandidate.partition).Sublist
      (listed.filterMap entryName) := by
  induction listed generalizing outers with
  | nil =>
      simp only [userdataFrom, Run.pure_eq_ok, Except.ok.injEq] at ran
      simp [← ran]
  | cons first rest induction =>
      simp only [userdataFrom, Run.bind_eq_ok, Run.pure_eq_ok,
        Except.ok.injEq] at ran
      obtain ⟨entry, rfl, part, body, others, later, rfl⟩ := ran
      have name : (part.map OuterPartitionCandidate.partition).Sublist
          [entry.name] := by
        simp only [userdataPartition] at body
        split at body
        · simp only [Run.pure_eq_ok, Except.ok.injEq] at body
          simp [← body]
        · split at body
          · simp only [Run.pure_eq_ok, Except.ok.injEq] at body
            simp [← body]
          · split at body
            · simp only [Run.pure_eq_ok, Except.ok.injEq] at body
              simp [← body]
            · simp only [Run.bind_eq_ok, Run.pure_eq_ok,
                Except.ok.injEq] at body
              obtain ⟨size, _, rfl⟩ := body
              exact List.Sublist.refl _
      rw [List.map_append]
      exact name.append (induction later)

private theorem userdataPartitions_distinct {disk : DiskCandidate}
    {outers : List OuterPartitionCandidate}
    (ran : userdataPartitions disk = .ok outers) :
    (outers.map OuterPartitionCandidate.partition).Nodup := by
  simp only [userdataPartitions, Run.bind_eq_ok, Run.pure_eq_ok,
    Except.ok.injEq] at ran
  obtain ⟨listed, listing, unsorted, loop, rfl⟩ := ran
  have names := (userdataFrom_names loop).nodup (disk.distinct listed listing)
  exact ((sortBy_perm _ unsorted).map _).nodup_iff.mpr names

theorem nestedBootPartitions_inside (disk : DiskCandidate) :
    (∀ candidate ∈ found (nestedBootPartitions disk),
      InsidePartition disk candidate) ∧
    (found (nestedBootPartitions disk)).Pairwise
      fun left right => left.partition ≠ right.partition := by
  cases ran : nestedBootPartitions disk with
  | error fault => exact ⟨by simp [found, Run.toOption], List.Pairwise.nil⟩
  | ok list =>
      simp only [nestedBootPartitions, Run.bind_eq_ok, Run.pure_eq_ok,
        Except.ok.injEq] at ran
      obtain ⟨outers, userdata, rfl⟩ := ran
      have names := userdataPartitions_distinct userdata
      constructor
      · intro candidate member
        obtain ⟨outer, _, scanned⟩ := List.mem_flatMap.mp member
        exact (nestedPartitions_of_outer.1 candidate scanned).1
      · change (outers.flatMap _).Pairwise _
        rw [List.pairwise_flatMap]
        refine ⟨fun outer _ => nestedPartitions_of_outer.2, ?_⟩
        refine (List.pairwise_map.mp names).imp ?_
        intro left right different one oneMember two twoMember same
        obtain ⟨index, small, oneName⟩ :=
          (nestedPartitions_of_outer.1 one oneMember).2
        obtain ⟨number, smallOther, twoName⟩ :=
          (nestedPartitions_of_outer.1 two twoMember).2
        rw [oneName, twoName] at same
        exact different (nestedName_inj small smallOther same).1

theorem mem_bootPartitionsForDisk {disk : DiskCandidate}
    {candidate : BootPartitionCandidate}
    (member : candidate ∈ bootPartitionsForDisk disk) :
    OnKernelPartition disk candidate ∨ InsidePartition disk candidate := by
  rcases List.mem_append.mp member with own | nested
  · rcases List.mem_append.mp own with gpt | mbr
    · exact .inl (gptBootPartitions_onKernel gpt)
    · exact .inl (mbrBootPartitions_onKernel mbr)
  · exact .inr ((nestedBootPartitions_inside disk).1 candidate nested)

/-- A disk does not list a nested partition twice. -/
theorem bootPartitionsForDisk_nested (disk : DiskCandidate) :
    (bootPartitionsForDisk disk).Pairwise fun left right =>
      left.role = .nested → left.partition ≠ right.partition := by
  have kernel : ∀ candidate ∈ found (gptBootPartitions disk) ++
      found (mbrBootPartitions disk), candidate.role ≠ .nested := by
    intro candidate member
    rcases List.mem_append.mp member with gpt | mbr
    · exact (gptBootPartitions_onKernel gpt).role
    · exact (mbrBootPartitions_onKernel mbr).role
  apply List.pairwise_append.mpr
  refine ⟨?_, ?_, ?_⟩
  · apply List.pairwise_of_forall_mem_list
    intro left member _ _ nested
    exact absurd nested (kernel left member)
  · refine (nestedBootPartitions_inside disk).2.imp ?_
    intro left right different _
    exact different
  · intro left member _ _ nested
    exact absurd nested (kernel left member)

end Pocketboot.BootMenu
