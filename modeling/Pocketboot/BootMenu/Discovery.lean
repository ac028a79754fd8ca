import Pocketboot.BootMenu.Candidates
import Pocketboot.BootMenu.Paths

/-!
# Boot discovery in any order

The disk scanners and the partition scanners run at the same time, and their
results are taken in the order in which they arrive.  Candidates that compare
equal come from one disk, and entries that compare equal from one partition, so
a stable sort gives the same list for every order of arrival.
-/

namespace Pocketboot.BootMenu

open Sorting

namespace PathComponent

def rank : PathComponent → Nat
  | .rootDir => 0
  | .curDir => 1
  | .parentDir => 2
  | .normal _ => 3

def name : PathComponent → Bytes
  | .normal name => name
  | _ => []

end PathComponent

instance : Ord PathComponent where
  compare left right :=
    (compare left.rank right.rank).then (compare left.name right.name)

instance : Std.TransOrd PathComponent :=
  inferInstanceAs (Std.TransCmp (compareLex
    (compareOn PathComponent.rank) (compareOn PathComponent.name)))

/-- An entry with the fields it is sorted by. -/
structure ScannedEntry extends BootEntry where
  sourcePath : List PathComponent
  bootOrder : Nat
  deriving DecidableEq, Repr

def comparePartitionCandidates (left right : BootPartitionCandidate) :
    Ordering :=
  (compare left.role.priority right.role.priority).then
    ((compare left.removable right.removable).then
      ((compare left.disk right.disk).then
        (compare left.partno right.partno)))

def compareBootEntries (left right : ScannedEntry) : Ordering :=
  (compare left.role.priority right.role.priority).then
    ((compare right.preferred left.preferred).then
      ((compare left.disk right.disk).then
        ((compare left.partition right.partition).then
          ((compare left.bootOrder right.bootOrder).then
            ((compare right.id left.id).then
              (compare left.sourcePath right.sourcePath))))))

instance : Std.TransCmp comparePartitionCandidates :=
  inferInstanceAs (Std.TransCmp (compareLex
    (compareOn fun candidate : BootPartitionCandidate =>
      candidate.role.priority)
    (compareLex (compareOn BootPartitionCandidate.removable)
      (compareLex (compareOn BootPartitionCandidate.disk)
        (compareOn BootPartitionCandidate.partno)))))

instance : Std.TransCmp compareBootEntries := by
  have backward : ∀ {β : Type} [Ord β] [Std.TransOrd β]
      (key : ScannedEntry → β),
      Std.TransCmp fun left right => compare (key right) (key left) := by
    intro β _ _ key
    exact @Std.TransCmp.opposite _ (compareOn key) inferInstance
  have preferred := backward fun entry => entry.preferred
  have id := backward fun entry => entry.id
  exact inferInstanceAs (Std.TransCmp (compareLex
    (compareOn fun entry : ScannedEntry => entry.role.priority)
    (compareLex (fun left right => compare right.preferred left.preferred)
      (compareLex (compareOn fun entry : ScannedEntry => entry.disk)
        (compareLex (compareOn fun entry : ScannedEntry => entry.partition)
          (compareLex (compareOn ScannedEntry.bootOrder)
            (compareLex (fun left right => compare right.id left.id)
              (compareOn ScannedEntry.sourcePath))))))))

theorem BootPartitionRole.priority_inj {left right : BootPartitionRole}
    (same : left.priority = right.priority) : left = right := by
  cases left <;> cases right <;> first | rfl | exact absurd same (by decide)

theorem comparePartitionCandidates_eq {left right : BootPartitionCandidate} :
    comparePartitionCandidates left right = .eq ↔
      left.role = right.role ∧ left.removable = right.removable ∧
        left.disk = right.disk ∧ left.partno = right.partno := by
  simp only [comparePartitionCandidates, Ordering.then_eq_eq,
    Std.LawfulEqOrd.compare_eq_iff_eq]
  constructor
  · rintro ⟨role, others⟩
    exact ⟨BootPartitionRole.priority_inj role, others⟩
  · rintro ⟨role, others⟩
    exact ⟨congrArg _ role, others⟩

theorem compareBootEntries_partition {left right : ScannedEntry}
    (tie : compareBootEntries left right = .eq) :
    left.role = right.role ∧ left.disk = right.disk ∧
      left.partition = right.partition := by
  simp only [compareBootEntries, Ordering.then_eq_eq,
    Std.LawfulEqOrd.compare_eq_iff_eq] at tie
  exact ⟨BootPartitionRole.priority_inj tie.1, tie.2.2.1, tie.2.2.2.1⟩

/-- The local disks.  The names below `/sys/block` are distinct. -/
structure LocalDisks where
  disks : List DiskCandidate
  distinct : (disks.map DiskCandidate.name).Nodup

/-- What `discover_boot_partitions` collects from the disks in the order in
which their scanners finish. -/
def discoverBootPartitions (delivered : List DiskCandidate) :
    List BootPartitionCandidate :=
  delivered.flatMap bootPartitionsForDisk

/-- The condition of `dedup_by`. -/
def sameCandidate (left right : BootPartitionCandidate) : Bool :=
  left.role == right.role && left.disk == right.disk &&
    left.partno == right.partno && left.partition == right.partition &&
    left.devPath == right.devPath

/-- The partitions that are scanned. -/
def partitionsToScan (delivered : List DiskCandidate) :
    List BootPartitionCandidate :=
  dedupBy sameCandidate
    (sortBy comparePartitionCandidates (discoverBootPartitions delivered))

/-- The fixed scan result of each candidate. -/
structure Scans where
  entries : BootPartitionCandidate → List ScannedEntry
  role : ∀ candidate, ∀ entry ∈ entries candidate, entry.role = candidate.role
  disk : ∀ candidate, ∀ entry ∈ entries candidate, entry.disk = candidate.disk
  partition : ∀ candidate, ∀ entry ∈ entries candidate,
    entry.partition = candidate.partition

/-- The entries so far and the lists handed to `progress`. -/
structure Discovery where
  entries : List ScannedEntry
  updates : List (List ScannedEntry)

/-- The body of the loop over the results. -/
def receive (state : Discovery) (partitionEntries : List ScannedEntry) :
    Discovery :=
  if partitionEntries.isEmpty then state
  else
    let entries :=
      sortBy compareBootEntries (state.entries ++ partitionEntries)
    ⟨entries, state.updates ++ [entries]⟩

/-- The loop over the results. -/
def receiveAll (scans : Scans) (completed : List BootPartitionCandidate) :
    Discovery :=
  completed.foldl
    (fun state candidate => receive state (scans.entries candidate)) ⟨[], []⟩

/-- `discover`, for candidates whose scanners finish in the given order. -/
def discover (scans : Scans) (completed : List BootPartitionCandidate) :
    Discovery :=
  let last := receiveAll scans completed
  { last with entries := sortBy compareBootEntries last.entries }

/-- The sorted list of all results received so far, after each result that is
not empty. -/
def sortedPrefixes (scans : Scans) (completed : List BootPartitionCandidate) :
    List (List ScannedEntry) :=
  (completed.inits.filter fun received =>
    received.getLast?.any fun candidate =>
      !(scans.entries candidate).isEmpty).map fun received =>
        sortBy compareBootEntries (received.flatMap scans.entries)

/-! ## The loop over the results -/

theorem receiveAll_append (scans : Scans)
    (completed : List BootPartitionCandidate)
    (candidate : BootPartitionCandidate) :
    receiveAll scans (completed ++ [candidate]) =
      receive (receiveAll scans completed) (scans.entries candidate) := by
  simp [receiveAll]

/-- Sorting after each result is sorting all results at once. -/
theorem receiveAll_entries (scans : Scans)
    (completed : List BootPartitionCandidate) :
    (receiveAll scans completed).entries =
      sortBy compareBootEntries (completed.flatMap scans.entries) := by
  induction completed using List.reverseRecOn with
  | nil => simp [receiveAll, sortBy]
  | append_singleton completed candidate induction =>
      rw [receiveAll_append, List.flatMap_append, List.flatMap_singleton,
        receive]
      split
      · rename_i empty
        rw [List.isEmpty_iff.mp empty, List.append_nil, induction]
      · rw [induction, sortBy_append]

theorem receiveAll_updates (scans : Scans)
    (completed : List BootPartitionCandidate) :
    (receiveAll scans completed).updates = sortedPrefixes scans completed := by
  induction completed using List.reverseRecOn with
  | nil => simp [receiveAll, sortedPrefixes]
  | append_singleton completed candidate induction =>
      have extended : sortedPrefixes scans (completed ++ [candidate]) =
          sortedPrefixes scans completed ++
            if (scans.entries candidate).isEmpty then []
            else [sortBy compareBootEntries
              ((completed ++ [candidate]).flatMap scans.entries)] := by
        simp only [sortedPrefixes, List.inits_append, List.filter_append,
          List.map_append]
        congr 1
        cases empty : (scans.entries candidate).isEmpty <;>
          simp [empty]
      rw [receiveAll_append, extended, ← induction, receive]
      split
      · rw [List.append_nil]
      · rw [List.flatMap_append, List.flatMap_singleton, receiveAll_entries,
          sortBy_append]

/-! ## The candidates -/

theorem mem_candidate_disk {disk : DiskCandidate}
    {candidate : BootPartitionCandidate}
    (member : candidate ∈ bootPartitionsForDisk disk) :
    candidate.disk = disk.name ∧ candidate.removable = disk.removable := by
  rcases mem_bootPartitionsForDisk member with kernel | inside
  · rw [kernel.fields]
    exact ⟨rfl, rfl⟩
  · exact ⟨inside.onDisk, inside.removable⟩

/-- The candidates are not one nested partition of a disk. -/
def NestedApart (left right : BootPartitionCandidate) : Prop :=
  left.role = .nested → right.role = .nested → left.disk = right.disk →
    left.partition ≠ right.partition

instance : Std.Symm NestedApart where
  symm := by
    intro left right apart rightNested leftNested disk partition
    exact apart leftNested rightNested disk.symm partition.symm

section Delivered

variable {delivered : List DiskCandidate}
  (distinct : (delivered.map DiskCandidate.name).Nodup)

include distinct

/-- Two candidates of one disk name, off one disk. -/
private theorem kernel_pair {left right : BootPartitionCandidate}
    (leftMember : left ∈ discoverBootPartitions delivered)
    (rightMember : right ∈ discoverBootPartitions delivered)
    (kernel : left.role ≠ .nested) (role : left.role = right.role)
    (disk : left.disk = right.disk) :
    ∃ source, OnKernelPartition source left ∧
      OnKernelPartition source right := by
  obtain ⟨source, sourceMember, leftScan⟩ := List.mem_flatMap.mp leftMember
  obtain ⟨other, otherMember, rightScan⟩ := List.mem_flatMap.mp rightMember
  have names : source.name = other.name := by
    rw [← (mem_candidate_disk leftScan).1, disk,
      (mem_candidate_disk rightScan).1]
  have same := List.inj_on_of_nodup_map distinct sourceMember otherMember names
  subst same
  refine ⟨source, ?_, ?_⟩
  · rcases mem_bootPartitionsForDisk leftScan with own | inside
    · exact own
    · exact absurd inside.role kernel
  · rcases mem_bootPartitionsForDisk rightScan with own | inside
    · exact own
    · exact absurd (role.trans inside.role) kernel

theorem candidate_of_partno {left right : BootPartitionCandidate}
    (leftMember : left ∈ discoverBootPartitions delivered)
    (rightMember : right ∈ discoverBootPartitions delivered)
    (kernel : left.role ≠ .nested) (role : left.role = right.role)
    (disk : left.disk = right.disk) (partno : left.partno = right.partno) :
    left = right := by
  obtain ⟨source, leftKernel, rightKernel⟩ :=
    kernel_pair distinct leftMember rightMember kernel role disk
  have names := leftKernel.named
  rw [partno, rightKernel.named] at names
  have partition := Option.some.inj (Except.ok.inj names)
  rw [leftKernel.fields, rightKernel.fields, role, partno, partition]

theorem candidate_of_partition {left right : BootPartitionCandidate}
    (leftMember : left ∈ discoverBootPartitions delivered)
    (rightMember : right ∈ discoverBootPartitions delivered)
    (kernel : left.role ≠ .nested) (role : left.role = right.role)
    (disk : left.disk = right.disk)
    (partition : left.partition = right.partition) : left = right := by
  obtain ⟨source, leftKernel, rightKernel⟩ :=
    kernel_pair distinct leftMember rightMember kernel role disk
  have named := leftKernel.named
  rw [partition] at named
  exact candidate_of_partno distinct leftMember rightMember kernel role disk
    (DiskCandidate.partno_unique named rightKernel.named)

/-- No two nested candidates have one partition of one disk. -/
theorem nested_apart :
    (discoverBootPartitions delivered).Pairwise NestedApart := by
  rw [discoverBootPartitions, List.pairwise_flatMap]
  constructor
  · intro disk _
    refine (bootPartitionsForDisk_nested disk).imp ?_
    intro left right different nested _ _
    exact different nested
  · refine (List.pairwise_map.mp distinct).imp ?_
    intro first second names left leftMember right rightMember _ _ disk
    rw [(mem_candidate_disk leftMember).1,
      (mem_candidate_disk rightMember).1] at disk
    exact absurd disk names

private theorem sorted_nested_apart :
    (sortBy comparePartitionCandidates
      (discoverBootPartitions delivered)).Pairwise NestedApart :=
  (sortBy_perm _ _).symm.pairwise (nested_apart distinct) fun apart =>
    Std.Symm.symm _ _ apart

/-- Between two same candidates of the sorted list there are only the same. -/
private theorem sorted_contiguous : Contiguous sameCandidate
    (sortBy comparePartitionCandidates (discoverBootPartitions delivered)) := by
  intro first middle last listed same
  simp only [sameCandidate, Bool.and_eq_true, beq_iff_eq] at same
  obtain ⟨⟨⟨⟨role, disk⟩, partno⟩, partition⟩, devPath⟩ := same
  have member : ∀ candidate, candidate ∈ [first, middle, last] →
      candidate ∈ discoverBootPartitions delivered := fun candidate inside =>
    (mem_sortBy _).mp (listed.subset inside)
  have outer : [first, last].Sublist
      (sortBy comparePartitionCandidates (discoverBootPartitions delivered)) :=
    ((List.sublist_cons_self middle [last]).cons_cons first).trans listed
  have apart := List.pairwise_iff_forall_sublist.mp
    (sorted_nested_apart distinct) outer
  have kernel : first.role ≠ .nested := fun nested =>
    apart nested (role.trans nested) disk.symm partition.symm
  have equal : last = first :=
    (candidate_of_partno distinct (member first (by simp))
      (member last (by simp)) kernel role.symm disk.symm partno.symm).symm
  subst equal
  have sorted := (sortBy_sorted comparePartitionCandidates
    (discoverBootPartitions delivered)).sublist listed
  have up : (comparePartitionCandidates last middle).isLE :=
    List.rel_of_pairwise_cons sorted (by simp)
  have down : (comparePartitionCandidates middle last).isLE :=
    List.rel_of_pairwise_cons sorted.of_cons (by simp)
  have tie := comparePartitionCandidates_eq.mp (eq_of_isLE _ up down)
  have same := candidate_of_partno distinct (member last (by simp))
    (member middle (by simp)) kernel tie.1 tie.2.2.1 tie.2.2.2
  simp [sameCandidate, ← same]

/-- No partition is scanned twice in one role. -/
theorem partitionsToScan_apart : (partitionsToScan delivered).Pairwise
    fun left right => left.role = right.role → left.disk = right.disk →
      left.partition ≠ right.partition := by
  have listed := dedupBy_sublist sameCandidate
    (sortBy comparePartitionCandidates (discoverBootPartitions delivered))
  have once := dedupBy_pairwise (sorted_contiguous distinct)
  have apart := (sorted_nested_apart distinct).sublist listed
  refine List.Pairwise.imp_of_mem ?_ (once.and apart)
  rintro left right leftMember rightMember ⟨different, nestedApart⟩ role disk
    partition
  by_cases nested : left.role = .nested
  · exact nestedApart nested (role.symm.trans nested) disk partition
  · have same := candidate_of_partition distinct
      ((mem_sortBy _).mp (listed.subset leftMember))
      ((mem_sortBy _).mp (listed.subset rightMember)) nested role disk partition
    simp [sameCandidate, same] at different

/-- Every candidate is scanned. -/
theorem mem_partitionsToScan {candidate : BootPartitionCandidate} :
    candidate ∈ partitionsToScan delivered ↔
      candidate ∈ discoverBootPartitions delivered := by
  constructor
  · intro member
    exact (mem_sortBy _).mp ((dedupBy_sublist _ _).subset member)
  · intro member
    obtain ⟨kept, keptMember, which⟩ := exists_mem_dedupBy sameCandidate
      ((mem_sortBy comparePartitionCandidates).mpr member)
    rcases which with rfl | same
    · exact keptMember
    · simp only [sameCandidate, Bool.and_eq_true, beq_iff_eq] at same
      obtain ⟨⟨⟨⟨role, disk⟩, partno⟩, partition⟩, _⟩ := same
      have present : kept ∈ discoverBootPartitions delivered :=
        (mem_sortBy _).mp ((dedupBy_sublist _ _).subset keptMember)
      have equal : candidate = kept := by
        by_cases nested : candidate.role = .nested
        · by_contra different
          exact (nested_apart distinct).forall member present different nested
            (role.symm.trans nested) disk partition
        · exact candidate_of_partno distinct member present nested role disk
            partno
      rw [equal]
      exact keptMember

end Delivered

/-- The delivery order of the disks does not matter. -/
theorem partitionsToScan_perm {first second : List DiskCandidate}
    (distinct : (first.map DiskCandidate.name).Nodup)
    (order : first.Perm second) :
    partitionsToScan first = partitionsToScan second := by
  unfold partitionsToScan discoverBootPartitions
  congr 1
  apply sortBy_flatMap_perm _ order
  refine (List.pairwise_map.mp distinct).imp ?_
  intro left right names one oneMember two twoMember tie
  have disks := (comparePartitionCandidates_eq.mp tie).2.2.1
  rw [(mem_candidate_disk oneMember).1, (mem_candidate_disk twoMember).1]
    at disks
  exact names disks

/-- The entries a run of `discover` ends with. -/
theorem discover_entries (scans : Scans)
    (completed : List BootPartitionCandidate) :
    (discover scans completed).entries =
      sortBy compareBootEntries (completed.flatMap scans.entries) := by
  simp only [discover, receiveAll_entries, sortBy_sortBy]

/-- Entries of different partitions do not compare equal. -/
theorem discover_entries_perm (scans : Scans)
    {one two : List BootPartitionCandidate} (order : one.Perm two)
    (apart : one.Pairwise fun left right => left.role = right.role →
      left.disk = right.disk → left.partition ≠ right.partition) :
    (discover scans one).entries = (discover scans two).entries := by
  rw [discover_entries, discover_entries]
  apply sortBy_flatMap_perm _ order
  refine apart.imp ?_
  intro left right different entry entryMember other otherMember tie
  obtain ⟨role, disk, partition⟩ := compareBootEntries_partition tie
  rw [scans.role left entry entryMember,
    scans.role right other otherMember] at role
  rw [scans.disk left entry entryMember,
    scans.disk right other otherMember] at disk
  rw [scans.partition left entry entryMember,
    scans.partition right other otherMember] at partition
  exact different role disk partition

/-- Two runs of `discover` in which the disk scanners and the partition scanners
finish in any two orders. -/
theorem discover_orderIndependent (devices : LocalDisks) (scans : Scans)
    {first second : List DiskCandidate}
    (firstDelivery : first.Perm devices.disks)
    (secondDelivery : second.Perm devices.disks)
    {one two : List BootPartitionCandidate}
    (oneCompletion : one.Perm (partitionsToScan first))
    (twoCompletion : two.Perm (partitionsToScan second)) :
    partitionsToScan first = partitionsToScan second ∧
    (partitionsToScan first).Pairwise (fun left right =>
      left.role = right.role → left.disk = right.disk →
        left.partition ≠ right.partition) ∧
    (∀ candidate, candidate ∈ partitionsToScan first ↔
      candidate ∈ discoverBootPartitions devices.disks) ∧
    (discover scans one).entries = (discover scans two).entries ∧
    Sorted compareBootEntries (discover scans one).entries ∧
    (discover scans one).entries.Perm
      ((partitionsToScan first).flatMap scans.entries) ∧
    (discover scans one).updates = sortedPrefixes scans one := by
  have distinct : (first.map DiskCandidate.name).Nodup :=
    (firstDelivery.map _).nodup_iff.mpr devices.distinct
  have delivery := firstDelivery.trans secondDelivery.symm
  have same := partitionsToScan_perm distinct delivery
  have apart := partitionsToScan_apart distinct
  have symmetric : ∀ {left right : BootPartitionCandidate},
      (left.role = right.role → left.disk = right.disk →
        left.partition ≠ right.partition) →
      (right.role = left.role → right.disk = left.disk →
        right.partition ≠ left.partition) :=
    fun different role disk partition =>
      different role.symm disk.symm partition.symm
  have oneApart := oneCompletion.symm.pairwise apart symmetric
  have completion : one.Perm two := by
    rw [same] at oneCompletion
    exact oneCompletion.trans twoCompletion.symm
  refine ⟨same, apart, ?_, discover_entries_perm scans completion oneApart,
    ?_, ?_, receiveAll_updates scans one⟩
  · intro candidate
    rw [mem_partitionsToScan distinct, discoverBootPartitions,
      discoverBootPartitions, (firstDelivery.flatMap_right _).mem_iff]
  · rw [discover_entries]
    exact sortBy_sorted _ _
  · rw [discover_entries]
    exact (sortBy_perm _ _).trans (oneCompletion.flatMap_right _)

/-- A first sector with one boot partition, of number 1. -/
def sampleSector : Bytes :=
  List.replicate 446 0 ++ [0, 0, 0, 0, 0xea, 0, 0, 0, 1, 0, 0, 0, 8, 0, 0, 0] ++
    List.replicate 48 0 ++ mbrSignature

/-- A disk with one boot partition. -/
def sampleDisk (name : Text) : DiskCandidate where
  name := name
  removable := false
  sectors512 := 64
  gpt := Run.fail (invalidData "missing GPT protective MBR partition")
  mbr := .ok sampleSector
  sysfs := .ok [.ok ⟨name ++ ['1'], true, some ['1'], none, none, true⟩]
  nestedMbr _ := .ok []
  loopMapping _ _ _ := .ok []
  distinct := by
    intro listed listing
    cases listing
    exact List.nodup_singleton _

def sampleDisks : LocalDisks where
  disks := [sampleDisk "sda".toList, sampleDisk "sdb".toList]
  distinct := by decide

/-- Two entries of one file, with one id, on each partition. -/
def sampleScans : Scans where
  entries candidate :=
    ["First".toList, "Second".toList].map fun title =>
      { id := "extlinux:linux".toList
        title := some title
        version := none
        architecture := none
        source := ⟨some "extlinux.conf".toList, none⟩
        role := candidate.role
        disk := candidate.disk
        partition := candidate.partition
        preferred := true
        options := []
        sourcePath := [.rootDir, .normal [1]]
        bootOrder := 0 }
  role := by simp
  disk := by simp
  partition := by simp

/-- Two disks whose scanners, and whose partitions' scanners, finish in opposite
orders. -/
theorem discover_orderIndependent_reversed :
    (discoverBootPartitions sampleDisks.disks).length = 2 ∧
      (discover sampleScans (partitionsToScan sampleDisks.disks)).entries =
        (discover sampleScans
          (partitionsToScan sampleDisks.disks.reverse).reverse).entries := by
  refine ⟨by decide +kernel, ?_⟩
  obtain ⟨_, _, _, same, _⟩ := discover_orderIndependent sampleDisks
    sampleScans (.refl _) (List.reverse_perm _) (.refl _) (List.reverse_perm _)
  exact same

end Pocketboot.BootMenu
