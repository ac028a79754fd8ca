import Pocketboot.BootMenu.Candidates
import Pocketboot.Sorting.Intervals

/-!
# Extents of nested partitions

The partitions of an MBR inside a partition are checked before any of them gets
a loop device.  The check compares neighbours in the order of their starts, and
decides whether all used extents fit and are apart.
-/

namespace Pocketboot.BootMenu

open Sorting

/-- The sectors of a partition. -/
def MbrPartition.extent (entry : MbrPartition) : Set Nat :=
  Set.Ico entry.startingLba (entry.startingLba + entry.sectors)

/-- What the check is for. -/
structure ExtentsFit (mbr : List MbrPartition) (totalSectors : Nat) : Prop where
  filled : ∀ entry ∈ mbr, entry.isUsed → 0 < entry.sectors
  inside : ∀ entry ∈ mbr, entry.isUsed →
    entry.startingLba + entry.sectors ≤ totalSectors
  apart : mbr.Pairwise fun left right =>
    left.isUsed → right.isUsed → Disjoint left.extent right.extent

/-! ## The check is exact -/

/-- The extents that the loop collects for a partition. -/
def usedExtents (numbered : MbrPartition × Nat) : List (Nat × Nat × Nat) :=
  if numbered.1.isUsed then
    [(numbered.2, numbered.1.startingLba,
      numbered.1.startingLba + numbered.1.sectors)]
  else []

/-- What the loop requires of a partition. -/
def Fits (totalSectors : Nat) (entry : MbrPartition) : Prop :=
  entry.isUsed → 0 < entry.sectors ∧
    entry.startingLba + entry.sectors ≤ totalSectors

theorem mbrExtent_eq_ok {totalSectors : Nat} (word : totalSectors < wordSize)
    {numbered : MbrPartition × Nat} {extents : List (Nat × Nat × Nat)} :
    mbrExtent totalSectors numbered = .ok extents ↔
      Fits totalSectors numbered.1 ∧ usedExtents numbered = extents := by
  obtain ⟨entry, index⟩ := numbered
  unfold mbrExtent Fits usedExtents
  dsimp only
  cases used : entry.isUsed with
  | false => simp
  | true =>
      simp only [Bool.not_true, Bool.false_eq_true, if_false, if_true,
        Run.bind_eq_ok, Run.ofOption_eq_ok, checkedAdd_eq_some,
        Run.ensure_eq_ok, Run.pure_eq_ok, Except.ok.injEq, forall_const]
      refine ⟨?_, ?_⟩
      · rintro ⟨_, ⟨-, rfl⟩, -, fits, rfl⟩
        exact ⟨⟨by omega, by omega⟩, rfl⟩
      · rintro ⟨⟨filled, inside⟩, rfl⟩
        exact ⟨_, ⟨by omega, rfl⟩, (), by omega, rfl⟩

theorem mapM_mbrExtent_eq_ok {totalSectors : Nat}
    (word : totalSectors < wordSize) {numbered : List (MbrPartition × Nat)}
    {extents : List (List (Nat × Nat × Nat))} :
    numbered.mapM (mbrExtent totalSectors) = .ok extents ↔
      (∀ entry ∈ numbered, Fits totalSectors entry.1) ∧
        numbered.map usedExtents = extents := by
  induction numbered generalizing extents with
  | nil => simp [eq_comm]
  | cons first rest induction =>
      simp only [List.mapM_cons, Run.bind_eq_ok, mbrExtent_eq_ok word,
        induction, Run.pure_eq_ok, Except.ok.injEq, List.forall_mem_cons,
        List.map_cons]
      refine ⟨?_, ?_⟩
      · rintro ⟨_, ⟨fits, rfl⟩, _, ⟨others, rfl⟩, rfl⟩
        exact ⟨⟨fits, others⟩, rfl⟩
      · rintro ⟨⟨fits, others⟩, rfl⟩
        exact ⟨_, ⟨fits, rfl⟩, _, ⟨others, rfl⟩, rfl⟩

/-- The start and the end of an extent, behind its number. -/
abbrev Extent.start (extent : Nat × Nat × Nat) : Nat := extent.2.1

abbrev Extent.stop (extent : Nat × Nat × Nat) : Nat := extent.2.2

theorem checkExtents_eq_ok {extents : List (Nat × Nat × Nat)} :
    checkExtents extents = .ok () ↔ extents.IsChain fun left right =>
      Extent.stop left ≤ Extent.start right := by
  induction extents with
  | nil => simp [checkExtents]
  | cons first rest induction =>
      cases rest with
      | nil => simp [checkExtents]
      | cons second rest =>
          obtain ⟨leftIndex, leftStart, leftEnd⟩ := first
          obtain ⟨rightIndex, rightStart, rightEnd⟩ := second
          rw [checkExtents, Run.bind_eq_ok, List.isChain_cons_cons, ← induction]
          simp only [Run.ensure_eq_ok, exists_const]

instance extentStart_transCmp :
    Std.TransCmp fun left right : Nat × Nat × Nat =>
      compare left.2.1 right.2.1 :=
  inferInstanceAs (Std.TransCmp (compareOn Extent.start))

/-- Neighbours in the order of their starts are enough. -/
theorem checkExtents_sortBy {extents : List (Nat × Nat × Nat)}
    (filled : ∀ extent ∈ extents, Extent.start extent < Extent.stop extent) :
    checkExtents (sortBy (fun left right => compare left.2.1 right.2.1)
        extents) = .ok () ↔
      extents.Pairwise fun left right =>
        Disjoint (Set.Ico (Extent.start left) (Extent.stop left))
          (Set.Ico (Extent.start right) (Extent.stop right)) := by
  have perm := sortBy_perm (fun left right : Nat × Nat × Nat =>
    compare left.2.1 right.2.1) extents
  have sorted := sortBy_sorted (fun left right : Nat × Nat × Nat =>
    compare left.2.1 right.2.1) extents
  rw [checkExtents_eq_ok, isChain_iff_pairwise_disjoint
    (fun extent member => filled extent (perm.mem_iff.mp member))
    (sorted.imp fun ordered => Nat.isLE_compare.mp ordered)]
  exact perm.pairwise_iff fun apart => apart.symm

theorem pairwise_usedExtents {mbr : List MbrPartition} {first : Nat} :
    (((mbr.zipIdx first).map usedExtents).flatten.Pairwise fun left right =>
        Disjoint (Set.Ico (Extent.start left) (Extent.stop left))
          (Set.Ico (Extent.start right) (Extent.stop right))) ↔
      mbr.Pairwise fun left right =>
        left.isUsed → right.isUsed → Disjoint left.extent right.extent := by
  have names : (mbr.zipIdx first).map Prod.fst = mbr := List.zipIdx_map_fst _ _
  conv_rhs => rw [← names]
  rw [List.pairwise_flatten, List.pairwise_map, List.pairwise_map]
  have alone : ∀ extents ∈ (mbr.zipIdx first).map usedExtents,
      extents.Pairwise fun left right =>
        Disjoint (Set.Ico (Extent.start left) (Extent.stop left))
          (Set.Ico (Extent.start right) (Extent.stop right)) := by
    intro extents member
    obtain ⟨numbered, -, rfl⟩ := List.mem_map.mp member
    unfold usedExtents
    split
    · exact List.pairwise_singleton _ _
    · exact List.Pairwise.nil
  have pair : ∀ left right : MbrPartition × Nat,
      (∀ one ∈ usedExtents left, ∀ two ∈ usedExtents right,
        Disjoint (Set.Ico (Extent.start one) (Extent.stop one))
          (Set.Ico (Extent.start two) (Extent.stop two))) ↔
        (left.1.isUsed → right.1.isUsed →
          Disjoint left.1.extent right.1.extent) := by
    intro left right
    unfold usedExtents
    by_cases leftUsed : left.1.isUsed
    · by_cases rightUsed : right.1.isUsed
      · simp only [leftUsed, rightUsed, if_true, List.forall_mem_singleton,
          forall_const]
        rfl
      · simp [rightUsed]
    · simp [leftUsed]
  simp only [pair]
  exact and_iff_right alone

/-- The check passes exactly the tables whose used extents are not empty, end
within the containing partition, and are pairwise disjoint. -/
theorem validateMbrExtents_eq_ok {mbr : List MbrPartition} {totalSectors : Nat}
    (word : totalSectors < wordSize) :
    validateMbrExtents mbr totalSectors = .ok () ↔
      ExtentsFit mbr totalSectors := by
  have fits : (∀ numbered ∈ mbr.zipIdx 1, Fits totalSectors numbered.1) ↔
      ∀ entry ∈ mbr, Fits totalSectors entry := by
    have names : (mbr.zipIdx 1).map Prod.fst = mbr := List.zipIdx_map_fst _ _
    conv_rhs => rw [← names]
    rw [List.forall_mem_map]
  have filled : (∀ numbered ∈ mbr.zipIdx 1, Fits totalSectors numbered.1) →
      ∀ extent ∈ ((mbr.zipIdx 1).map usedExtents).flatten,
        Extent.start extent < Extent.stop extent := by
    intro each extent member
    obtain ⟨_, collected, inside⟩ := List.mem_flatten.mp member
    obtain ⟨numbered, listed, rfl⟩ := List.mem_map.mp collected
    unfold usedExtents at inside
    split at inside
    · rename_i used
      obtain rfl := List.mem_singleton.mp inside
      exact Nat.lt_add_of_pos_right (each numbered listed used).1
    · cases inside
  simp only [validateMbrExtents, Run.bind_eq_ok, mapM_mbrExtent_eq_ok word]
  refine ⟨?_, fun fit => ?_⟩
  · rintro ⟨_, ⟨each, rfl⟩, checked⟩
    have apart := pairwise_usedExtents.mp
      ((checkExtents_sortBy (filled each)).mp checked)
    exact ⟨fun entry member used => (fits.mp each entry member used).1,
      fun entry member used => (fits.mp each entry member used).2, apart⟩
  · have each := fits.mpr fun entry member used =>
      ⟨fit.filled entry member used, fit.inside entry member used⟩
    exact ⟨_, ⟨each, rfl⟩, (checkExtents_sortBy (filled each)).mpr
      (pairwise_usedExtents.mpr fit.apart)⟩

/-! ## What is mapped -/

/-- A part of the containing partition that gets a loop device. -/
structure LoopRange where
  index : Nat
  offset : Nat
  size : Nat
  deriving DecidableEq, Repr

/-- Its bytes. -/
def LoopRange.bytes (range : LoopRange) : Set Nat :=
  Set.Ico range.offset (range.offset + range.size)

def loopRange (numbered : MbrPartition × Nat) : List LoopRange :=
  if isNestedBootEntry numbered.1 then
    [⟨numbered.2, numbered.1.startingLba * defaultLogicalBlockSize,
      numbered.1.sectors * defaultLogicalBlockSize⟩]
  else []

/-- The ranges that are mapped, in order, if none of the devices fails. -/
def loopRanges (mbr : List MbrPartition) : List LoopRange :=
  ((mbr.zipIdx 1).filter fun numbered =>
    numbered.2 ≤ mbrPrimaryPartitions).flatMap loopRange

/-- The candidate of a range, on the loop device that is made for it. -/
def mapRange (disk : DiskCandidate) (outer : OuterPartitionCandidate)
    (range : LoopRange) : Run IoError BootPartitionCandidate := do
  let path ← Run.mapError (fun error => ⟨error.kind,
      s!"map nested partition {String.ofList outer.partition}p{range.index} " ++
        s!"at offset {range.offset}: {error.message}"⟩)
    (disk.loopMapping outer.devPath range.offset range.size)
  return { disk := disk.name
           partition := nestedName outer.partition range.index
           partno := range.index
           role := .nested
           devPath := path
           removable := disk.removable }

theorem sys_ne_zero {entry : MbrPartition} (boots : isNestedBootEntry entry) :
    entry.sys ≠ 0 := by
  simp only [isNestedBootEntry, Bool.and_eq_true, decide_eq_true_eq] at boots
  rw [boots.1.1.2]
  decide

theorem fst_mem_of_mem_zipIdx {mbr : List MbrPartition} {first : Nat}
    {numbered : MbrPartition × Nat} (member : numbered ∈ mbr.zipIdx first) :
    numbered.1 ∈ mbr := by
  have names : (mbr.zipIdx first).map Prod.fst = mbr := List.zipIdx_map_fst _ _
  rw [← names]
  exact List.mem_map_of_mem member

section

variable {disk : DiskCandidate} {outer : OuterPartitionCandidate}
  {mbr : List MbrPartition}

theorem nestedCandidate_eq {numbered : MbrPartition × Nat}
    (small : outer.sizeBytes < wordSize)
    (inside : isNestedBootEntry numbered.1 →
      numbered.1.startingLba + numbered.1.sectors ≤
        outer.sizeBytes / defaultLogicalBlockSize) :
    nestedCandidate disk outer numbered =
      (loopRange numbered).mapM (mapRange disk outer) := by
  obtain ⟨entry, index⟩ := numbered
  unfold nestedCandidate loopRange
  dsimp only at inside ⊢
  by_cases boots : isNestedBootEntry entry
  · have bound := inside boots
    have block : defaultLogicalBlockSize = 512 := rfl
    rw [block] at bound
    have offset : checkedMul entry.startingLba defaultLogicalBlockSize =
        some (entry.startingLba * defaultLogicalBlockSize) :=
      checkedMul_eq_some.mpr ⟨by rw [block]; omega, rfl⟩
    have size : checkedMul entry.sectors defaultLogicalBlockSize =
        some (entry.sectors * defaultLogicalBlockSize) :=
      checkedMul_eq_some.mpr ⟨by rw [block]; omega, rfl⟩
    rw [boots, offset, size]
    simp only [Bool.not_true, Bool.false_eq_true, if_false, if_true,
      Run.ofOption, Run.ok_bind, List.mapM_cons, List.mapM_nil, mapRange,
      bind_assoc, pure_bind]
  · simp [boots]

theorem collect_eq_mapM {α β : Type}
    {body : α → Run IoError (List BootPartitionCandidate)}
    {parts : α → List β} {each : β → Run IoError BootPartitionCandidate}
    {items : List α}
    (bodies : ∀ item ∈ items, body item = (parts item).mapM each) :
    collect body items = (items.flatMap parts).mapM each := by
  induction items with
  | nil => rfl
  | cons item rest induction =>
      obtain ⟨this, others⟩ := List.forall_mem_cons.mp bodies
      rw [collect, List.flatMap_cons, List.mapM_append, this, induction others]

/-- The loop makes the devices of the ranges, one after the other, and stops at
the first that fails. -/
theorem nestedPartitionsForOuter_eq (small : outer.sizeBytes < wordSize)
    (read : disk.nestedMbr outer.partition = .ok mbr)
    (used : ∀ entry ∈ mbr, entry.sys ≠ 0 → entry.isUsed)
    (fit : ExtentsFit mbr (outer.sizeBytes / defaultLogicalBlockSize)) :
    nestedPartitionsForOuter disk outer =
      (loopRanges mbr).mapM (mapRange disk outer) := by
  have word : outer.sizeBytes / defaultLogicalBlockSize < wordSize :=
    Nat.lt_of_le_of_lt (Nat.div_le_self _ _) small
  rw [nestedPartitionsForOuter, read, Run.ok_bind,
    (validateMbrExtents_eq_ok word).mpr fit, Run.ok_bind, loopRanges]
  refine collect_eq_mapM fun numbered member => ?_
  refine nestedCandidate_eq small fun boots => ?_
  have listed := fst_mem_of_mem_zipIdx (List.mem_of_mem_filter member)
  exact fit.inside _ listed (used _ listed (sys_ne_zero boots))

/-- The range of a partition lies where its sectors do. -/
theorem mem_loopRanges {range : LoopRange} (member : range ∈ loopRanges mbr) :
    ∃ entry ∈ mbr, isNestedBootEntry entry ∧
      range.offset = entry.startingLba * defaultLogicalBlockSize ∧
        range.size = entry.sectors * defaultLogicalBlockSize := by
  obtain ⟨numbered, listed, inside⟩ := List.mem_flatMap.mp member
  unfold loopRange at inside
  split at inside
  · rename_i boots
    obtain rfl := List.mem_singleton.mp inside
    exact ⟨_, fst_mem_of_mem_zipIdx (List.mem_of_mem_filter listed), boots, rfl,
      rfl⟩
  · cases inside

theorem loopRanges_inside (used : ∀ entry ∈ mbr, entry.sys ≠ 0 → entry.isUsed)
    (fit : ExtentsFit mbr (outer.sizeBytes / defaultLogicalBlockSize)) :
    ∀ range ∈ loopRanges mbr, range.offset + range.size ≤ outer.sizeBytes := by
  intro range member
  obtain ⟨entry, listed, boots, offset, size⟩ := mem_loopRanges member
  have inside := fit.inside entry listed (used entry listed (sys_ne_zero boots))
  rw [offset, size, ← Nat.add_mul]
  exact (Nat.mul_le_mul_right _ inside).trans (Nat.div_mul_le_self _ _)

theorem loopRanges_apart (used : ∀ entry ∈ mbr, entry.sys ≠ 0 → entry.isUsed)
    {totalSectors : Nat} (fit : ExtentsFit mbr totalSectors) :
    (loopRanges mbr).Pairwise fun left right =>
      Disjoint left.bytes right.bytes := by
  have apart : (mbr.zipIdx 1).Pairwise fun left right =>
      left.1.isUsed → right.1.isUsed →
        Disjoint left.1.extent right.1.extent := by
    have names : (mbr.zipIdx 1).map Prod.fst = mbr := List.zipIdx_map_fst _ _
    have fits := fit.apart
    rwa [← names, List.pairwise_map] at fits
  have listed : ∀ numbered ∈ mbr.zipIdx 1, isNestedBootEntry numbered.1 →
      numbered.1.isUsed := fun numbered member boots =>
    used _ (fst_mem_of_mem_zipIdx member) (sys_ne_zero boots)
  have alone : ∀ numbered, (loopRange numbered).Pairwise fun left right =>
      Disjoint left.bytes right.bytes := by
    intro numbered
    unfold loopRange
    split
    · exact List.pairwise_singleton _ _
    · exact List.Pairwise.nil
  refine List.pairwise_flatMap.mpr ⟨fun numbered _ => alone numbered, ?_⟩
  refine (apart.sublist List.filter_sublist).imp_of_mem ?_
  intro left right leftMember rightMember disjoint one oneInside two twoInside
  unfold loopRange at oneInside twoInside
  split at oneInside
  · rename_i leftBoots
    split at twoInside
    · rename_i rightBoots
      obtain rfl := List.mem_singleton.mp oneInside
      obtain rfl := List.mem_singleton.mp twoInside
      have scaled := disjoint_scaled (disjoint
        (listed _ (List.mem_of_mem_filter leftMember) leftBoots)
        (listed _ (List.mem_of_mem_filter rightMember) rightBoots))
        defaultLogicalBlockSize
      rw [Nat.add_mul, Nat.add_mul] at scaled
      exact scaled
    · cases twoInside
  · cases oneInside

end

/-- The check of an MBR is exact.  When the containing partition passes it, the
devices are made for ranges inside that partition, none of which overlap; when
it does not, none is made. -/
theorem mbrExtents_exact :
    (∀ (mbr : List MbrPartition) (totalSectors : Nat),
      totalSectors < wordSize →
        (validateMbrExtents mbr totalSectors = .ok () ↔
          ExtentsFit mbr totalSectors)) ∧
    ∀ (disk : DiskCandidate) (outer : OuterPartitionCandidate)
      (mbr : List MbrPartition), outer.sizeBytes < wordSize →
        disk.nestedMbr outer.partition = .ok mbr →
        (∀ entry ∈ mbr, entry.sys ≠ 0 → entry.isUsed) →
          (∃ fault, validateMbrExtents mbr
                (outer.sizeBytes / defaultLogicalBlockSize) = .error fault ∧
              nestedPartitionsForOuter disk outer = .error fault) ∨
          (nestedPartitionsForOuter disk outer =
              (loopRanges mbr).mapM (mapRange disk outer) ∧
            (∀ range ∈ loopRanges mbr,
              range.offset + range.size ≤ outer.sizeBytes) ∧
            (loopRanges mbr).Pairwise fun left right =>
              Disjoint left.bytes right.bytes) := by
  refine ⟨fun mbr totalSectors word => validateMbrExtents_eq_ok word,
    fun disk outer mbr small read used => ?_⟩
  have word : outer.sizeBytes / defaultLogicalBlockSize < wordSize :=
    Nat.lt_of_le_of_lt (Nat.div_le_self _ _) small
  cases checked : validateMbrExtents mbr
      (outer.sizeBytes / defaultLogicalBlockSize) with
  | error fault =>
      refine .inl ⟨fault, rfl, ?_⟩
      rw [nestedPartitionsForOuter, read, Run.ok_bind, checked, Run.error_bind]
  | ok _ =>
      have fit := (validateMbrExtents_eq_ok word).mp checked
      exact .inr ⟨nestedPartitionsForOuter_eq small read used fit,
        loopRanges_inside used fit, loopRanges_apart used fit⟩

/-- Two bootable partitions of eight sectors in a partition of 32. -/
def nestedSmall : List MbrPartition :=
  [⟨true, true, 0x83, 1, 8⟩, ⟨true, true, 0x83, 9, 8⟩, ⟨false, false, 0, 0, 0⟩]


def nestedDisk : DiskCandidate where
  name := "sda".toList
  removable := false
  sectors512 := 64
  gpt := Run.fail (invalidData "missing GPT protective MBR partition")
  mbr := Run.fail (invalidData "missing MBR signature")
  sysfs := .ok []
  nestedMbr _ := .ok nestedSmall
  loopMapping _ _ _ := .ok "/dev/loop0".toList
  distinct := by
    intro listed listing
    cases listing
    exact List.nodup_nil

def nestedOuter : OuterPartitionCandidate :=
  ⟨"sda1".toList, 1, "/dev/sda1".toList, 32 * 512⟩

theorem mbrExtents_exact_small :
    (validateMbrExtents nestedSmall 32 = .ok () ↔
      ExtentsFit nestedSmall 32) ∧
    loopRanges nestedSmall = [⟨1, 512, 4096⟩, ⟨2, 4608, 4096⟩] ∧
    ((∃ fault, validateMbrExtents nestedSmall
          (nestedOuter.sizeBytes / defaultLogicalBlockSize) = .error fault ∧
        nestedPartitionsForOuter nestedDisk nestedOuter = .error fault) ∨
      (nestedPartitionsForOuter nestedDisk nestedOuter =
          (loopRanges nestedSmall).mapM (mapRange nestedDisk nestedOuter) ∧
        (∀ range ∈ loopRanges nestedSmall,
          range.offset + range.size ≤ nestedOuter.sizeBytes) ∧
        (loopRanges nestedSmall).Pairwise fun left right =>
          Disjoint left.bytes right.bytes)) :=
  have used : ∀ entry ∈ nestedSmall, entry.sys ≠ 0 → entry.isUsed := by
    simp [nestedSmall]
  ⟨mbrExtents_exact.1 nestedSmall 32 (by decide), by decide,
    mbrExtents_exact.2 nestedDisk nestedOuter nestedSmall (by decide) rfl used⟩

end Pocketboot.BootMenu
