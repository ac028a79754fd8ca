import Pocketboot.Kexec.Load
import Pocketboot.Kexec.ReservedTree

/-!
# Where the segments of an image lie

The segments that are handed to the kernel lie in memory the new kernel's
device tree leaves free, apart from each other, and where the boot protocol of
the kernel wants them.
-/

namespace Pocketboot.Kexec

open DeviceTree

/-! ## The reserved ranges -/

/-- A range that is not empty, of two `u64` values. -/
def Proper (range : Nat × Nat) : Prop :=
  range.1 < range.2 ∧ range.2 < wordSize

theorem extents_proper {pairs : List (Nat × Nat)} (fits : FitsWord pairs) :
    ∀ range ∈ extents pairs, Proper range := by
  intro range member
  obtain ⟨pair, present, rfl⟩ := List.mem_map.mp member
  obtain ⟨present, sized⟩ := List.mem_filter.mp present
  have sized : pair.2 ≠ 0 := of_decide_eq_true sized
  have := fits pair present sized
  exact ⟨by dsimp only; omega, this⟩

theorem closeNode_proper {state state' : ReservedState}
    (proper : ∀ range ∈ state.ranges, Proper range)
    (closed : closeNode state = .ok state') :
    ∀ range ∈ state'.ranges, Proper range := by
  unfold closeNode closeReservedChild at closed
  split at closed
  · obtain ⟨child, _, closed⟩ := Run.bind_eq_ok.mp closed
    dsimp only at closed
    split at closed
    · obtain ⟨decoded, decodes, same⟩ := Run.bind_eq_ok.mp closed
      cases same
      obtain ⟨_, _, fits, rfl⟩ := decodeRegRanges_eq_ok.mp decodes
      intro range member
      obtain early | late := List.mem_append.mp member
      · exact proper range early
      · exact extents_proper fits range late
    · cases closed
      exact proper
  · cases closed
    exact proper

/-- The ranges collected in the loop are proper. -/
theorem reservedMemoryNodeRanges_proper {block strings : Bytes}
    {ranges : List (Nat × Nat)} (short : block.length < 2 ^ 32)
    (read : reservedMemoryNodeRanges block strings = .ok ranges) :
    ∀ range ∈ ranges, Proper range := by
  refine loop_rule (motive := fun state _ ranges =>
    (∀ range ∈ state.ranges, Proper range) → ∀ range ∈ ranges, Proper range)
    short reservedBody_steady ?_ ?_ Cursor.zero read (by simp)
  · intro state cursor token next ranges _ _ done proper
    cases token with
    | fin =>
        obtain ⟨_, _, same⟩ := Run.bind_eq_ok.mp done
        cases same
        exact proper
    | endNode =>
        obtain ⟨_, _, done⟩ := Run.bind_eq_ok.mp done
        obtain ⟨_, _, done⟩ := Run.bind_eq_ok.mp done
        cases done
    | prop nameoff value =>
        obtain ⟨_, _, done⟩ := Run.bind_eq_ok.mp done
        obtain ⟨_, _, done⟩ := Run.bind_eq_ok.mp done
        cases done
    | beginNode name => cases done
    | nop => cases done
  · intro state cursor token next state' cursor' ranges _ _ step induction
      proper
    refine induction ?_
    cases token with
    | fin =>
        obtain ⟨_, _, step⟩ := Run.bind_eq_ok.mp step
        cases step
    | endNode =>
        obtain ⟨closed, closing, step⟩ := Run.bind_eq_ok.mp step
        obtain ⟨_, _, step⟩ := Run.bind_eq_ok.mp step
        cases step
        dsimp only
        exact closeNode_proper proper closing
    | prop nameoff value =>
        obtain ⟨_, _, step⟩ := Run.bind_eq_ok.mp step
        obtain ⟨stored, storing, step⟩ := Run.bind_eq_ok.mp step
        cases step
        rw [(storeProp_keeps storing).2]
        exact proper
    | beginNode name =>
        cases step
        exact proper
    | nop =>
        cases step
        exact proper

/-- Every reserved range is proper, whatever the blob. -/
theorem reservedRanges_proper {dtb : Bytes} {ranges : List (Nat × Nat)}
    (read : reservedRanges dtb = .ok ranges) :
    ∀ range ∈ ranges, Proper range := by
  obtain ⟨header, parsed, read⟩ := Run.bind_eq_ok.mp read
  obtain ⟨rfl, accepted⟩ := headerParse_eq_ok.mp parsed
  rw [checkedSlice_struct accepted, checkedSlice_strings accepted] at read
  simp only [Run.ok_bind] at read
  obtain ⟨mapped, mapping, read⟩ := Run.bind_eq_ok.mp read
  obtain ⟨nodes, reading, same⟩ := Run.bind_eq_ok.mp read
  cases same
  obtain ⟨entries, _, fits, rfl⟩ :=
    (reserveMapRanges_eq_ok accepted).mp mapping
  intro range member
  obtain early | late := List.mem_append.mp member
  · exact extents_proper fits range early
  · exact reservedMemoryNodeRanges_proper
      (structBlock_short accepted.toWellPlaced) reading range late

/-! ## The memory that is free -/

/-- System memory that no reserved range covers. -/
def freeMemory (iomem : Text) (reserved : List (Nat × Nat)) : Set Nat :=
  {address | LastIsSystemRam (parsedLines iomem) address ∧
    ∀ range ∈ reserved, address ∉ Set.Ico range.1 range.2}

theorem ofWords_bounds {range : Nat × Nat} (proper : Proper range) :
    (PhysRange.ofWords range.1 range.2).start = range.1 ∧
      (PhysRange.ofWords range.1 range.2).stop = range.2 :=
  ⟨Nat.mod_eq_of_lt (proper.1.trans proper.2), Nat.mod_eq_of_lt proper.2⟩

theorem ofWords_addresses {range : Nat × Nat} (proper : Proper range) :
    (PhysRange.ofWords range.1 range.2).addresses =
      Set.Ico range.1 range.2 := by
  obtain ⟨start, stop⟩ := ofWords_bounds proper
  rw [PhysRange.addresses, start, stop]

theorem ofWords_nonempty {range : Nat × Nat} (proper : Proper range) :
    (PhysRange.ofWords range.1 range.2).Nonempty := by
  obtain ⟨start, stop⟩ := ofWords_bounds proper
  rw [PhysRange.Nonempty, start, stop]
  exact proper.1

/-- What is left without the reserved ranges. -/
theorem foldl_subtractRange {usable : List PhysRange}
    {reserved : List (Nat × Nat)} (canonical : Canonical usable)
    (proper : ∀ range ∈ reserved, Proper range) :
    Canonical (reserved.foldl (fun usable range =>
      subtractRange usable (.ofWords range.1 range.2)) usable) ∧
    covered (reserved.foldl (fun usable range =>
      subtractRange usable (.ofWords range.1 range.2)) usable) =
        {address | address ∈ covered usable ∧
          ∀ range ∈ reserved, address ∉ Set.Ico range.1 range.2} := by
  induction reserved generalizing usable with
  | nil => exact ⟨canonical, by simp⟩
  | cons range reserved induction =>
      rw [List.forall_mem_cons] at proper
      have removed := ofWords_nonempty proper.1
      obtain ⟨canonical', covers⟩ := induction
        (subtractRange_canonical canonical removed) proper.2
      refine ⟨canonical', ?_⟩
      rw [List.foldl_cons, covers, covered_subtractRange,
        ofWords_addresses proper.1]
      ext address
      simp only [Set.mem_ofPred_eq, Set.mem_sdiff, List.forall_mem_cons,
        and_assoc]

theorem parseIomem_covered (iomem : Text) :
    Canonical (parseIomem iomem) ∧
      covered (parseIomem iomem) =
        {address | LastIsSystemRam (parsedLines iomem) address} := by
  have nonempty : ∀ line ∈ parsedLines iomem, line.1.Nonempty := by
    intro line member
    obtain ⟨text, _, parsed⟩ := List.mem_filterMap.mp member
    exact parseIomemLine_nonempty parsed
  obtain ⟨canonical, covers⟩ := foldl_applyLine nonempty
  rw [parseIomem, sortByStart_canonical canonical]
  exact ⟨canonical, Set.ext covers⟩

theorem unreservedMemory_eq_ok {iomem : Text} {dtb : Bytes}
    {usable : List PhysRange}
    (read : unreservedMemory (.ok iomem) dtb = .ok usable) :
    ∃ reserved, reservedRanges dtb = .ok reserved ∧ Canonical usable ∧
      covered usable = freeMemory iomem reserved := by
  obtain ⟨ram, reading, read⟩ := Run.bind_eq_ok.mp read
  obtain ⟨_, text, reading⟩ := Run.bind_eq_ok.mp reading
  cases text
  obtain ⟨_, _, same⟩ := Run.bind_eq_ok.mp reading
  obtain rfl := Except.ok.inj same
  obtain ⟨reserved, reserving, read⟩ := Run.bind_eq_ok.mp read
  obtain ⟨_, _, same⟩ := Run.bind_eq_ok.mp read
  obtain rfl := Except.ok.inj same
  obtain ⟨canonical, covers⟩ := parseIomem_covered iomem
  obtain ⟨canonical', covers'⟩ :=
    foldl_subtractRange canonical (reservedRanges_proper reserving)
  refine ⟨reserved, reserving, canonical', ?_⟩
  rw [covers', covers]
  rfl

/-! ## The segments -/

def LoadedSegment.addresses (segment : LoadedSegment) : Set Nat :=
  Set.Ico segment.phys (segment.phys + segment.memsz)

/-- A segment is made of whole pages, and its bytes fit. -/
structure LoadedSegment.Whole (segment : LoadedSegment) : Prop where
  phys : pageSize ∣ segment.phys
  memsz : pageSize ∣ segment.memsz
  data : segment.data.length ≤ segment.memsz

theorem Fits.subset_covered {usable occupied : List PhysRange}
    {size align min max address : Nat}
    (fits : Fits usable occupied size align min max address) :
    Set.Ico address (address + size) ⊆ covered usable := by
  obtain ⟨range, member, inside⟩ := fits.usable
  intro within contained
  exact ⟨range, member, inside contained⟩

theorem pageSize_dvd_sz2M : pageSize ∣ sz2M := by decide

section

variable {usable occupied : List PhysRange} {region : PhysRange}
  {kernel segment : LoadedSegment}

/-- Where the kernel is placed. -/
theorem placeKernel_eq_ok {header : ImageHeader} {payload : Bytes}
    (canonical : Canonical usable) (paged : pageSize ∣ header.textOffset)
    (placed : placeKernel usable header payload = .ok (segment, region)) :
    segment.Whole ∧ segment.data = payload ∧
      header.imageSize ≤ segment.memsz ∧ sz2M ∣ region.start ∧
      segment.phys = region.start + header.textOffset ∧
      region.stop = segment.phys + segment.memsz ∧ region.Nonempty ∧
      region.addresses ⊆ covered usable := by
  obtain ⟨memsz, aligned, placed⟩ := Run.bind_eq_ok.mp placed
  obtain ⟨size, sized, placed⟩ := Run.bind_eq_ok.mp placed
  obtain ⟨base, found, placed⟩ := Run.bind_eq_ok.mp placed
  obtain ⟨entry, entered, placed⟩ := Run.bind_eq_ok.mp placed
  obtain ⟨range, built, same⟩ := Run.bind_eq_ok.mp placed
  cases same
  obtain ⟨whole, enough⟩ := pageAlign_eq_ok aligned
  obtain ⟨_, rfl⟩ := checkedAddress_eq_ok.mp sized
  obtain ⟨_, rfl⟩ := checkedAddress_eq_ok.mp entered
  obtain ⟨start, stop⟩ := rangeOf_eq_ok built
  obtain ⟨positive, fits⟩ := @placeOr_fits usable [] _ _ 21 _ _ _ (by decide)
    canonical (by simp) found
  have boundary : sz2M ∣ base := fits.aligned
  refine ⟨⟨?_, whole, ?_⟩, rfl, ?_, ?_, ?_, ?_, ?_, ?_⟩
  · exact Nat.dvd_add (pageSize_dvd_sz2M.trans boundary) paged
  · exact (Nat.le_max_right _ _).trans enough
  · exact (Nat.le_max_left _ _).trans enough
  · rw [start]
    exact boundary
  · rw [start]
  · dsimp only
    omega
  · unfold PhysRange.Nonempty
    omega
  · rw [PhysRange.addresses, start, stop]
    exact fits.subset_covered

/-- Where the initrd is placed, when there is one. -/
theorem placeInitrd_eq_ok {initrd : Option Bytes}
    {placement : Option (LoadedSegment × PhysRange × (Nat × Nat))}
    (canonical : Canonical usable) (nonempty : region.Nonempty)
    (placed : placeInitrd usable region kernel initrd = .ok placement) :
    (placement.map fun placed => placed.1.data) = initrd.filter (· ≠ []) ∧
    ∀ segment occupied range,
      placement = some (segment, occupied, range) →
      segment.Whole ∧ occupied.Nonempty ∧
      occupied.addresses = segment.addresses ∧
      range = (segment.phys, segment.phys + segment.data.length) ∧
      segment.addresses ⊆ covered usable ∧
      segment.addresses ⊆ Set.Ico (kernel.phys + kernel.memsz)
        (maskDown kernel.phys sz1G + sz32G) ∧
      Disjoint segment.addresses region.addresses := by
  unfold placeInitrd at placed
  cases payload : initrd.filter (· ≠ []) with
  | none =>
      rw [payload] at placed
      cases placed
      exact ⟨rfl, by simp⟩
  | some payload' =>
      rw [payload] at placed
      obtain ⟨memsz, aligned, placed⟩ := Run.bind_eq_ok.mp placed
      obtain ⟨low, lower, placed⟩ := Run.bind_eq_ok.mp placed
      obtain ⟨high, upper, placed⟩ := Run.bind_eq_ok.mp placed
      obtain ⟨phys, found, placed⟩ := Run.bind_eq_ok.mp placed
      obtain ⟨stop, stopped, placed⟩ := Run.bind_eq_ok.mp placed
      obtain ⟨range, built, same⟩ := Run.bind_eq_ok.mp placed
      cases same
      refine ⟨rfl, ?_⟩
      rintro _ _ _ ⟨⟩
      obtain ⟨whole, enough⟩ := pageAlign_eq_ok aligned
      obtain ⟨_, rfl⟩ := checkedAddress_eq_ok.mp lower
      obtain ⟨_, rfl⟩ := checkedAddress_eq_ok.mp upper
      obtain ⟨_, rfl⟩ := checkedAddress_eq_ok.mp stopped
      obtain ⟨start, stop⟩ := rangeOf_eq_ok built
      obtain ⟨positive, fits⟩ := @placeOr_fits usable [region] _ _ 12 _ _ _
        (by decide) canonical (by simpa using nonempty) found
      refine ⟨⟨fits.aligned, whole, enough⟩, ?_, ?_, rfl,
        fits.subset_covered, fits.window, ?_⟩
      · unfold PhysRange.Nonempty
        omega
      · rw [PhysRange.addresses, start, stop]
        rfl
      · exact fits.free region (by simp)

/-- What the kernel and the initrd occupy is not empty. -/
theorem occupied_nonempty {initrd : Option Bytes}
    {placement : Option (LoadedSegment × PhysRange × (Nat × Nat))}
    (canonical : Canonical usable) (nonempty : region.Nonempty)
    (placed : placeInitrd usable region kernel initrd = .ok placement) :
    ∀ range ∈ region :: (placement.map fun placed => placed.2.1).toList,
      range.Nonempty := by
  obtain ⟨_, initrdPlaced⟩ := placeInitrd_eq_ok canonical nonempty placed
  refine List.forall_mem_cons.mpr ⟨nonempty, fun range member => ?_⟩
  obtain ⟨⟨segment, _, _⟩, found, rfl⟩ :=
    Option.map_eq_some_iff.mp (Option.mem_toList.mp member)
  exact (initrdPlaced _ _ _ found).2.1

/-- Where the device tree is placed. -/
theorem placeDtb_eq_ok {dtb : Bytes} (canonical : Canonical usable)
    (nonempty : ∀ range ∈ occupied, range.Nonempty)
    (placed : placeDtb usable occupied kernel dtb = .ok (segment, region)) :
    segment.Whole ∧ segment.data = dtb ∧ dtb.length ≤ maxDtbSize ∧
      sz2M ∣ segment.phys ∧ kernel.phys + kernel.memsz ≤ segment.phys ∧
      region.Nonempty ∧ region.addresses = segment.addresses ∧
      segment.addresses ⊆ covered usable ∧
      ∀ range ∈ occupied, Disjoint segment.addresses range.addresses := by
  obtain ⟨_, small, placed⟩ := Run.bind_eq_ok.mp placed
  obtain ⟨memsz, aligned, placed⟩ := Run.bind_eq_ok.mp placed
  obtain ⟨low, lower, placed⟩ := Run.bind_eq_ok.mp placed
  obtain ⟨phys, found, placed⟩ := Run.bind_eq_ok.mp placed
  obtain ⟨range, built, same⟩ := Run.bind_eq_ok.mp placed
  cases same
  rw [Run.ensure_eq_ok] at small
  obtain ⟨whole, enough⟩ := pageAlign_eq_ok aligned
  obtain ⟨_, rfl⟩ := checkedAddress_eq_ok.mp lower
  obtain ⟨start, stop⟩ := rangeOf_eq_ok built
  obtain ⟨positive, fits⟩ := @placeOr_fits usable occupied _ _ 21 _ _ _
    (by decide) canonical nonempty found
  have boundary : sz2M ∣ phys := fits.aligned
  obtain ⟨_, _, window, _⟩ := (fits_iff positive nonempty).mp fits
  refine ⟨⟨pageSize_dvd_sz2M.trans boundary, whole, enough⟩, rfl, small,
    boundary, window.1, ?_, ?_, fits.subset_covered, fits.free⟩
  · unfold PhysRange.Nonempty
    omega
  · rw [PhysRange.addresses, start, stop]
    rfl

/-- Where the trampoline is placed. -/
theorem placeTrampoline_eq_ok {image : TrampolineImage} {dtb : LoadedSegment}
    (canonical : Canonical usable)
    (nonempty : ∀ range ∈ occupied, range.Nonempty)
    (placed : placeTrampoline image usable occupied kernel dtb =
      .ok segment) :
    segment.Whole ∧
      buildTrampoline image kernel.phys dtb.phys = .ok segment.data ∧
      kernel.phys + kernel.memsz ≤ segment.phys ∧
      segment.addresses ⊆ covered usable ∧
      ∀ range ∈ occupied, Disjoint segment.addresses range.addresses := by
  obtain ⟨code, built, placed⟩ := Run.bind_eq_ok.mp placed
  obtain ⟨memsz, aligned, placed⟩ := Run.bind_eq_ok.mp placed
  obtain ⟨phys, found, same⟩ := Run.bind_eq_ok.mp placed
  cases same
  obtain ⟨whole, enough⟩ := pageAlign_eq_ok aligned
  obtain ⟨positive, fits⟩ := @placeOr_fits usable occupied _ _ 12 _ _ _
    (by decide) canonical nonempty found
  obtain ⟨_, _, window, _⟩ := (fits_iff positive nonempty).mp fits
  exact ⟨⟨fits.aligned, whole, enough⟩, built, window.1, fits.subset_covered,
    fits.free⟩

end

/-- The two words of the trampoline, where its symbols do not overlap. -/
theorem buildTrampoline_eq_ok {image : TrampolineImage} {code : Bytes}
    {kernelEntry dtbAddr : Nat}
    (built : buildTrampoline image kernelEntry dtbAddr = .ok code)
    (apart : image.kernelEntry + 8 ≤ image.dtbAddr) :
    let kernelOffset := image.kernelEntry - image.start
    let dtbOffset := image.dtbAddr - image.start
    code.length = image.code.length ∧
      Bytes.slice code kernelOffset (kernelOffset + 8) =
        Bytes.toLe 8 kernelEntry ∧
      Bytes.slice code dtbOffset (dtbOffset + 8) = Bytes.toLe 8 dtbAddr := by
  intro kernelOffset dtbOffset
  obtain ⟨_, layout, same⟩ := Run.bind_eq_ok.mp built
  obtain rfl := Except.ok.inj same
  rw [Run.ensure_eq_ok] at layout
  obtain ⟨kernelLow, kernelHigh, dtbLow, dtbHigh⟩ := layout
  have length := image.length_eq
  have kernelWidth : (Bytes.toLe 8 kernelEntry).length = 8 :=
    Bytes.toLe_length _ _
  have dtbWidth : (Bytes.toLe 8 dtbAddr).length = 8 := Bytes.toLe_length _ _
  have kernelInside : image.kernelEntry - image.start +
      (Bytes.toLe 8 kernelEntry).length ≤ image.code.length := by omega
  have firstLength := Bytes.splice_length kernelInside
  have dtbInside : image.dtbAddr - image.start +
      (Bytes.toLe 8 dtbAddr).length ≤ (Bytes.splice image.code
        (image.kernelEntry - image.start)
        (Bytes.toLe 8 kernelEntry)).length := by omega
  refine ⟨(Bytes.splice_length dtbInside).trans firstLength, ?_, ?_⟩
  · rw [Bytes.slice_splice_of_disjoint dtbInside (.inl (by omega))]
    have written := Bytes.slice_splice_self kernelInside
    rwa [kernelWidth] at written
  · have written := Bytes.slice_splice_self dtbInside
    rwa [dtbWidth] at written

/-! ## The whole call -/

/-- The segments of a call, by what they are. -/
structure Parts where
  kernel : LoadedSegment
  initrd : Option LoadedSegment
  dtb : LoadedSegment
  trampoline : LoadedSegment

namespace Parts

variable (parts : Parts)

/-- All segments but the kernel. -/
def others : List LoadedSegment :=
  parts.initrd.toList ++ [parts.dtb, parts.trampoline]

def call : KexecCall := ⟨parts.trampoline.phys, parts.kernel :: parts.others⟩

def kernelEnd : Nat := parts.kernel.phys + parts.kernel.memsz

/-- The addresses of the bytes of the initrd. -/
def initrdRange : Option (Nat × Nat) :=
  parts.initrd.map fun segment =>
    (segment.phys, segment.phys + segment.data.length)

end Parts

/-- The segments lie in free memory, apart from each other, and where the boot
protocol wants them. -/
structure Parts.Placed (free : Set Nat) (header : ImageHeader)
    (parts : Parts) : Prop where
  whole : ∀ segment ∈ parts.call.segments, segment.Whole
  inside : ∀ segment ∈ parts.call.segments, segment.addresses ⊆ free
  apart : parts.call.segments.Pairwise fun left right =>
    Disjoint left.addresses right.addresses
  imageSize : header.imageSize ≤ parts.kernel.memsz
  kernel : ∃ base, sz2M ∣ base ∧ parts.kernel.phys = base + header.textOffset ∧
    Set.Ico base parts.kernelEnd ⊆ free ∧
    ∀ segment ∈ parts.others,
      Disjoint segment.addresses (Set.Ico base parts.kernelEnd)
  initrd : ∀ segment ∈ parts.initrd, segment.addresses ⊆
    Set.Ico parts.kernelEnd (maskDown parts.kernel.phys sz1G + sz32G)
  dtb : sz2M ∣ parts.dtb.phys ∧ parts.dtb.data.length ≤ maxDtbSize ∧
    parts.kernelEnd ≤ parts.dtb.phys
  trampoline : parts.kernelEnd ≤ parts.trampoline.phys

/-- The segments hold what is to be loaded. -/
structure Parts.Carries (image : TrampolineImage) (kernel : Bytes)
    (initrd : Option Bytes) (dtb : Bytes) (cmdline : Str) (parts : Parts) :
    Prop where
  kernel : parts.kernel.data = kernel
  initrd : parts.initrd.map (·.data) = initrd.filter (· ≠ [])
  dtb : patchChosen dtb cmdline parts.initrdRange = .ok parts.dtb.data
  trampoline : buildTrampoline image parts.kernel.phys parts.dtb.phys =
    .ok parts.trampoline.data

section

variable {iomem : Text} {image : TrampolineImage} {kernel dtb : Bytes}
  {initrd : Option Bytes} {cmdline : Str} {call : KexecCall}

theorem load_eq_ok
    (loads : load (.ok iomem) image kernel initrd dtb cmdline = .ok call) :
    ∃ header reserved parts, imageHeaderParse kernel = .ok header ∧
      pageSize ∣ header.textOffset ∧ reservedRanges dtb = .ok reserved ∧
      call = parts.call ∧ Parts.Placed (freeMemory iomem reserved) header parts ∧
      Parts.Carries image kernel initrd dtb cmdline parts := by
  obtain ⟨_, _, loads⟩ := Run.bind_eq_ok.mp loads
  obtain ⟨_, _, loads⟩ := Run.bind_eq_ok.mp loads
  obtain ⟨header, parsed, loads⟩ := Run.bind_eq_ok.mp loads
  obtain ⟨_, paged, loads⟩ := Run.bind_eq_ok.mp loads
  rw [Run.ensure_eq_ok] at paged
  have paged : pageSize ∣ header.textOffset := Nat.dvd_of_mod_eq_zero paged
  obtain ⟨usable, reading, loads⟩ := Run.bind_eq_ok.mp loads
  obtain ⟨⟨kernelSegment, region⟩, placing, loads⟩ := Run.bind_eq_ok.mp loads
  obtain ⟨placement, placingInitrd, loads⟩ := Run.bind_eq_ok.mp loads
  obtain ⟨patched, patching, loads⟩ := Run.bind_eq_ok.mp loads
  obtain ⟨⟨dtbSegment, dtbRegion⟩, placingDtb, loads⟩ :=
    Run.bind_eq_ok.mp loads
  obtain ⟨trampoline, placingTrampoline, loads⟩ := Run.bind_eq_ok.mp loads
  obtain ⟨_, _, same⟩ := Run.bind_eq_ok.mp loads
  obtain rfl := Except.ok.inj same
  obtain ⟨reserved, reserving, canonical, covers⟩ :=
    unreservedMemory_eq_ok reading
  obtain ⟨kernelWhole, kernelData, imageSize, boundary, entry, stop, nonempty,
    kernelInside⟩ := placeKernel_eq_ok canonical paged placing
  obtain ⟨initrdData, initrdPlaced⟩ :=
    placeInitrd_eq_ok canonical nonempty placingInitrd
  have occupiedNonempty := occupied_nonempty canonical nonempty placingInitrd
  obtain ⟨dtbWhole, dtbData, dtbSmall, dtbBoundary, dtbAbove, dtbNonempty,
    dtbAddresses, dtbInside, dtbFree⟩ :=
      placeDtb_eq_ok canonical occupiedNonempty placingDtb
  obtain ⟨trampolineWhole, trampolineData, trampolineAbove, trampolineInside,
    trampolineFree⟩ := placeTrampoline_eq_ok canonical (by
      intro range member
      obtain early | late := List.mem_append.mp member
      · exact occupiedNonempty range early
      · obtain rfl := List.mem_singleton.mp late
        exact dtbNonempty) placingTrampoline
  let parts : Parts := ⟨kernelSegment, placement.map fun placed => placed.1,
    dtbSegment, trampoline⟩
  have onInitrd : ∀ segment ∈ parts.initrd, ∃ occupied range,
      placement = some (segment, occupied, range) := by
    intro segment member
    obtain ⟨⟨_, occupied, range⟩, found, rfl⟩ :=
      Option.map_eq_some_iff.mp member
    exact ⟨occupied, range, found⟩
  have initrdApart : ∀ segment ∈ parts.initrd,
      Disjoint dtbSegment.addresses segment.addresses ∧
        Disjoint trampoline.addresses segment.addresses := by
    intro segment member
    obtain ⟨occupied, range, rfl⟩ := onInitrd segment member
    obtain ⟨_, _, same, _⟩ := initrdPlaced _ _ _ rfl
    rw [← same]
    exact ⟨dtbFree occupied (by simp), trampolineFree occupied (by simp)⟩
  have dtbApart : Disjoint trampoline.addresses dtbSegment.addresses := by
    rw [← dtbAddresses]
    exact trampolineFree dtbRegion (by simp)
  have others : ∀ segment ∈ parts.others, segment.Whole ∧
      segment.addresses ⊆ covered usable ∧
      Disjoint segment.addresses region.addresses := by
    intro segment member
    obtain early | late := List.mem_append.mp member
    · obtain ⟨occupied, range, found⟩ :=
        onInitrd segment (Option.mem_toList.mp early)
      obtain ⟨whole, _, _, _, inside, _, apart⟩ := initrdPlaced _ _ _ found
      exact ⟨whole, inside, apart⟩
    · simp only [List.mem_cons, List.not_mem_nil, or_false] at late
      obtain rfl | rfl := late
      · exact ⟨dtbWhole, dtbInside, dtbFree region (by simp)⟩
      · exact ⟨trampolineWhole, trampolineInside,
          trampolineFree region (by simp)⟩
  have kernelRegion : kernelSegment.addresses ⊆ region.addresses := by
    rw [LoadedSegment.addresses, PhysRange.addresses, stop]
    exact Set.Ico_subset_Ico_left (by omega)
  have wholeRegion : Set.Ico region.start parts.kernelEnd =
      region.addresses := by
    rw [PhysRange.addresses, stop]
    rfl
  refine ⟨header, reserved, parts, parsed, paged, reserving, rfl, ?_, ?_⟩
  · rw [← covers]
    refine ⟨?_, ?_, ?_, imageSize, ?_, ?_, ?_, trampolineAbove⟩
    · exact List.forall_mem_cons.mpr
        ⟨kernelWhole, fun segment member => (others segment member).1⟩
    · exact List.forall_mem_cons.mpr ⟨kernelRegion.trans kernelInside,
        fun segment member => (others segment member).2.1⟩
    · refine List.pairwise_cons.mpr ⟨?_, List.pairwise_append.mpr
        ⟨?_, ?_, ?_⟩⟩
      · intro segment member
        exact ((others segment member).2.2.mono_right kernelRegion).symm
      · cases parts.initrd with
        | none => exact .nil
        | some segment => exact List.pairwise_singleton _ _
      · exact List.pairwise_pair.mpr dtbApart.symm
      · intro segment member other late
        obtain ⟨dtbFrom, trampolineFrom⟩ :=
          initrdApart segment (Option.mem_toList.mp member)
        simp only [List.mem_cons, List.not_mem_nil, or_false] at late
        obtain rfl | rfl := late
        · exact dtbFrom.symm
        · exact trampolineFrom.symm
    · refine ⟨region.start, boundary, entry, ?_, ?_⟩
      · rw [wholeRegion]
        exact kernelInside
      · rw [wholeRegion]
        exact fun segment member => (others segment member).2.2
    · intro segment member
      obtain ⟨occupied, range, found⟩ := onInitrd segment member
      exact (initrdPlaced _ _ _ found).2.2.2.2.2.1
    · refine ⟨dtbBoundary, ?_, dtbAbove⟩
      rw [dtbData]
      exact dtbSmall
  · refine ⟨kernelData, ?_, ?_, trampolineData⟩
    · rw [← initrdData, Option.map_map]
      rfl
    · rw [dtbData, ← patching]
      refine congrArg (patchChosen dtb cmdline) ?_
      cases placement with
      | none => rfl
      | some placed =>
          obtain ⟨segment, occupied, range⟩ := placed
          obtain ⟨_, _, _, same, _⟩ := initrdPlaced _ _ _ rfl
          rw [same]
          rfl

theorem imageHeaderParse_returns (kernel : Bytes) :
    (imageHeaderParse kernel).Returns := by
  refine (Run.returns_ensure _ _).bind fun _ long => ?_
  rw [Run.ensure_eq_ok] at long
  rw [sliceOrPanic_of (by omega) (by omega), Run.ok_bind]
  refine (Run.returns_ensure _ _).bind fun _ _ => ?_
  rw [sliceOrPanic_of (by omega) (by omega), Run.ok_bind,
    sliceOrPanic_of (by omega) (by omega), Run.ok_bind]
  split
  · exact Run.returns_pure _
  · exact Run.returns_pure _

theorem unreservedMemory_returns (iomem : Text) (dtb : Bytes) :
    (unreservedMemory (.ok iomem) dtb).Returns := by
  refine Run.Returns.bind ?_ fun _ _ =>
    (reservedRanges_returns dtb).bind fun _ _ =>
      (Run.returns_ensure _ _).bind fun _ _ => Run.returns_pure _
  exact (Run.returns_ensure _ _).bind fun _ _ => Run.returns_pure _

theorem placeKernel_returns {usable : List PhysRange}
    (canonical : Canonical usable) (header : ImageHeader) (kernel : Bytes) :
    (placeKernel usable header kernel).Returns := by
  refine (pageAlign_returns _).bind fun _ _ => ?_
  refine (checkedAddress_returns _ _).bind fun _ _ => ?_
  refine Run.Returns.bind ?_ fun _ _ => ?_
  · exact @placeOr_returns usable [] _ _ 21 _ _ (by decide) canonical (by simp)
  · refine (checkedAddress_returns _ _).bind fun _ _ => ?_
    exact (rangeOf_returns _ _).bind fun _ _ => Run.returns_pure _

theorem placeInitrd_returns {usable : List PhysRange} {region : PhysRange}
    (canonical : Canonical usable) (nonempty : region.Nonempty)
    (kernel : LoadedSegment) (initrd : Option Bytes) :
    (placeInitrd usable region kernel initrd).Returns := by
  unfold placeInitrd
  cases initrd.filter (· ≠ []) with
  | none => exact Run.returns_pure _
  | some payload =>
      refine (pageAlign_returns _).bind fun _ _ => ?_
      refine (checkedAddress_returns _ _).bind fun _ _ => ?_
      refine (checkedAddress_returns _ _).bind fun _ _ => ?_
      refine Run.Returns.bind ?_ fun _ _ => ?_
      · exact @placeOr_returns usable [region] _ _ 12 _ _ (by decide) canonical
          (by simpa using nonempty)
      · refine (checkedAddress_returns _ _).bind fun _ _ => ?_
        exact (rangeOf_returns _ _).bind fun _ _ => Run.returns_pure _

theorem placeDtb_returns {usable occupied : List PhysRange}
    (canonical : Canonical usable)
    (nonempty : ∀ range ∈ occupied, range.Nonempty) (kernel : LoadedSegment)
    (dtb : Bytes) : (placeDtb usable occupied kernel dtb).Returns := by
  refine (Run.returns_ensure _ _).bind fun _ _ => ?_
  refine (pageAlign_returns _).bind fun _ _ => ?_
  refine (checkedAddress_returns _ _).bind fun _ _ => ?_
  refine Run.Returns.bind ?_ fun _ _ => ?_
  · exact @placeOr_returns usable occupied _ _ 21 _ _ (by decide) canonical
      nonempty
  · exact (rangeOf_returns _ _).bind fun _ _ => Run.returns_pure _

theorem placeTrampoline_returns {usable occupied : List PhysRange}
    (canonical : Canonical usable)
    (nonempty : ∀ range ∈ occupied, range.Nonempty) (image : TrampolineImage)
    (kernel dtb : LoadedSegment) :
    (placeTrampoline image usable occupied kernel dtb).Returns := by
  refine Run.Returns.bind ?_ fun _ _ => ?_
  · exact (Run.returns_ensure _ _).bind fun _ _ => Run.returns_pure _
  refine (pageAlign_returns _).bind fun _ _ => ?_
  refine Run.Returns.bind ?_ fun _ _ => Run.returns_pure _
  exact @placeOr_returns usable occupied _ _ 12 _ _ (by decide) canonical
    nonempty

/-- Loading ends in a call or in an error. -/
theorem load_returns :
    (load (.ok iomem) image kernel initrd dtb cmdline).Returns := by
  refine (Run.returns_ensure _ _).bind fun _ _ => ?_
  refine (Run.returns_ensure _ _).bind fun _ _ => ?_
  refine (imageHeaderParse_returns kernel).bind fun header _ => ?_
  refine (Run.returns_ensure _ _).bind fun _ paged => ?_
  rw [Run.ensure_eq_ok] at paged
  have paged : pageSize ∣ header.textOffset := Nat.dvd_of_mod_eq_zero paged
  refine (unreservedMemory_returns iomem dtb).bind fun usable reading => ?_
  obtain ⟨_, _, canonical, _⟩ := unreservedMemory_eq_ok reading
  refine (placeKernel_returns canonical header kernel).bind fun placed
    placing => ?_
  obtain ⟨segment, region⟩ := placed
  obtain ⟨_, _, _, _, _, _, nonempty, _⟩ :=
    placeKernel_eq_ok canonical paged placing
  refine (placeInitrd_returns canonical nonempty segment initrd).bind
    fun placement placingInitrd => ?_
  have occupiedNonempty :=
    occupied_nonempty canonical nonempty placingInitrd
  refine (patchChosen_returns dtb cmdline _).bind fun patched _ => ?_
  refine (placeDtb_returns canonical occupiedNonempty segment patched).bind
    fun placedDtb placingDtb => ?_
  obtain ⟨dtbSegment, dtbRegion⟩ := placedDtb
  have dtbNonempty :=
    (placeDtb_eq_ok canonical occupiedNonempty placingDtb).2.2.2.2.2.1
  refine (placeTrampoline_returns canonical ?_ image segment dtbSegment).bind
    fun _ _ => (Run.returns_ensure _ _).bind fun _ _ => Run.returns_pure _
  intro range member
  obtain early | late := List.mem_append.mp member
  · exact occupiedNonempty range early
  · obtain rfl := List.mem_singleton.mp late
    exact dtbNonempty

end

/-- Loading never panics. What it hands to the kernel lies in free memory,
apart and aligned, and carries the payloads with a device tree that names the
initrd and still reserves what it reserved. -/
theorem load_places (iomem : Text) (image : TrampolineImage) (kernel : Bytes)
    (initrd : Option Bytes) (dtb : Bytes) (cmdline : Str) :
    (load (.ok iomem) image kernel initrd dtb cmdline).Returns ∧
    ∀ call, load (.ok iomem) image kernel initrd dtb cmdline = .ok call →
      ∃ header reserved parts, imageHeaderParse kernel = .ok header ∧
        pageSize ∣ header.textOffset ∧ reservedRanges dtb = .ok reserved ∧
        call = parts.call ∧
        Parts.Placed (freeMemory iomem reserved) header parts ∧
        Parts.Carries image kernel initrd dtb cmdline parts ∧
        (image.kernelEntry + 8 ≤ image.dtbAddr →
          let code := parts.trampoline.data
          let kernelOffset := image.kernelEntry - image.start
          let dtbOffset := image.dtbAddr - image.start
          Bytes.slice code kernelOffset (kernelOffset + 8) =
            Bytes.toLe 8 parts.kernel.phys ∧
          Bytes.slice code dtbOffset (dtbOffset + 8) =
            Bytes.toLe 8 parts.dtb.phys) ∧
        ∀ forest body entries, DecodesTo dtb forest body entries →
          DeviceTree.decode parts.dtb.data = some (.node []
            (withChosen (chosenProps cmdline parts.initrdRange) body) .nil) ∧
          reservedRanges parts.dtb.data = .ok reserved := by
  refine ⟨load_returns, fun call loads => ?_⟩
  obtain ⟨header, reserved, parts, parsed, paged, reserving, same, placed,
    carries⟩ := load_eq_ok loads
  refine ⟨header, reserved, parts, parsed, paged, reserving, same, placed,
    carries, fun apart => ?_, fun forest body entries decodes => ?_⟩
  · exact (buildTrampoline_eq_ok carries.trampoline apart).2
  · obtain ⟨forest', after⟩ := patchChosen_patched decodes carries.dtb
    exact ⟨after.decode,
      (reservedRanges_withChosen decodes after).trans reserving⟩

/-- A kernel that asks for 2 MiB, at the start of its region. -/
def smallKernel : Bytes :=
  List.replicate 16 0 ++ Bytes.toLe 8 0x200000 ++ List.replicate 32 0 ++
    Bytes.toLe 4 arm64ImageMagic ++ List.replicate 4 0

def smallTrampoline : TrampolineImage where
  start := 0x1000
  kernelEntry := 0x1018
  dtbAddr := 0x1020
  stop := 0x1028
  code := List.replicate 40 0
  length_eq := by decide
  kernelEntry_lt := by decide
  dtbAddr_lt := by decide

def boardMemory : Text := "80000000-9fffffff : System RAM".toList

theorem load_places_board : ∃ call header reserved parts,
    load (.ok boardMemory) smallTrampoline smallKernel (some [1, 2, 3])
      quietBlob ⟨byteString "debug", by decide⟩ = .ok call ∧
    call = Parts.call parts ∧
    Parts.Placed (freeMemory boardMemory reserved) header parts := by
  have loads : (load (.ok boardMemory) smallTrampoline smallKernel
      (some [1, 2, 3]) quietBlob ⟨byteString "debug", by decide⟩).toOption.isSome
      = true := by decide +kernel
  obtain ⟨call, found⟩ := Option.isSome_iff_exists.mp loads
  cases result : load (.ok boardMemory) smallTrampoline smallKernel
      (some [1, 2, 3]) quietBlob ⟨byteString "debug", by decide⟩ with
  | error fault =>
      rw [result] at found
      cases found
  | ok call =>
      obtain ⟨header, reserved, parts, _, _, _, same, placed, _⟩ :=
        (load_places boardMemory smallTrampoline smallKernel (some [1, 2, 3])
          quietBlob ⟨byteString "debug", by decide⟩).2 call result
      exact ⟨call, header, reserved, parts, rfl, same, placed⟩

end Pocketboot.Kexec
