import Pocketboot.Kexec.ChosenPatch
import Pocketboot.Kexec.Iomem
import Pocketboot.Kexec.Placement

/-!
# Loading an image

`arm64::load` places the kernel, the initrd, the device tree and a trampoline
in the usable memory that the new kernel's device tree does not reserve, and
hands the segments to the kernel.
-/

namespace Pocketboot.Kexec

open DeviceTree

def pageSize : Nat := 4096
def sz2M : Nat := 2 * 1024 * 1024
def sz16M : Nat := 16 * 1024 * 1024
def sz1G : Nat := 1024 * 1024 * 1024
def sz32G : Nat := 32 * sz1G
def maxDtbSize : Nat := 2 * 1024 * 1024
def kexecSegmentMax : Nat := 16
def arm64ImageMagic : Nat := 0x644d5241

/-- `checked_add` of physical addresses. -/
def checkedAddress (left right : Nat) : Result Nat :=
  Run.ofOption (invalidInput "physical address overflow")
    (checkedAdd left right)

def pageAlign (value : Nat) : Result Nat :=
  Run.ofOption (invalidInput "size overflow")
    ((checkedAdd value (pageSize - 1)).map (maskDown · pageSize))

/-- The range of `u64` addresses from `start` on that is `size` long. -/
def rangeOf (start size : Nat) : Result PhysRange :=
  if word : start + size < wordSize then
    .ok ⟨start, start + size, by omega, word⟩
  else Run.fail (invalidInput "physical address overflow")

structure ImageHeader where
  textOffset : Nat
  imageSize : Nat

/-- `ImageHeader::parse`. -/
def imageHeaderParse (kernel : Bytes) : Result ImageHeader := do
  Run.ensure (64 ≤ kernel.length)
    (invalidData "arm64 Image is smaller than its 64-byte header")
  let magic ← sliceOrPanic kernel 56 60
  Run.ensure (Bytes.ofLe magic = arm64ImageMagic)
    (invalidData "kernel is not a raw arm64 Image")
  let rawTextOffset ← sliceOrPanic kernel 8 16
  let rawImageSize ← sliceOrPanic kernel 16 24
  if Bytes.ofLe rawImageSize = 0 then
    return ⟨0x80000, max kernel.length sz16M⟩
  else return ⟨Bytes.ofLe rawTextOffset, Bytes.ofLe rawImageSize⟩

inductive SegmentName where
  | kernel
  | initrd
  | dtb
  | trampoline
  deriving DecidableEq, Repr

structure LoadedSegment where
  name : SegmentName
  data : Bytes
  phys : Nat
  memsz : Nat
  deriving DecidableEq

/-- The trampoline as it is linked: its code, and the addresses of its symbols. -/
structure TrampolineImage where
  start : Nat
  kernelEntry : Nat
  dtbAddr : Nat
  stop : Nat
  code : Bytes
  length_eq : code.length = stop - start
  kernelEntry_lt : kernelEntry + 8 < wordSize
  dtbAddr_lt : dtbAddr + 8 < wordSize

def buildTrampoline (image : TrampolineImage) (kernelEntry dtbAddr : Nat) :
    Result Bytes := do
  Run.ensure (image.start ≤ image.kernelEntry ∧
      image.kernelEntry + 8 ≤ image.stop ∧
      image.start ≤ image.dtbAddr ∧ image.dtbAddr + 8 ≤ image.stop)
    (invalidData "invalid arm64 trampoline symbol layout")
  let kernelOffset := image.kernelEntry - image.start
  let dtbOffset := image.dtbAddr - image.start
  return Bytes.splice
    (Bytes.splice image.code kernelOffset (Bytes.toLe 8 kernelEntry))
    dtbOffset (Bytes.toLe 8 dtbAddr)

/-- `find_region` with the error for a region that is not there. -/
def placeOr (missing : String) (usable occupied : List PhysRange)
    (size align min max : Nat) : Result Nat :=
  (findRegion usable occupied size align min max).mapError fun _ =>
    ⟨.other, missing⟩

def readUsableMemory (iomem : Result Text) : Result (List PhysRange) := do
  let iomem ← iomem
  let ranges := parseIomem iomem
  Run.ensure (ranges ≠ [])
    (invalidData "no usable System RAM ranges found in /proc/iomem")
  return ranges

/-- A range of two `u64` values. -/
def PhysRange.ofWords (start stop : Nat) : PhysRange :=
  ⟨start % wordSize, stop % wordSize, Nat.mod_lt _ (by decide),
    Nat.mod_lt _ (by decide)⟩

/-- The usable memory that the device tree does not reserve. -/
def unreservedMemory (iomem : Result Text) (dtb : Bytes) :
    Result (List PhysRange) := do
  let usable ← readUsableMemory iomem
  let reserved ← reservedRanges dtb
  let usable := reserved.foldl
    (fun usable range => subtractRange usable (.ofWords range.1 range.2))
    usable
  Run.ensure (usable ≠ []) (invalidData
    "destination DTB reservations exclude all usable System RAM")
  return usable

/-- The kernel, and the region it occupies from a boundary of 2 MiB on. -/
def placeKernel (usable : List PhysRange) (header : ImageHeader)
    (kernel : Bytes) : Result (LoadedSegment × PhysRange) := do
  let memsz ← pageAlign (max header.imageSize kernel.length)
  let size ← checkedAddress header.textOffset memsz
  let base ← placeOr "no suitable RAM hole for kernel" usable [] size sz2M 0
    (wordSize - 1)
  let entry ← checkedAddress base header.textOffset
  let region ← rangeOf base size
  return (⟨.kernel, kernel, entry, memsz⟩, region)

/-- The initrd, unless there is none: its segment, the range it occupies, and
the addresses of its bytes. -/
def placeInitrd (usable : List PhysRange) (region : PhysRange)
    (kernel : LoadedSegment) (initrd : Option Bytes) :
    Result (Option (LoadedSegment × PhysRange × (Nat × Nat))) :=
  match initrd.filter (· ≠ []) with
  | none => return none
  | some initrd => do
      let memsz ← pageAlign initrd.length
      let low ← checkedAddress kernel.phys kernel.memsz
      let high ← checkedAddress (maskDown kernel.phys sz1G) sz32G
      let phys ← placeOr "no suitable RAM hole for initrd" usable [region] memsz
        pageSize low high
      let stop ← checkedAddress phys initrd.length
      let occupied ← rangeOf phys memsz
      return some (⟨.initrd, initrd, phys, memsz⟩, occupied, (phys, stop))

def placeDtb (usable occupied : List PhysRange) (kernel : LoadedSegment)
    (dtb : Bytes) : Result (LoadedSegment × PhysRange) := do
  Run.ensure (dtb.length ≤ maxDtbSize) (invalidData
    s!"patched DTB is too large: {dtb.length} bytes > {maxDtbSize} bytes")
  let memsz ← pageAlign dtb.length
  let low ← checkedAddress kernel.phys kernel.memsz
  let phys ← placeOr "no suitable RAM hole for DTB" usable occupied memsz sz2M
    low (wordSize - 1)
  let region ← rangeOf phys memsz
  return (⟨.dtb, dtb, phys, memsz⟩, region)

def placeTrampoline (image : TrampolineImage) (usable occupied : List PhysRange)
    (kernel dtb : LoadedSegment) : Result LoadedSegment := do
  let low := kernel.phys + kernel.memsz
  let code ← buildTrampoline image kernel.phys dtb.phys
  let memsz ← pageAlign code.length
  let phys ← placeOr "no suitable RAM hole for trampoline" usable occupied memsz
    pageSize low (wordSize - 1)
  return ⟨.trampoline, code, phys, memsz⟩

/-- What `load` passes to the system call. -/
structure KexecCall where
  entry : Nat
  segments : List LoadedSegment
  deriving DecidableEq

/-- `load`, up to the system call. -/
def load (iomem : Result Text) (image : TrampolineImage) (kernel : Bytes)
    (initrd : Option Bytes) (dtb : Bytes) (cmdline : Str) :
    Result KexecCall := do
  Run.ensure (kernel ≠ []) (invalidInput "kernel payload is empty")
  Run.ensure (dtb ≠ []) (invalidInput "DTB payload is empty")
  let header ← imageHeaderParse kernel
  Run.ensure (header.textOffset % pageSize = 0) (invalidData
    ("arm64 Image text_offset is not page-aligned: 0x" ++
      String.ofList (Nat.toDigits 16 header.textOffset)))
  let usable ← unreservedMemory iomem dtb
  let (kernel, region) ← placeKernel usable header kernel
  let initrd ← placeInitrd usable region kernel initrd
  let occupied := region :: (initrd.map fun placed => placed.2.1).toList
  let dtb ← patchChosen dtb cmdline (initrd.map fun placed => placed.2.2)
  let (dtb, dtbRegion) ← placeDtb usable occupied kernel dtb
  let trampoline ← placeTrampoline image usable (occupied ++ [dtbRegion]) kernel
    dtb
  let segments := kernel :: (initrd.map fun placed => placed.1).toList ++
    [dtb, trampoline]
  Run.ensure (segments.length ≤ kexecSegmentMax) (invalidInput
    s!"too many kexec segments: {segments.length} > {kexecSegmentMax}")
  return ⟨trampoline.phys, segments⟩

/-! ## Sizes and addresses -/

section

variable {value result left right start size : Nat} {region : PhysRange}

theorem pageAlign_eq_ok (aligned : pageAlign value = .ok result) :
    pageSize ∣ result ∧ value ≤ result := by
  obtain ⟨sum, added, rfl⟩ :=
    Option.map_eq_some_iff.mp (Run.ofOption_eq_ok.mp aligned)
  obtain ⟨bound, rfl⟩ := checkedAdd_eq_some.mp added
  have rounded : maskDown (value + (pageSize - 1)) pageSize =
      (value + (pageSize - 1)) / pageSize * pageSize :=
    @maskDown_two_pow _ 12 bound (by decide)
  rw [rounded]
  refine ⟨Nat.dvd_mul_left _ _, ?_⟩
  unfold pageSize
  omega

theorem pageAlign_returns (value : Nat) : (pageAlign value).Returns :=
  Run.returns_ofOption _ _

theorem checkedAddress_eq_ok :
    checkedAddress left right = .ok result ↔
      left + right < wordSize ∧ result = left + right := by
  rw [checkedAddress, Run.ofOption_eq_ok, checkedAdd_eq_some, eq_comm]

theorem checkedAddress_returns (left right : Nat) :
    (checkedAddress left right).Returns :=
  Run.returns_ofOption _ _

theorem rangeOf_eq_ok (built : rangeOf start size = .ok region) :
    region.start = start ∧ region.stop = start + size := by
  unfold rangeOf at built
  split at built
  · cases built
    exact ⟨rfl, rfl⟩
  · cases built

theorem rangeOf_returns (start size : Nat) : (rangeOf start size).Returns := by
  unfold rangeOf
  split
  · exact Run.returns_ok _
  · exact Run.returns_fail _

end

/-! ## Where a region is found -/

section

variable {usable occupied : List PhysRange} {missing : String}
  {size exponent min max address : Nat}

theorem placeOr_fits (small : exponent ≤ 64) (canonical : Canonical usable)
    (nonempty : ∀ range ∈ occupied, range.Nonempty)
    (placed : placeOr missing usable occupied size (2 ^ exponent) min max =
      .ok address) :
    0 < size ∧ Fits usable occupied size (2 ^ exponent) min max address := by
  have sorted := canonical.sorted
  rw [placeOr, Run.mapError_eq_ok, findRegion] at placed
  split at placed
  · cases placed
  · rename_i sized
    rw [not_or] at sized
    have positive : 0 < size := by omega
    obtain ⟨found, same, least⟩ | ⟨fails, _⟩ := @findRegionIn_answers usable
      occupied size min max exponent small sorted nonempty positive
    · cases placed.symm.trans same
      exact ⟨positive, least.1⟩
    · cases placed.symm.trans fails

theorem placeOr_returns (small : exponent ≤ 64) (canonical : Canonical usable)
    (nonempty : ∀ range ∈ occupied, range.Nonempty) :
    (placeOr missing usable occupied size (2 ^ exponent) min max).Returns := by
  have sorted := canonical.sorted
  refine Run.Returns.mapError ?_ _
  rw [findRegion]
  split
  · exact Run.returns_fail _
  · rename_i sized
    rw [not_or] at sized
    obtain ⟨found, same, _⟩ | ⟨fails, _⟩ := @findRegionIn_answers usable
      occupied size min max exponent small sorted nonempty (by omega)
    · rw [same]
      exact Run.returns_ok _
    · rw [fails]
      exact Run.returns_fail _

end

end Pocketboot.Kexec
