import Pocketboot.AbSlots.Disks
import Pocketboot.AbSlots.Interrupted

/-!
# Switching the active slot

`setActiveSlot` loads, checks and commits one disk after the other.  A disk
that fails a check stops the loop, but the disks before it stay committed.
-/

namespace Pocketboot.AbSlots

open Storage

/-- How a disk's device node answers: opening it for reading, the errors of
single reads, and a commit. -/
structure DiskIo where
  openError : Option IoError := none
  readError : Nat → Nat → Option IoError := fun _ _ => none
  commit : CommitIo := {}

def DiskIo.openFile (io : DiskIo) (device : Device) : Run IoError ReadAt :=
  match io.openError with
  | some error => Run.fail error
  | none => .ok fun length offset =>
      match io.readError length offset with
      | some error => Run.fail error
      | none => device.readExactAt length offset

/-- The block devices, by disk name. -/
abbrev Store : Type := Name → Device

/-- The device answers, by disk name. -/
abbrev Environment : Type := Name → DiskIo

/-- The loop over a disk's pairs: the updated tables and the number of pairs
updated. -/
def updatePairs (slot : Slot) : GptDisk → List Name →
    Run IoError (GptDisk × Nat)
  | gpt, [] => return (gpt, 0)
  | gpt, base :: rest =>
      if base = "xbl".toList then updatePairs slot gpt rest
      else
        match gpt.setActivePair base slot with
        | (_, .error fault) => .error fault
        | (gpt, .ok .updated) => do
            let (gpt, updated) ← updatePairs slot gpt rest
            return (gpt, updated + 1)
        | (gpt, .ok .skippedNoActiveMetadata) =>
            if base = "boot".toList then
              Run.fail (invalidData
                "boot_a/boot_b have no active slot metadata")
            else updatePairs slot gpt rest

/-- A disk whose pairs were all updated in memory. -/
structure Prepared where
  gpt : GptDisk
  sawBootPair : Bool
  updatedPairs : Nat

/-- The part of the loop body before the commit; `none` is a disk that cannot
be loaded and does not hold the boot partitions. -/
def prepare (io : DiskIo) (device : Device) (bootDisk : Name) (slot : Slot)
    (disk : Disk) : Run IoError (Option Prepared) :=
  match GptDisk.load disk (io.openFile device) with
  | .error (.error error) =>
      if disk.name = bootDisk then
        Run.fail ⟨error.kind, s!"load GPT for boot slot disk " ++
          s!"{String.ofList disk.name}: {error.message}"⟩
      else return none
  | .error fault => .error fault
  | .ok gpt => do
      let pairs ← gpt.slotPairs
      let (gpt, updated) ← updatePairs slot gpt pairs
      return some ⟨gpt, "boot".toList ∈ pairs, updated⟩

/-- What a disk adds to `saw_boot_pair` and `updated_pairs`. -/
structure Report where
  sawBootPair : Bool
  updatedPairs : Nat
  deriving DecidableEq, Repr

/-- The loop body on one disk's device. -/
def switchDisk (io : DiskIo) (device : Device) (bootDisk : Name) (slot : Slot)
    (disk : Disk) : Device × Run Failure Report :=
  match prepare io device bootDisk slot disk with
  | .error fault => (device, Run.mapError .check (.error fault))
  | .ok none => (device, .ok ⟨false, 0⟩)
  | .ok (some prepared) =>
      let report := Report.mk prepared.sawBootPair prepared.updatedPairs
      if prepared.updatedPairs = 0 then (device, .ok report)
      else
        match prepared.gpt.commit io.commit device with
        | (device, .error fault) => (device, .error fault)
        | (device, .ok ()) => (device, .ok report)

end Pocketboot.AbSlots
