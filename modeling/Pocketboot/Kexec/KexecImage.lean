import Pocketboot.Kexec.Handoff
import Pocketboot.Kexec.LoadPlacement
import Pocketboot.Kexec.MemoryGraft

/-!
# Images that are loaded over waiting CPUs

An image brings its own device tree, or the running one is used again.  Either
way the tree goes through `graft_spin_table` before `load` places anything, so
no segment comes to lie over the page in which the CPUs wait, and the tree the
next kernel gets says where they are.
-/

namespace Pocketboot.Kexec

open DeviceTree

/-- The running tree cannot be read. -/
def unreadableDtb (context : String) (error : IoError) : IoError :=
  ⟨error.kind, s!"{context}: {error.message}"⟩

/-- The running tree, with its own page reserved. -/
def readCurrentDtb (liveDtb : Result Bytes) : Result Bytes := do
  let dtb ← liveDtb.mapError (unreadableDtb
    "no DTB supplied and /sys/firmware/fdt could not be read")
  graftSpinTable dtb dtb

/-- A supplied tree with the memory and the CPUs of the running one. -/
def withLiveMemory (liveDtb : Result Bytes) (dtb : Bytes) : Result Bytes := do
  let liveDtb ← liveDtb.mapError (unreadableDtb
    "DTB supplied but /sys/firmware/fdt could not be read for /memory graft")
  let grafted ← graftMemory dtb liveDtb
  graftSpinTable grafted liveDtb

/-- An image; for each of its files, what reading it returns. -/
structure KexecImage where
  kernel : Result Bytes
  initrd : Option (Result Bytes)
  dtb : Option (Result Bytes)
  cmdline : Str
  noNul : (0 : UInt8) ∉ cmdline.bytes

namespace KexecImage

def new (kernel : Result Bytes) (initrd dtb : Option (Result Bytes))
    (cmdline : Str) : Result KexecImage :=
  if noNul : (0 : UInt8) ∉ cmdline.bytes then
    .ok ⟨kernel, initrd, dtb, cmdline, noNul⟩
  else Run.fail (invalidInput "cmdline contains NUL byte")

/-- A file of an image that may have none. -/
def readOptional : Option (Result Bytes) → Result (Option Bytes)
  | some payload => some <$> payload
  | none => .ok none

/-- The tree that is loaded with an image. -/
def targetDtb (image : KexecImage) (liveDtb : Result Bytes) : Result Bytes :=
  match image.dtb with
  | some dtb => do withLiveMemory liveDtb (← dtb)
  | none => readCurrentDtb liveDtb

def load (image : KexecImage) (liveDtb : Result Bytes) (iomem : Result Text)
    (trampoline : TrampolineImage) : Result KexecCall := do
  let kernel ← image.kernel
  let initrd ← readOptional image.initrd
  let dtb ← image.targetDtb liveDtb
  Kexec.load iomem trampoline kernel initrd dtb image.cmdline

end KexecImage

section

variable {contract : SpinTableContract} {dtb liveDtb blob : Bytes}
  {target root live : ContractNode} {entries : List Reservation}
  {image : KexecImage} {iomem : Text} {trampoline : TrampolineImage}
  {call : KexecCall}

/-- What `load` gets of an image. -/
theorem KexecImage.load_eq_ok
    (loads : image.load (.ok liveDtb) (.ok iomem) trampoline = .ok call) :
    ∃ kernel initrd blob, image.targetDtb (.ok liveDtb) = .ok blob ∧
      Kexec.load (.ok iomem) trampoline kernel initrd blob image.cmdline =
        .ok call := by
  obtain ⟨kernel, _, loads⟩ := Run.bind_eq_ok.mp loads
  obtain ⟨initrd, _, loads⟩ := Run.bind_eq_ok.mp loads
  obtain ⟨blob, targets, loads⟩ := Run.bind_eq_ok.mp loads
  exact ⟨kernel, initrd, blob, targets, loads⟩

end

end Pocketboot.Kexec
