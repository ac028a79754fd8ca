import Pocketboot.AbSlots.Update

/-!
# Committing the tables

`commit` recomputes the four checksums and writes entry array and header of
the primary copy, then entry array and header of the backup copy.  Each header
goes to the LBA its own `current_lba` field names.
-/

namespace Pocketboot.AbSlots

open Storage

def updateEntryArrayCrc (header entries : Bytes) : Run IoError Bytes :=
  writeU32Le header 88 (crc32Ieee entries).toNat

def updateHeaderCrc (header : Bytes) : Run IoError Bytes := do
  let headerSize ← readU32Le header 12
  Run.ensure (gptMinHeaderSize ≤ headerSize ∧ headerSize ≤ header.length)
    (invalidData "GPT header size is invalid")
  let header ← writeU32Le header 16 0
  writeU32Le header 16 (crc32Ieee (header.take headerSize)).toNat

/-- How the device answers a commit: opening it for writing, the number of
bytes it accepts before a write fails, and the flush. -/
structure CommitIo where
  openError : Option IoError := none
  writeStop : Option (Nat × IoError) := none
  syncError : Option IoError := none

/-- What a failing call of the slot switcher reports; the constructor records
whether a device write or flush failed or anything else. -/
inductive Failure where
  | check (error : IoError)
  | deviceWrite (error : IoError)
  | deviceFlush (error : IoError)
  deriving DecidableEq, Repr

/-- The writes of `write_all_at` calls, each at the byte offset of an LBA, up
to the first offset that overflows. -/
def lbaWrites (logicalBlockSize : Nat) :
    List (Nat × Bytes) → List (Write UInt8) × Run IoError Unit
  | [] => ([], .ok ())
  | (lba, data) :: rest =>
      match checkedLbaOffset lba logicalBlockSize with
      | .error fault => ([], .error fault)
      | .ok offset =>
          let (writes, outcome) := lbaWrites logicalBlockSize rest
          (⟨offset, data⟩ :: writes, outcome)

/-- The number of cells written before one would lie past the device's end. -/
def cellsInside (size : Nat) : List (Write UInt8) → Nat
  | [] => 0
  | write :: rest =>
      if write.offset + write.data.length ≤ size then
        write.data.length + cellsInside size rest
      else size - write.offset

def totalCells (writes : List (Write UInt8)) : Nat :=
  (writes.map fun write => write.data.length).sum

namespace GptDisk

/-- The checksum updates at the start of `commit`. -/
def updateCrcs (disk : GptDisk) : Run IoError GptDisk := do
  let primary ←
    updateEntryArrayCrc disk.primaryHeaderBytes disk.primaryEntries
  let backup ← updateEntryArrayCrc disk.backupHeaderBytes disk.backupEntries
  let primary ← updateHeaderCrc primary
  let backup ← updateHeaderCrc backup
  return { disk with primaryHeaderBytes := primary,
                     backupHeaderBytes := backup }

/-- The writes of `commit`, in order. -/
def commitWrites (disk : GptDisk) : List (Write UInt8) × Run IoError Unit :=
  lbaWrites disk.disk.logicalBlockSize
    [(disk.primaryHeader.entriesLba, disk.primaryEntries),
     (disk.primaryHeader.currentLba, disk.primaryHeaderBytes),
     (disk.backupHeader.entriesLba, disk.backupEntries),
     (disk.backupHeader.currentLba, disk.backupHeaderBytes)]

/-- The write calls of `commit` and its flush; `writes` ends early when the
byte offset of the next write overflows. -/
def writeAll (io : CommitIo) (device : Device) :
    List (Write UInt8) × Run IoError Unit → Device × Run Failure Unit
  | (writes, outcome) =>
      let total := totalCells writes
      let accepted := min (cellsInside device.size writes)
        ((io.writeStop.map Prod.fst).getD total)
      let device := { device with
        byte := runWrites device.byte (takeCells accepted writes) }
      if accepted < total then
        (device, Run.fail (.deviceWrite
          ((io.writeStop.map Prod.snd).getD ⟨.writeZero, "short GPT write"⟩)))
      else
        match outcome, io.syncError with
        | .error fault, _ => (device, Run.mapError .check (.error fault))
        | .ok (), some error => (device, Run.fail (.deviceFlush error))
        | .ok (), none => (device, .ok ())

/-- `GptDisk::commit`: the device it leaves and its outcome. -/
def commit (io : CommitIo) (device : Device) (disk : GptDisk) :
    Device × Run Failure Unit :=
  match disk.updateCrcs with
  | .error fault => (device, Run.mapError .check (.error fault))
  | .ok disk =>
      match io.openError with
      | some error => (device, Run.fail (.check error))
      | none => writeAll io device disk.commitWrites

end GptDisk

end Pocketboot.AbSlots
