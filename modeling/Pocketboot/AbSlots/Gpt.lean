import Pocketboot.Base.Text
import Pocketboot.Storage.Writes

/-!
# GPT tables with A/B slot metadata

The tables of one disk as the slot switcher loads them: the two headers with
their sectors, and the two partition entry arrays.  A Rust `String` is the list
of its characters here.
-/

namespace Pocketboot.AbSlots

open Storage

/-- A partition or disk name. -/
abbrev Name : Type := Text

instance : LawfulBEq Name := inferInstanceAs (LawfulBEq (List Char))

def gptSignature : Bytes := [0x45, 0x46, 0x49, 0x20, 0x50, 0x41, 0x52, 0x54]
def gptMinHeaderSize : Nat := 92
def gptMinEntrySize : Nat := 128
def gptTableMaxBytes : Nat := 16 * 1024 * 1024
def partitionNameOffset : Nat := 56
def partitionNameBytes : Nat := 72
def typeGuidSize : Nat := 16
def abFlagOffset : Nat := 48 + 6
def abPartitionAttrSlotActive : UInt8 := (0x1 : UInt8) <<< 2
def abSlotActiveVal : UInt8 := 0x0f

inductive Slot where
  | a
  | b
  deriving DecidableEq, Repr

/-- An entry of a disk's sysfs directory: whether it has a `partition` file,
and its `uevent` file when that can be read. -/
structure SysfsEntry where
  isPartition : Bool
  uevent : Option Text

/-- A whole disk.  Its size is a `u64`, and `local_disks` only keeps logical
block sizes of at least 512. -/
structure Disk where
  name : Name
  logicalBlockSize : Nat
  totalBytes : Nat
  /-- The listing of the disk's sysfs directory. -/
  sysfs : Run IoError (List (Run IoError SysfsEntry))
  blockSize_ge : 512 ≤ logicalBlockSize
  totalBytes_lt : totalBytes < wordSize

/-- The content of a block device. -/
structure Device where
  size : Nat
  byte : Nat → UInt8

/-- `read_exact_at`: the bytes at an offset, or an error at the device's end. -/
def Device.readExactAt (device : Device) (length offset : Nat) :
    Run IoError Bytes :=
  if length = 0 ∨ offset + length ≤ device.size then
    .ok (readRange device.byte offset length)
  else .error (.error ⟨.unexpectedEof, "block device ended early"⟩)

/-- How an open file answers `read_exact_at` (length, offset). -/
abbrev ReadAt : Type := Nat → Nat → Run IoError Bytes

def readU32Le (raw : Bytes) (start : Nat) : Run IoError Nat := do
  Run.ensure (start + 4 ≤ raw.length) (invalidData "u32 field exceeds record")
  return Bytes.ofLe (Bytes.slice raw start (start + 4))

def readU64Le (raw : Bytes) (start : Nat) : Run IoError Nat := do
  Run.ensure (start + 8 ≤ raw.length) (invalidData "u64 field exceeds record")
  return Bytes.ofLe (Bytes.slice raw start (start + 8))

def writeU32Le (raw : Bytes) (start value : Nat) : Run IoError Bytes := do
  Run.ensure (start + 4 ≤ raw.length) (invalidData "u32 field exceeds record")
  return Bytes.splice raw start (Bytes.toLe 4 value)

/-- One bit of the reflected IEEE CRC-32. -/
def crc32Bit (crc : UInt32) : UInt32 :=
  let mask := -(crc &&& 1)
  (crc >>> 1) ^^^ (0xedb88320 &&& mask)

def crc32Byte (crc : UInt32) (byte : UInt8) : UInt32 :=
  Nat.iterate crc32Bit 8 (crc ^^^ byte.toUInt32)

def crc32Ieee (data : Bytes) : UInt32 :=
  ~~~(data.foldl crc32Byte 0xffffffff)

example : crc32Ieee [0x31, 0x32, 0x33, 0x34, 0x35, 0x36, 0x37, 0x38, 0x39] =
    0xcbf43926 := by decide +kernel

structure GptHeader where
  currentLba : Nat
  backupLba : Nat
  entriesLba : Nat
  entryCount : Nat
  entrySize : Nat
  entryArrayCrc32 : Nat
  deriving DecidableEq, Repr

/-- The CRC of a header's first `headerSize` bytes with its CRC field zeroed. -/
def headerCrc (raw : Bytes) (headerSize : Nat) : UInt32 :=
  crc32Ieee (Bytes.splice (raw.take headerSize) 16 [0, 0, 0, 0])

def parseGptHeader (raw : Bytes) (totalBlocks : Nat) :
    Run IoError GptHeader := do
  Run.ensure (gptMinHeaderSize ≤ raw.length ∧ raw.take 8 = gptSignature)
    (invalidData "GPT header signature not found")
  let headerSize ← readU32Le raw 12
  Run.ensure (gptMinHeaderSize ≤ headerSize ∧ headerSize ≤ raw.length)
    (invalidData "GPT header size is invalid")
  let expectedCrc ← readU32Le raw 16
  Run.ensure ((headerCrc raw headerSize).toNat = expectedCrc)
    (invalidData "GPT header CRC mismatch")
  let currentLba ← readU64Le raw 24
  let backupLba ← readU64Le raw 32
  let firstUsableLba ← readU64Le raw 40
  let lastUsableLba ← readU64Le raw 48
  let entriesLba ← readU64Le raw 72
  let entryCount ← readU32Le raw 80
  let entrySize ← readU32Le raw 84
  let entryArrayCrc32 ← readU32Le raw 88
  Run.ensure (currentLba < totalBlocks ∧ backupLba < totalBlocks ∧
      entriesLba < totalBlocks)
    (invalidData "GPT header references LBAs outside disk")
  Run.ensure (firstUsableLba ≤ lastUsableLba)
    (invalidData "GPT usable LBA range is invalid")
  Run.ensure (entryCount ≠ 0 ∧ gptMinEntrySize ≤ entrySize)
    (invalidData "GPT partition entry shape is invalid")
  return { currentLba, backupLba, entriesLba, entryCount, entrySize,
           entryArrayCrc32 }

def validateEntryArrayCrc (entries : Bytes) (header : GptHeader) :
    Run IoError Unit :=
  Run.ensure ((crc32Ieee entries).toNat = header.entryArrayCrc32)
    (invalidData "GPT partition entry array CRC mismatch")

def checkedLbaOffset (lba logicalBlockSize : Nat) : Run IoError Nat :=
  Run.ofOption (invalidData "LBA offset overflows")
    (checkedMul lba logicalBlockSize)

def readLba (file : ReadAt) (logicalBlockSize lba : Nat) :
    Run IoError Bytes := do
  let offset ← checkedLbaOffset lba logicalBlockSize
  file logicalBlockSize offset

def tableBytes (header : GptHeader) : Run IoError Nat := do
  let bytes ← Run.ofOption
    (invalidData "GPT partition table size overflows")
    (checkedMul header.entryCount header.entrySize)
  Run.ensure (bytes ≠ 0 ∧ bytes ≤ gptTableMaxBytes)
    (invalidData s!"GPT partition table size {bytes} is unsupported")
  return bytes

def readEntryArray (file : ReadAt) (disk : Disk) (header : GptHeader) :
    Run IoError Bytes := do
  let bytes ← tableBytes header
  let offset ← checkedLbaOffset header.entriesLba disk.logicalBlockSize
  Run.ensure (saturatingAdd offset bytes ≤ disk.totalBytes)
    (invalidData "GPT partition table exceeds disk size")
  file bytes offset

structure GptDisk where
  disk : Disk
  primaryHeader : GptHeader
  backupHeader : GptHeader
  primaryHeaderBytes : Bytes
  backupHeaderBytes : Bytes
  primaryEntries : Bytes
  backupEntries : Bytes

/-- `GptDisk::load`; `openFile` is the outcome of opening the device node. -/
def GptDisk.load (disk : Disk) (openFile : Run IoError ReadAt) :
    Run IoError GptDisk := do
  let totalBlocks := disk.totalBytes / disk.logicalBlockSize
  Run.ensure (2 ≤ totalBlocks)
    (invalidData s!"disk {String.ofList disk.name} has too few GPT LBAs")
  let file ← openFile
  let primaryHeaderBytes ← readLba file disk.logicalBlockSize 1
  let primaryHeader ← parseGptHeader primaryHeaderBytes totalBlocks
  let backupHeaderBytes ←
    readLba file disk.logicalBlockSize primaryHeader.backupLba
  let backupHeader ← parseGptHeader backupHeaderBytes totalBlocks
  let primaryEntries ← readEntryArray file disk primaryHeader
  let backupEntries ← readEntryArray file disk backupHeader
  validateEntryArrayCrc primaryEntries primaryHeader
  validateEntryArrayCrc backupEntries backupHeader
  Run.ensure (primaryHeader.entryCount = backupHeader.entryCount ∧
      primaryHeader.entrySize = backupHeader.entrySize)
    (invalidData "primary and backup GPT entry shapes differ")
  return { disk, primaryHeader, backupHeader, primaryHeaderBytes,
           backupHeaderBytes, primaryEntries, backupEntries }

end Pocketboot.AbSlots
