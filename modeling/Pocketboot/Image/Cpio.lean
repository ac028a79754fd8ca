import Pocketboot.Base.Checked
import Pocketboot.Base.Hex
import Pocketboot.Base.Records

/-!
# The cpio writer

The initial file system is an archive in the newc format.  A reader finds the
members from the sizes in their headers alone, so every one has to say where
the next begins.
-/

namespace Pocketboot.Image

/-- How the writes to the file end: the write with a number may fail. -/
structure FileIo where
  write : Nat → Option String
  flush : Option String

structure NewcWriter where
  file : Bytes
  offset : Nat
  ino : UInt32
  /-- How many writes were made. -/
  writes : Nat
  deriving DecidableEq, Repr

namespace NewcWriter

def create : NewcWriter := ⟨[], 0, 1, 0⟩

def writeAll (io : FileIo) (writer : NewcWriter) (bytes : Bytes) :
    Run Text NewcWriter :=
  match io.write writer.writes with
  | some error => Run.fail ("write initrd: ".toList ++ error.toList)
  | none => .ok { writer with
      file := writer.file ++ bytes
      offset := writer.offset + bytes.length
      writes := writer.writes + 1 }

def padTo4 (io : FileIo) (writer : NewcWriter) : Run Text NewcWriter :=
  let pad := (4 - writer.offset % 4) % 4
  if pad ≠ 0 then writer.writeAll io (List.replicate pad 0) else .ok writer

/-- The header that `entry` formats. -/
def header (ino mode nlink mtime : UInt32) (filesize : Nat)
    (rdevmajor rdevminor : UInt32) (namesize : Nat) : Text :=
  "070701".toList ++ Text.hexAtLeast 8 ino.toNat ++
    Text.hexAtLeast 8 mode.toNat ++ Text.hexAtLeast 8 0 ++
    Text.hexAtLeast 8 0 ++ Text.hexAtLeast 8 nlink.toNat ++
    Text.hexAtLeast 8 mtime.toNat ++ Text.hexAtLeast 8 filesize ++
    Text.hexAtLeast 8 0 ++ Text.hexAtLeast 8 0 ++
    Text.hexAtLeast 8 rdevmajor.toNat ++ Text.hexAtLeast 8 rdevminor.toNat ++
    Text.hexAtLeast 8 namesize ++ Text.hexAtLeast 8 0

def entry (io : FileIo) (sourceDateEpoch : UInt32) (writer : NewcWriter)
    (name : Text) (mode nlink rdevmajor rdevminor : UInt32) (contents : Bytes) :
    Run Text NewcWriter := do
  Run.ensure (name.head? ≠ some '/')
    ("cpio entry must be relative: ".toList ++ name)
  let namesize := name.utf8.length + 1
  Run.ensure (contents.length < 2 ^ 32)
    ("cpio entry too large: ".toList ++ name)
  let filesize := contents.length
  let header := header writer.ino mode nlink sourceDateEpoch filesize rdevmajor
    rdevminor namesize
  let writer ← writer.writeAll io header.utf8
  let writer ← writer.writeAll io name.utf8
  let writer ← writer.writeAll io [0]
  let writer ← writer.padTo4 io
  let writer ← writer.writeAll io contents
  let writer ← writer.padTo4 io
  return { writer with ino := writer.ino + 1 }

end NewcWriter

/-- What the archive is made of. -/
inductive Member where
  | dir (name : Text) (mode : UInt32)
  | file (name : Text) (contents : Bytes) (mode : UInt32)
  | symlink (name : Text) (target : Bytes)
  | charDev (name : Text) (mode major minor : UInt32)
  deriving DecidableEq, Repr

namespace NewcWriter

variable (io : FileIo) (sourceDateEpoch : UInt32) (writer : NewcWriter)

def dir (name : Text) (mode : UInt32) : Run Text NewcWriter :=
  writer.entry io sourceDateEpoch name (0o040000 ||| mode) 2 0 0 []

/-- `file` and `file_with_mode`, with what they read. -/
def fileMember (name : Text) (contents : Bytes) (mode : UInt32) :
    Run Text NewcWriter :=
  writer.entry io sourceDateEpoch name (0o100000 ||| mode) 1 0 0 contents

def symlink (name : Text) (target : Bytes) : Run Text NewcWriter :=
  writer.entry io sourceDateEpoch name (0o120000 ||| 0o777) 1 0 0 target

def charDev (name : Text) (mode major minor : UInt32) : Run Text NewcWriter :=
  writer.entry io sourceDateEpoch name (0o020000 ||| mode) 1 major minor []

def member : Member → Run Text NewcWriter
  | .dir name mode => writer.dir io sourceDateEpoch name mode
  | .file name contents mode =>
      writer.fileMember io sourceDateEpoch name contents mode
  | .symlink name target => writer.symlink io sourceDateEpoch name target
  | .charDev name mode major minor =>
      writer.charDev io sourceDateEpoch name mode major minor

/-- The file that is left. -/
def finish : Run Text Bytes := do
  let writer ← writer.entry io sourceDateEpoch "TRAILER!!!".toList 0 1 0 0 []
  match io.flush with
  | some error => Run.fail ("flush initrd: ".toList ++ error.toList)
  | none => .ok writer.file

end NewcWriter

/-- What a member is to a reader. -/
structure Stored where
  name : Bytes
  mode : Nat
  rdevmajor : Nat
  rdevminor : Nat
  contents : Bytes
  deriving DecidableEq, Repr

/-- The zeros up to a multiple of four. -/
def padding (length : Nat) : Bytes :=
  List.replicate ((4 - length % 4) % 4) 0

theorem align4_of_dvd {value : Nat} (aligned : 4 ∣ value) :
    align4 value = value := by
  rw [align4]
  omega

/-- The bytes of an entry that starts at a multiple of four. -/
def entryBytes (header name contents : Bytes) : Bytes :=
  let named := header ++ name ++ [0]
  let whole := named ++ padding named.length ++ contents
  whole ++ padding whole.length

namespace NewcWriter

variable {io : FileIo} {writer next last : NewcWriter}

/-- The offset is the length of the file. -/
def InStep (writer : NewcWriter) : Prop := writer.offset = writer.file.length

/-- Some bytes were appended. -/
structure Appends (writer : NewcWriter) (bytes : Bytes) (next : NewcWriter) :
    Prop where
  file : next.file = writer.file ++ bytes
  inStep : next.InStep
  ino : next.ino = writer.ino

theorem Appends.trans {front back : Bytes}
    (first : writer.Appends front next) (second : next.Appends back last) :
    writer.Appends (front ++ back) last where
  file := by rw [second.file, first.file, List.append_assoc]
  inStep := second.inStep
  ino := second.ino.trans first.ino

end NewcWriter

/-- The arguments of an entry. -/
structure EntryData where
  name : Text
  mode : UInt32
  nlink : UInt32
  rdevmajor : UInt32
  rdevminor : UInt32
  contents : Bytes
  deriving DecidableEq, Repr

def Member.data : Member → EntryData
  | .dir name mode => ⟨name, 0o040000 ||| mode, 2, 0, 0, []⟩
  | .file name contents mode => ⟨name, 0o100000 ||| mode, 1, 0, 0, contents⟩
  | .symlink name target => ⟨name, 0o120000 ||| 0o777, 1, 0, 0, target⟩
  | .charDev name mode major minor =>
      ⟨name, 0o020000 ||| mode, 1, major, minor, []⟩

namespace EntryData

/-- What the reader is to find. -/
def stored (data : EntryData) : Stored :=
  ⟨data.name.utf8, data.mode.toNat, data.rdevmajor.toNat, data.rdevminor.toNat,
    data.contents⟩

/-- The bytes of the entry. -/
def bytes (epoch ino : UInt32) (data : EntryData) : Bytes :=
  entryBytes (NewcWriter.header ino data.mode data.nlink epoch
    data.contents.length data.rdevmajor data.rdevminor
      (data.name.utf8.length + 1)).utf8 data.name.utf8 data.contents

/-- The guards of `entry`. -/
def Accepted (data : EntryData) : Prop :=
  data.name.head? ≠ some '/' ∧ data.contents.length < 2 ^ 32

instance (data : EntryData) : Decidable data.Accepted :=
  inferInstanceAs (Decidable (_ ∧ _))

end EntryData

namespace NewcWriter

variable {io : FileIo} {writer next : NewcWriter} {epoch : UInt32}

/-- The writer after whole entries. -/
structure Whole (writer : NewcWriter) : Prop where
  inStep : writer.InStep
  aligned : 4 ∣ writer.file.length

end NewcWriter

/-- A field of the header. -/
def fieldBytes (value : Nat) : Bytes :=
  (Text.hexDigits 8 value).map fun letter => UInt8.ofNat letter.toNat

/-- A header of fields that fit their digits. -/
def headerBytes (values : List Nat) : Bytes :=
  byteString "070701" ++ records (fun value _ => fieldBytes value) 0 values 0

/-- The numbers of a header, in the order of its fields. -/
def EntryData.fields (epoch ino : UInt32) (data : EntryData) : List Nat :=
  [ino.toNat, data.mode.toNat, 0, 0, data.nlink.toNat, epoch.toNat,
    data.contents.length, 0, 0, data.rdevmajor.toNat, data.rdevminor.toNat,
    data.name.utf8.length + 1, 0]

namespace NewcWriter

variable {io : FileIo} {epoch : UInt32}

end NewcWriter

end Pocketboot.Image
