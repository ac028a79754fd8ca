import Pocketboot.Base.IoError
import Pocketboot.Base.Stateful
import Pocketboot.Storage.Writes

/-!
# Flashing sparse images

`flash_sparse` and its helpers.  The source is a file with a read position;
the target is known by its position and by the writes it has received, and any
of its operations may fail.
-/

namespace Pocketboot.Fastboot

open Storage

def copyChunk : Nat := 1024 * 1024
def androidSparseMagicLe : Nat := 0xed26ff3a
def sparseHeaderSize : Nat := 28
def sparseChunkHeaderSize : Nat := 12
def sparseMajorVersion : Nat := 1
def sparseMinorVersion : Nat := 0
def sparseChunkRaw : Nat := 0xcac1
def sparseChunkFill : Nat := 0xcac2
def sparseChunkDontCare : Nat := 0xcac3
def sparseChunkCrc32 : Nat := 0xcac4

/-- Offsets of a file are below this bound. -/
def offsetLimit : Nat := 2 ^ 63

/-- What the operations on the target return.  The write with a given number
may fail after some of its bytes. -/
structure TargetIo where
  openError : Option IoError
  writeError : Nat → Option (Nat × IoError)
  syncError : Option IoError

/-- The positions in the two files and the writes done so far. -/
structure FlashState where
  sourcePosition : Nat
  targetPosition : Nat
  writes : List (Write UInt8)

/-- A computation on the two files; the writes done before an error stay. -/
abbrev Flash (α : Type) : Type := Stateful FlashState IoError α

section

variable (source : Bytes)

/-- `read_exact`. -/
def readExact (count : Nat) : Flash Bytes := do
  let state ← get
  let stop := state.sourcePosition + count
  Stateful.ensure (stop ≤ source.length)
    ⟨.unexpectedEof, "failed to fill whole buffer"⟩
  set { state with sourcePosition := stop }
  return Bytes.slice source state.sourcePosition stop

def readU16Le : Flash Nat := Bytes.ofLe <$> readExact source 2

def readU32Le : Flash Nat := Bytes.ofLe <$> readExact source 4

/-- Seek the source forward, possibly past its end. -/
def skipInput (bytes : Nat) : Flash Unit := do
  Stateful.ensure (bytes < offsetLimit) (invalidInput "skip length is too large")
  let state ← get
  Stateful.ensure (state.sourcePosition + bytes < offsetLimit)
    (invalidInput "Invalid argument")
  set { state with sourcePosition := state.sourcePosition + bytes }

/-- Seek the source to an absolute position. -/
def seekSource (position : Nat) : Flash Unit :=
  modify fun state => { state with sourcePosition := position }

variable (io : TargetIo)

/-- `write_all` on the target. -/
def writeAll (data : Bytes) : Flash Unit := do
  let state ← get
  match io.writeError state.writes.length with
  | some (count, error) =>
      let done : Write UInt8 := ⟨state.targetPosition, data.take count⟩
      set { state with writes := state.writes ++ [done] }
      Stateful.fail error
  | none =>
      let done : Write UInt8 := ⟨state.targetPosition, data⟩
      set { state with
        targetPosition := state.targetPosition + data.length
        writes := state.writes ++ [done] }

/-- Seek the target to an absolute position. -/
def seekTarget (position : Nat) : Flash Unit := do
  Stateful.ensure (position < offsetLimit) (invalidInput "Invalid argument")
  modify fun state => { state with targetPosition := position }

/-- The header fields `flash_sparse` uses. -/
structure SparseHeader where
  chunkHeaderSize : Nat
  blockSize : Nat
  totalBlocks : Nat
  totalChunks : Nat
  deriving DecidableEq, Repr

def SparseHeader.readFrom : Flash SparseHeader := do
  let magic ← readU32Le source
  Stateful.ensure (magic = androidSparseMagicLe)
    (invalidData "invalid Android sparse image magic")
  let major ← readU16Le source
  let minor ← readU16Le source
  Stateful.ensure (major = sparseMajorVersion ∧ minor = sparseMinorVersion)
    (invalidData s!"unsupported Android sparse image version {major}.{minor}")
  let fileHeaderSize ← readU16Le source
  let chunkHeaderSize ← readU16Le source
  let blockSize ← readU32Le source
  let totalBlocks ← readU32Le source
  let totalChunks ← readU32Le source
  let _checksum ← readU32Le source
  Stateful.ensure (sparseHeaderSize ≤ fileHeaderSize)
    (invalidData
      s!"Android sparse file header is too small: {fileHeaderSize}")
  Stateful.ensure (sparseChunkHeaderSize ≤ chunkHeaderSize)
    (invalidData
      s!"Android sparse chunk header is too small: {chunkHeaderSize}")
  Stateful.ensure (blockSize ≠ 0 ∧ blockSize % 4 = 0)
    (invalidData s!"Android sparse block size is invalid: {blockSize}")
  skipInput (fileHeaderSize - sparseHeaderSize)
  return { chunkHeaderSize, blockSize, totalBlocks, totalChunks }

def SparseHeader.expandedSize (header : SparseHeader) : Flash Nat :=
  Stateful.ofOption (invalidData "Android sparse expanded size overflows")
    (checkedMul header.totalBlocks header.blockSize)

structure SparseChunkHeader where
  chunkType : Nat
  chunkBlocks : Nat
  dataSize : Nat
  deriving DecidableEq, Repr

def SparseChunkHeader.readFrom (headerSize : Nat) :
    Flash SparseChunkHeader := do
  let chunkType ← readU16Le source
  let _reserved ← readU16Le source
  let chunkBlocks ← readU32Le source
  let totalSize ← readU32Le source
  Stateful.ensure (headerSize ≤ totalSize)
    (invalidData
      s!"Android sparse chunk total size {totalSize} is smaller than header size {headerSize}")
  skipInput (headerSize - sparseChunkHeaderSize)
  return { chunkType, chunkBlocks, dataSize := totalSize - headerSize }

def SparseChunkHeader.outputSize (chunk : SparseChunkHeader)
    (blockSize : Nat) : Flash Nat :=
  Stateful.ofOption (invalidData "Android sparse chunk output size overflows")
    (checkedMul chunk.chunkBlocks blockSize)

/-- The loop of `copy_exact`; every pass copies at least one byte. -/
def copyExactLoop : Nat → Nat → Flash Unit
  | 0, _ => throw .outOfFuel
  | fuel + 1, remaining =>
      if 0 < remaining then do
        let chunkLen := min remaining copyChunk
        let data ← readExact source chunkLen
        writeAll io data
        copyExactLoop fuel (remaining - chunkLen)
      else pure ()

def copyExact (remaining : Nat) : Flash Unit :=
  copyExactLoop source io (remaining + 1) remaining

/-- The first bytes of the buffer filled with the pattern. -/
def fillBuffer (fill : Bytes) (count : Nat) : Bytes :=
  (List.replicate (copyChunk / 4) fill).flatten.take count

/-- The loop of `write_fill`; every pass writes at least one byte. -/
def writeFillLoop (fill : Bytes) : Nat → Nat → Flash Unit
  | 0, _ => throw .outOfFuel
  | fuel + 1, remaining =>
      if 0 < remaining then do
        let chunkLen := min remaining copyChunk
        writeAll io (fillBuffer fill chunkLen)
        writeFillLoop fill fuel (remaining - chunkLen)
      else pure ()

def writeFill (fill : Bytes) (remaining : Nat) : Flash Unit :=
  writeFillLoop io fill (remaining + 1) remaining

def readFill : Flash Bytes := readExact source 4

def checkedAddWritten (left right : Nat) : Flash Nat :=
  Stateful.ofOption (invalidData "Android sparse written byte count overflows")
    (checkedAdd left right)

/-- The `match` on the chunk type: `position` and `written_size` after it. -/
def flashChunkData (chunk : SparseChunkHeader)
    (outputSize nextPosition written : Nat) : Flash (Nat × Nat) := do
  if chunk.chunkType = sparseChunkRaw then
    Stateful.ensure (chunk.dataSize = outputSize)
      (invalidData "Android sparse raw chunk size is invalid")
    copyExact source io outputSize
    let written ← checkedAddWritten written outputSize
    return (nextPosition, written)
  else if chunk.chunkType = sparseChunkFill then
    Stateful.ensure (chunk.dataSize = 4)
      (invalidData "Android sparse fill chunk size is invalid")
    let fill ← readFill source
    writeFill io fill outputSize
    let written ← checkedAddWritten written outputSize
    return (nextPosition, written)
  else if chunk.chunkType = sparseChunkDontCare then
    Stateful.ensure (chunk.dataSize = 0)
      (invalidData "Android sparse don't-care chunk size is invalid")
    seekTarget nextPosition
    return (nextPosition, written)
  else if chunk.chunkType = sparseChunkCrc32 then
    Stateful.ensure (outputSize = 0 ∧ chunk.dataSize = 4)
      (invalidData "Android sparse CRC chunk size is invalid")
    skipInput 4
    return (nextPosition, written)
  else Stateful.fail (invalidData "unknown Android sparse chunk type")

/-- The body of the chunk loop. -/
def flashChunk (header : SparseHeader) (expandedSize position written : Nat) :
    Flash (Nat × Nat) := do
  let chunk ← SparseChunkHeader.readFrom source header.chunkHeaderSize
  let outputSize ← chunk.outputSize header.blockSize
  let nextPosition ← Stateful.ofOption
    (invalidData "Android sparse write position overflows")
    (checkedAdd position outputSize)
  Stateful.ensure (nextPosition ≤ expandedSize)
    (invalidData "Android sparse chunks exceed declared expanded size")
  flashChunkData source io chunk outputSize nextPosition written

/-- The loop over the remaining chunks. -/
def flashChunks (header : SparseHeader) (expandedSize : Nat) :
    Nat → Nat → Nat → Flash (Nat × Nat)
  | 0, position, written => pure (position, written)
  | count + 1, position, written => do
      let (position, written) ←
        flashChunk source io header expandedSize position written
      flashChunks header expandedSize count position written

structure SparseFlashStats where
  expandedSize : Nat
  writtenSize : Nat
  chunks : Nat
  deriving DecidableEq, Repr

def flashSparse (partitionSize stagedSize : Nat) : Flash SparseFlashStats := do
  seekSource 0
  let header ← SparseHeader.readFrom source
  let expandedSize ← header.expandedSize
  Stateful.ensure (expandedSize ≤ partitionSize)
    (invalidInput
      s!"sparse image expands beyond target partition: {expandedSize} > {partitionSize} bytes")
  match io.openError with
  | some error => Stateful.fail error
  | none => pure ()
  seekTarget 0
  let (position, writtenSize) ←
    flashChunks source io header expandedSize header.totalChunks 0 0
  Stateful.ensure (position = expandedSize)
    (invalidData
      s!"Android sparse image ended at {position} bytes, expected {expandedSize}")
  let state ← get
  Stateful.ensure (state.sourcePosition = stagedSize)
    (invalidData
      s!"Android sparse image has trailing data: consumed {state.sourcePosition} of {stagedSize} bytes")
  match io.syncError with
  | some error => Stateful.fail error
  | none => pure ()
  return { expandedSize, writtenSize, chunks := header.totalChunks }

end

end Pocketboot.Fastboot
