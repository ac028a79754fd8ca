import Pocketboot.Fastboot.Sparse

/-!
# Sparse images

What a sparse image is, independently of the code that flashes it: a header,
chunks, their bytes in a file, and the blocks they stand for.  A
`SparseImage` carries the proofs that its fields fit the file format.
-/

namespace Pocketboot.Fastboot

/-- The kind of a chunk with the data that follows its header. -/
inductive ChunkBody where
  | raw (data : Bytes)
  | fill (pattern : Bytes)
  | dontCare
  | crc32 (checksum : Bytes)
  deriving DecidableEq, Repr

namespace ChunkBody

def code : ChunkBody → Nat
  | raw _ => sparseChunkRaw
  | fill _ => sparseChunkFill
  | dontCare => sparseChunkDontCare
  | crc32 _ => sparseChunkCrc32

/-- The bytes after the chunk header. -/
def data : ChunkBody → Bytes
  | raw data => data
  | fill pattern => pattern
  | dontCare => []
  | crc32 checksum => checksum

/-- The data fits a chunk of so many blocks of this size. -/
def Fits (blocks blockSize : Nat) : ChunkBody → Prop
  | raw data => data.length = blocks * blockSize
  | fill pattern => pattern.length = 4
  | dontCare => True
  | crc32 checksum => checksum.length = 4 ∧ blocks = 0

instance (blocks blockSize : Nat) :
    (body : ChunkBody) → Decidable (body.Fits blocks blockSize)
  | raw data => inferInstanceAs (Decidable (data.length = blocks * blockSize))
  | fill pattern => inferInstanceAs (Decidable (pattern.length = 4))
  | dontCare => inferInstanceAs (Decidable True)
  | crc32 checksum =>
      inferInstanceAs (Decidable (checksum.length = 4 ∧ blocks = 0))

/-- The byte the chunk puts at an offset from its start; `none` keeps the old
byte. -/
def cell (offset : Nat) : ChunkBody → Option UInt8
  | raw data => data[offset]?
  | fill pattern => pattern[offset % 4]?
  | dontCare => none
  | crc32 _ => none

/-- The bytes a chunk of this output size writes. -/
def writtenSize (outputSize : Nat) : ChunkBody → Nat
  | raw _ => outputSize
  | fill _ => outputSize
  | dontCare => 0
  | crc32 _ => 0

end ChunkBody

structure Chunk where
  body : ChunkBody
  blocks : Nat
  reserved : Bytes
  extra : Bytes
  deriving DecidableEq, Repr

namespace Chunk

/-- The chunk fits a format with these header and block sizes. -/
structure WellFormed (chunk : Chunk) (headerSize blockSize : Nat) : Prop where
  reserved_length : chunk.reserved.length = 2
  extra_length : chunk.extra.length + sparseChunkHeaderSize = headerSize
  blocks_lt : chunk.blocks < 2 ^ 32
  total_lt : headerSize + chunk.body.data.length < 2 ^ 32
  fits : chunk.body.Fits chunk.blocks blockSize

def bytes (headerSize : Nat) (chunk : Chunk) : Bytes :=
  Bytes.toLe 2 chunk.body.code ++ (chunk.reserved ++
    (Bytes.toLe 4 chunk.blocks ++
      (Bytes.toLe 4 (headerSize + chunk.body.data.length) ++
        (chunk.extra ++ chunk.body.data))))

def outputSize (blockSize : Nat) (chunk : Chunk) : Nat :=
  chunk.blocks * blockSize

/-- The bytes the chunk writes. -/
def writtenSize (blockSize : Nat) (chunk : Chunk) : Nat :=
  chunk.body.writtenSize (chunk.outputSize blockSize)

end Chunk

/-- The bytes a sequence of chunks puts at the offsets from its start. -/
def expansionOf (blockSize : Nat) : List Chunk → Nat → Option UInt8
  | [], _ => none
  | chunk :: rest, offset =>
      if offset < chunk.outputSize blockSize then chunk.body.cell offset
      else expansionOf blockSize rest (offset - chunk.outputSize blockSize)

def blockCount (chunks : List Chunk) : Nat := (chunks.map Chunk.blocks).sum

structure SparseImage where
  fileHeaderSize : Nat
  chunkHeaderSize : Nat
  blockSize : Nat
  checksum : Bytes
  extra : Bytes
  chunks : List Chunk
  fileHeaderSize_lt : fileHeaderSize < 2 ^ 16
  chunkHeaderSize_ge : sparseChunkHeaderSize ≤ chunkHeaderSize
  chunkHeaderSize_lt : chunkHeaderSize < 2 ^ 16
  blockSize_ne : blockSize ≠ 0
  blockSize_mod : blockSize % 4 = 0
  blockSize_lt : blockSize < 2 ^ 32
  checksum_length : checksum.length = 4
  extra_length : extra.length + sparseHeaderSize = fileHeaderSize
  wellFormed : ∀ chunk ∈ chunks, chunk.WellFormed chunkHeaderSize blockSize
  blocks_lt : blockCount chunks < 2 ^ 32
  chunks_lt : chunks.length < 2 ^ 32

namespace SparseImage

/-- `total_blocks` of the header. -/
def totalBlocks (image : SparseImage) : Nat := blockCount image.chunks

def expandedSize (image : SparseImage) : Nat :=
  image.totalBlocks * image.blockSize

def writtenSize (image : SparseImage) : Nat :=
  (image.chunks.map (Chunk.writtenSize image.blockSize)).sum

def bytes (image : SparseImage) : Bytes :=
  Bytes.toLe 4 androidSparseMagicLe ++ (Bytes.toLe 2 sparseMajorVersion ++
    (Bytes.toLe 2 sparseMinorVersion ++ (Bytes.toLe 2 image.fileHeaderSize ++
      (Bytes.toLe 2 image.chunkHeaderSize ++ (Bytes.toLe 4 image.blockSize ++
        (Bytes.toLe 4 image.totalBlocks ++ (Bytes.toLe 4 image.chunks.length ++
          (image.checksum ++ (image.extra ++
            image.chunks.flatMap (Chunk.bytes image.chunkHeaderSize))))))))))

/-- The bytes the image puts at the offsets of its target. -/
def expansion (image : SparseImage) : Nat → Option UInt8 :=
  expansionOf image.blockSize image.chunks

end SparseImage

end Pocketboot.Fastboot
