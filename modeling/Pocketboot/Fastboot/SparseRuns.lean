import Pocketboot.Fastboot.SparseFlash

/-!
# Whole images

The chunk loop of `flash_sparse` against a list of chunks, in both directions,
and from it the theorem about whole files.
-/

namespace Pocketboot.Fastboot

open Storage Stateful

section

variable {source : Bytes} {state last : FlashState} {io : TargetIo}

/-! ## One chunk -/

theorem fillBytes_cell {fill : Bytes} (four : fill.length = 4)
    {count offset : Nat} (inside : offset < count) :
    fill[offset % 4]? = (fillBytes fill count)[offset]? := by
  have inFill : offset % 4 < fill.length := by omega
  simp [fillBytes, inside, List.getD_eq_getElem?_getD,
    List.getElem?_eq_getElem inFill]

/-- What the flashed data of a chunk leaves behind. -/
structure Flashed (state : FlashState) (size : Nat)
    (cell : Nat → Option UInt8) (stop : Nat) (last : FlashState) : Prop where
  source : last.sourcePosition = stop
  target : last.targetPosition = state.targetPosition + size
  content : Expands state.targetPosition size cell state last

theorem Flashed.append {size more stop finish : Nat}
    {left right : Nat → Option UInt8} {middle : FlashState}
    (first : Flashed state size left stop middle)
    (second : Flashed middle more right finish last) :
    Flashed state (size + more)
      (fun offset => if offset < size then left offset
        else right (offset - size)) finish last := by
  have content := second.content
  rw [first.target] at content
  refine ⟨second.source, ?_, first.content.append content⟩
  rw [second.target, first.target, Nat.add_assoc]

theorem flashChunkData_complete (succeeds : io.Succeeds)
    {chunk : SparseChunkHeader} {body : ChunkBody}
    {blocks blockSize written stop : Nat}
    (code : chunk.chunkType = body.code)
    (dataSize : chunk.dataSize = body.data.length)
    (fits : body.Fits blocks blockSize)
    (consumes : Consumes source state.sourcePosition body.data stop)
    (limit : source.length < offsetLimit)
    (below : state.targetPosition + blocks * blockSize < offsetLimit)
    (small : written ≤ state.targetPosition) :
    ∃ last, exec (flashChunkData source io chunk (blocks * blockSize)
        (state.targetPosition + blocks * blockSize) written) state =
        (.ok (state.targetPosition + blocks * blockSize,
          written + body.writtenSize (blocks * blockSize)), last) ∧
      Flashed state (blocks * blockSize) (fun offset => body.cell offset) stop
        last := by
  have sum : written + blocks * blockSize < wordSize := by
    have : offsetLimit < wordSize := by decide
    omega
  have stopEq := consumes.stop_eq
  have stopInside := consumes.inside
  cases body with
  | raw data =>
      have isRaw : chunk.chunkType = sparseChunkRaw := code
      have length : data.length = blocks * blockSize := fits
      obtain ⟨last, copied, wrote, stopped⟩ :=
        copyExactLoop_ok succeeds (Nat.lt_succ_self data.length) consumes
      refine ⟨last, ?_, stopped, by rw [wrote.position, length], ?_⟩
      · rw [flashChunkData, if_pos isRaw]
        refine exec_bind_ok.mpr ⟨(), state,
          exec_ensure_ok.mpr ⟨by rw [dataSize]; exact length, rfl⟩, ?_⟩
        refine exec_bind_ok.mpr ⟨(), last, by rw [← length]; exact copied, ?_⟩
        exact exec_bind_ok.mpr ⟨_, last,
          exec_ofOption_ok.mpr ⟨checkedAdd_eq_some.mpr ⟨sum, rfl⟩, rfl⟩,
          exec_pure_ok.mpr ⟨rfl, rfl⟩⟩
      · rw [← length]
        exact Expands.of_wrote wrote fun _ _ => rfl
  | fill pattern =>
      have isFill : chunk.chunkType = sparseChunkFill := code
      have four : pattern.length = 4 := fits
      let middle : FlashState := { state with sourcePosition := stop }
      obtain ⟨last, filled, wrote, stayed⟩ := writeFillLoop_ok succeeds four
        (Nat.lt_succ_self (blocks * blockSize)) middle
      refine ⟨last, ?_, by rw [stayed], by rw [wrote.position]; simp [middle], ?_⟩
      · rw [flashChunkData, if_neg (by rw [isFill]; decide), if_pos isFill]
        refine exec_bind_ok.mpr ⟨(), state,
          exec_ensure_ok.mpr ⟨by rw [dataSize]; exact four, rfl⟩, ?_⟩
        refine exec_bind_ok.mpr ⟨pattern, middle,
          readExact_ok.mpr ⟨four, consumes, rfl⟩, ?_⟩
        refine exec_bind_ok.mpr ⟨(), last, filled, ?_⟩
        exact exec_bind_ok.mpr ⟨_, last,
          exec_ofOption_ok.mpr ⟨checkedAdd_eq_some.mpr ⟨sum, rfl⟩, rfl⟩,
          exec_pure_ok.mpr ⟨rfl, rfl⟩⟩
      · have expands : Expands middle.targetPosition
            (fillBytes pattern (blocks * blockSize)).length
            (fun offset => pattern[offset % 4]?) middle last :=
          Expands.of_wrote wrote fun offset inside =>
            fillBytes_cell four (by simpa using inside)
        rw [fillBytes_length] at expands
        exact expands
  | dontCare =>
      have isDontCare : chunk.chunkType = sparseChunkDontCare := code
      refine ⟨{ state with
        targetPosition := state.targetPosition + blocks * blockSize }, ?_,
        by simpa [ChunkBody.data] using stopEq.symm, rfl,
        Expands.of_writes rfl fun _ _ => rfl⟩
      rw [flashChunkData, if_neg (by rw [isDontCare]; decide),
        if_neg (by rw [isDontCare]; decide), if_pos isDontCare]
      refine exec_bind_ok.mpr ⟨(), state,
        exec_ensure_ok.mpr ⟨dataSize, rfl⟩, ?_⟩
      refine exec_bind_ok.mpr ⟨(), _, ?_, exec_pure_ok.mpr ⟨rfl, rfl⟩⟩
      exact exec_bind_ok.mpr ⟨(), state, exec_ensure_ok.mpr ⟨below, rfl⟩,
        exec_modify_ok.mpr rfl⟩
  | crc32 checksum =>
      have isCrc : chunk.chunkType = sparseChunkCrc32 := code
      obtain ⟨four, rfl⟩ : checksum.length = 4 ∧ blocks = 0 := fits
      refine ⟨{ state with sourcePosition := state.sourcePosition + 4 }, ?_,
        by simpa [ChunkBody.data, four] using stopEq.symm, by simp,
        Expands.of_writes rfl fun _ _ => rfl⟩
      rw [flashChunkData, if_neg (by rw [isCrc]; decide),
        if_neg (by rw [isCrc]; decide), if_neg (by rw [isCrc]; decide),
        if_pos isCrc]
      refine exec_bind_ok.mpr ⟨(), state, exec_ensure_ok.mpr
        ⟨⟨by simp, by rw [dataSize]; exact four⟩, rfl⟩, ?_⟩
      refine exec_bind_ok.mpr ⟨(), _, skipInput_ok.mpr ⟨?_, rfl⟩,
        exec_pure_ok.mpr ⟨rfl, rfl⟩⟩
      simp only [ChunkBody.data, four] at stopEq
      omega

theorem flashChunk_complete (succeeds : io.Succeeds)
    (limit : source.length < offsetLimit) {header : SparseHeader}
    (large : sparseChunkHeaderSize ≤ header.chunkHeaderSize)
    (block_lt : header.blockSize < 2 ^ 32)
    {chunk : Chunk} {expandedSize written stop : Nat}
    (shaped : chunk.WellFormed header.chunkHeaderSize header.blockSize)
    (consumes : Consumes source state.sourcePosition
      (chunk.bytes header.chunkHeaderSize) stop)
    (fits : state.targetPosition + chunk.outputSize header.blockSize ≤
      expandedSize)
    (below : expandedSize < offsetLimit)
    (small : written ≤ state.targetPosition) :
    ∃ last, exec (flashChunk source io header expandedSize state.targetPosition
        written) state =
        (.ok (state.targetPosition + chunk.outputSize header.blockSize,
          written + chunk.writtenSize header.blockSize), last) ∧
      Flashed state (chunk.outputSize header.blockSize)
        (fun offset => chunk.body.cell offset) stop last := by
  let chunkHeader : SparseChunkHeader :=
    ⟨chunk.body.code, chunk.blocks, chunk.body.data.length⟩
  have bytes : chunk.bytes header.chunkHeaderSize =
      chunkHeaderBytes header.chunkHeaderSize chunkHeader chunk.reserved
        chunk.extra ++ chunk.body.data := by
    simp [Chunk.bytes, chunkHeaderBytes, chunkHeader]
  rw [bytes] at consumes
  obtain ⟨middle, front, back⟩ := Consumes.append_iff.mp consumes
  let s1 : FlashState := { state with sourcePosition := middle }
  have code_lt : chunk.body.code < 2 ^ 16 := by
    cases chunk.body <;>
      simp [ChunkBody.code, sparseChunkRaw, sparseChunkFill,
        sparseChunkDontCare, sparseChunkCrc32]
  have headerRead : exec (SparseChunkHeader.readFrom source
      header.chunkHeaderSize) state = (.ok chunkHeader, s1) :=
    (chunkHeader_ok limit large front.inside).mpr ⟨chunk.reserved, chunk.extra,
      ⟨code_lt, shaped.reserved_length, shaped.blocks_lt, shaped.total_lt,
        shaped.extra_length⟩, front, rfl⟩
  have sized : exec (chunkHeader.outputSize header.blockSize) s1 =
      (.ok (chunk.outputSize header.blockSize), s1) :=
    (outputSize_ok shaped.blocks_lt block_lt).mpr ⟨rfl, rfl⟩
  have wide : offsetLimit < wordSize := by decide
  have rest : Consumes source s1.sourcePosition chunk.body.data stop := back
  obtain ⟨last, flashed, done⟩ := flashChunkData_complete succeeds
    (show chunkHeader.chunkType = chunk.body.code from rfl) rfl shaped.fits rest
    limit (lt_of_le_of_lt fits below) small
  refine ⟨last, ?_, ⟨done.source, done.target, done.content⟩⟩
  refine exec_bind_ok.mpr ⟨chunkHeader, s1, headerRead, ?_⟩
  refine exec_bind_ok.mpr ⟨_, s1, sized, ?_⟩
  refine exec_bind_ok.mpr ⟨_, s1, exec_ofOption_ok.mpr
    ⟨checkedAdd_eq_some.mpr ⟨by omega, rfl⟩, rfl⟩, ?_⟩
  exact exec_bind_ok.mpr ⟨(), s1, exec_ensure_ok.mpr ⟨fits, rfl⟩, flashed⟩

/-! ## The chunk loop -/

theorem expansionOf_eq_none {blockSize : Nat} {chunks : List Chunk}
    {offset : Nat} (beyond : blockCount chunks * blockSize ≤ offset) :
    expansionOf blockSize chunks offset = none := by
  induction chunks generalizing offset with
  | nil => rfl
  | cons chunk rest induction =>
      have split : blockCount (chunk :: rest) * blockSize =
          chunk.outputSize blockSize + blockCount rest * blockSize := by
        simp [blockCount, Chunk.outputSize, Nat.add_mul]
      rw [expansionOf, if_neg (by omega)]
      exact induction (by omega)

theorem blockCount_cons (chunk : Chunk) (rest : List Chunk) :
    blockCount (chunk :: rest) = chunk.blocks + blockCount rest := by
  simp [blockCount]

/-- Chunks flashed within the file are well-formed chunks of the file. -/
theorem flashChunks_sound {header : SparseHeader}
    {expandedSize count position written position' written' : Nat}
    (limit : source.length < offsetLimit)
    (large : sparseChunkHeaderSize ≤ header.chunkHeaderSize)
    (block_ne : header.blockSize ≠ 0)
    (inside : last.sourcePosition ≤ source.length)
    (flashed : exec (flashChunks source io header expandedSize count position
      written) state = (.ok (position', written'), last)) :
    ∃ chunks : List Chunk, chunks.length = count ∧
      (∀ chunk ∈ chunks,
        chunk.WellFormed header.chunkHeaderSize header.blockSize) ∧
      Consumes source state.sourcePosition
        (chunks.flatMap (Chunk.bytes header.chunkHeaderSize))
        last.sourcePosition ∧
      position' = position + blockCount chunks * header.blockSize := by
  induction count generalizing position written state with
  | zero =>
      simp only [flashChunks, exec_pure_ok, Prod.mk.injEq] at flashed
      obtain ⟨⟨rfl, rfl⟩, rfl⟩ := flashed
      exact ⟨[], rfl, by simp, ⟨by simp, inside, by simp⟩,
        by simp [blockCount]⟩
  | succ count induction =>
      rw [flashChunks] at flashed
      obtain ⟨⟨next, write⟩, middle, first, flashed⟩ := exec_bind_ok.mp flashed
      obtain ⟨rest, restLength, restShaped, restConsumes, rfl⟩ :=
        induction flashed
      have middleInside : middle.sourcePosition ≤ source.length := by
        have := restConsumes.stop_eq
        omega
      obtain ⟨chunk, shaped, consumes, rfl, _⟩ :=
        flashChunk_sound limit large block_ne middleInside first
      refine ⟨chunk :: rest, by rw [List.length_cons, restLength], ?_, ?_, ?_⟩
      · intro other member
        rcases List.mem_cons.mp member with rfl | later
        · exact shaped
        · exact restShaped other later
      · rw [List.flatMap_cons]
        exact Consumes.append_iff.mpr ⟨_, consumes, restConsumes⟩
      · rw [blockCount_cons, Chunk.outputSize]
        ring

/-- Well-formed chunks of the file that fit the expanded size are flashed. -/
theorem flashChunks_complete (succeeds : io.Succeeds)
    (limit : source.length < offsetLimit) {header : SparseHeader}
    (large : sparseChunkHeaderSize ≤ header.chunkHeaderSize)
    (block_lt : header.blockSize < 2 ^ 32) {chunks : List Chunk}
    {expandedSize written stop : Nat}
    (shaped : ∀ chunk ∈ chunks,
      chunk.WellFormed header.chunkHeaderSize header.blockSize)
    (consumes : Consumes source state.sourcePosition
      (chunks.flatMap (Chunk.bytes header.chunkHeaderSize)) stop)
    (fits : state.targetPosition + blockCount chunks * header.blockSize ≤
      expandedSize)
    (below : expandedSize < offsetLimit)
    (small : written ≤ state.targetPosition) :
    ∃ last, exec (flashChunks source io header expandedSize chunks.length
        state.targetPosition written) state =
        (.ok (state.targetPosition + blockCount chunks * header.blockSize,
          written + (chunks.map (Chunk.writtenSize header.blockSize)).sum),
          last) ∧
      Flashed state (blockCount chunks * header.blockSize)
        (expansionOf header.blockSize chunks) stop last := by
  induction chunks generalizing state written with
  | nil =>
      refine ⟨state, ?_, ?_, ?_, ?_⟩
      · exact exec_pure_ok.mpr ⟨by simp [blockCount], rfl⟩
      · simpa using consumes.stop_eq.symm
      · simp [blockCount]
      · exact Expands.of_writes rfl fun _ _ => rfl
  | cons chunk rest induction =>
      rw [List.flatMap_cons] at consumes
      obtain ⟨middle, front, back⟩ := Consumes.append_iff.mp consumes
      have split : blockCount (chunk :: rest) * header.blockSize =
          chunk.outputSize header.blockSize +
            blockCount rest * header.blockSize := by
        rw [blockCount_cons, Chunk.outputSize, Nat.add_mul]
      rw [split] at fits ⊢
      obtain ⟨s1, first, done⟩ := flashChunk_complete succeeds limit large
        block_lt (shaped chunk List.mem_cons_self) front
        (by omega : _ ≤ expandedSize) below small
      have writtenLe : chunk.writtenSize header.blockSize ≤
          chunk.outputSize header.blockSize := by
        unfold Chunk.writtenSize
        cases chunk.body <;> simp [ChunkBody.writtenSize]
      obtain ⟨last, later, rested⟩ := @induction s1
        (written + chunk.writtenSize header.blockSize)
        (fun other member => shaped other (List.mem_cons_of_mem _ member))
        (by rw [done.source]; exact back) (by rw [done.target]; omega)
        (by rw [done.target]; omega)
      refine ⟨last, ?_, done.append rested⟩
      rw [List.length_cons, flashChunks]
      refine exec_bind_ok.mpr ⟨_, s1, first, ?_⟩
      rw [done.target] at later
      simpa [Nat.add_assoc] using later

end

/-! ## Whole files -/

/-- A staged file with its length as the staged size. -/
structure StagedFile where
  bytes : Bytes
  length_lt : bytes.length < offsetLimit

/-- A partition with its bytes. -/
structure Target where
  size : Nat
  content : Nat → UInt8
  size_lt : size < offsetLimit

/-- `flash_sparse` on a staged file read so far up to some position. -/
def flashStaged (io : TargetIo) (staged : StagedFile) (target : Target)
    (sourcePosition : Nat) : Run IoError SparseFlashStats × FlashState :=
  exec (flashSparse staged.bytes io target.size staged.bytes.length)
    ⟨sourcePosition, 0, []⟩

namespace SparseImage

/-- The fields of the header of an image. -/
def header (image : SparseImage) : SparseHeader where
  chunkHeaderSize := image.chunkHeaderSize
  blockSize := image.blockSize
  totalBlocks := image.totalBlocks
  totalChunks := image.chunks.length

theorem bytes_eq (image : SparseImage) :
    image.bytes = headerBytes image.fileHeaderSize image.header image.checksum
      image.extra ++
        image.chunks.flatMap (Chunk.bytes image.chunkHeaderSize) := by
  simp [bytes, headerBytes, header]

theorem header_fits (image : SparseImage) :
    HeaderFits image.fileHeaderSize image.header image.checksum image.extra where
  fileHeaderSize_lt := image.fileHeaderSize_lt
  chunkHeaderSize_ge := image.chunkHeaderSize_ge
  chunkHeaderSize_lt := image.chunkHeaderSize_lt
  blockSize_ne := image.blockSize_ne
  blockSize_mod := image.blockSize_mod
  blockSize_lt := image.blockSize_lt
  totalBlocks_lt := image.blocks_lt
  totalChunks_lt := image.chunks_lt
  checksum_length := image.checksum_length
  extra_length := image.extra_length

theorem expandedSize_lt (image : SparseImage) :
    image.totalBlocks * image.blockSize < wordSize := by
  have bound : image.totalBlocks * image.blockSize < 2 ^ 32 * 2 ^ 32 :=
    Nat.mul_lt_mul'' image.blocks_lt image.blockSize_lt
  unfold wordSize
  omega

/-- Reading the header of a file that is an image. -/
theorem header_read {image : SparseImage} {staged : StagedFile}
    (same : image.bytes = staged.bytes) :
    ∃ middle, exec (SparseHeader.readFrom staged.bytes) ⟨0, 0, []⟩ =
        (.ok image.header, ⟨middle, 0, []⟩) ∧
      Consumes staged.bytes middle
        (image.chunks.flatMap (Chunk.bytes image.chunkHeaderSize))
        staged.bytes.length := by
  have whole : Consumes staged.bytes 0 image.bytes staged.bytes.length := by
    refine ⟨by simp [same], le_refl _, ?_⟩
    rw [List.drop_zero, List.drop_length, List.append_nil, same]
  rw [bytes_eq] at whole
  obtain ⟨middle, front, back⟩ := Consumes.append_iff.mp whole
  exact ⟨middle, (header_ok staged.length_lt front.inside).mpr
    ⟨_, _, _, image.header_fits, front, rfl⟩, back⟩

end SparseImage

section

variable {io : TargetIo} {staged : StagedFile} {target : Target}
  {sourcePosition : Nat}

/-- A flashed file is an image that fits the partition. -/
theorem flashStaged_sound (succeeds : io.Succeeds)
    {stats : SparseFlashStats} {last : FlashState}
    (flashed : flashStaged io staged target sourcePosition =
      (.ok stats, last)) :
    ∃ image : SparseImage, image.bytes = staged.bytes ∧
      image.expandedSize ≤ target.size := by
  simp only [flashStaged, flashSparse, seekSource, seekTarget, exec_bind_ok,
    exec_modify_ok, exec_ensure_ok, SparseHeader.expandedSize,
    exec_ofOption_ok, checkedMul_eq_some] at flashed
  obtain ⟨_, _, rfl, header, s1, headerRead, _, _, ⟨⟨_, rfl⟩, rfl⟩, _, _,
    ⟨fits, rfl⟩, flashed⟩ := flashed
  rw [succeeds.opened, succeeds.synced] at flashed
  simp only [exec_bind_ok, exec_ensure_ok, exec_modify_ok, exec_get_ok,
    exec_pure_ok] at flashed
  obtain ⟨_, _, ⟨_, _, ⟨_, rfl⟩, rfl⟩, ⟨position, written⟩, s2, looped, _, _,
    ⟨rfl, rfl⟩, _, _, ⟨rfl, rfl⟩, _, _, ⟨consumed, rfl⟩, rfl, rfl⟩ := flashed
  obtain ⟨chunkGe, blockNe⟩ := header_checked headerRead
  obtain ⟨chunks, count, shaped, consumes, total⟩ := flashChunks_sound
    staged.length_lt chunkGe blockNe (le_of_eq consumed) looped
  have blocks : blockCount chunks = header.totalBlocks := by
    refine Nat.eq_of_mul_eq_mul_right (Nat.pos_of_ne_zero blockNe) ?_
    simpa using total.symm
  have headerInside : s1.sourcePosition ≤ staged.bytes.length := by
    have := consumes.stop_eq
    simp only at this
    omega
  obtain ⟨fileHeaderSize, checksum, extra, fitsHeader, headerReads, _⟩ :=
    (header_ok staged.length_lt headerInside).mp headerRead
  let image : SparseImage :=
    { fileHeaderSize, chunkHeaderSize := header.chunkHeaderSize
      blockSize := header.blockSize, checksum, extra, chunks
      fileHeaderSize_lt := fitsHeader.fileHeaderSize_lt
      chunkHeaderSize_ge := chunkGe
      chunkHeaderSize_lt := fitsHeader.chunkHeaderSize_lt
      blockSize_ne := blockNe
      blockSize_mod := fitsHeader.blockSize_mod
      blockSize_lt := fitsHeader.blockSize_lt
      checksum_length := fitsHeader.checksum_length
      extra_length := fitsHeader.extra_length
      wellFormed := shaped
      blocks_lt := by rw [blocks]; exact fitsHeader.totalBlocks_lt
      chunks_lt := by rw [count]; exact fitsHeader.totalChunks_lt }
  have sameHeader : image.header = header := by
    simp [image, SparseImage.header, SparseImage.totalBlocks, blocks, count]
  refine ⟨image, ?_, ?_⟩
  · have whole := (Consumes.append_iff.mpr ⟨_, headerReads, consumes⟩).slice_eq
    rw [image.bytes_eq, sameHeader, ← whole, consumed]
    simp [Bytes.slice]
  · rw [SparseImage.expandedSize, SparseImage.totalBlocks, blocks]
    exact fits

/-- An image that fits the partition is flashed. -/
theorem flashStaged_complete (succeeds : io.Succeeds) {image : SparseImage}
    (same : image.bytes = staged.bytes)
    (fits : image.expandedSize ≤ target.size) :
    ∃ last, flashStaged io staged target sourcePosition =
        (.ok ⟨image.expandedSize, image.writtenSize, image.chunks.length⟩,
          last) ∧
      ∀ address, runWrites target.content last.writes address =
        (image.expansion address).getD (target.content address) := by
  obtain ⟨middle, headerRead, consumes⟩ := image.header_read same
  let s1 : FlashState := ⟨middle, 0, []⟩
  have below : image.expandedSize < offsetLimit :=
    lt_of_le_of_lt fits target.size_lt
  obtain ⟨last, looped, done⟩ := @flashChunks_complete staged.bytes s1 io
    succeeds staged.length_lt image.header image.chunkHeaderSize_ge
    image.blockSize_lt image.chunks image.expandedSize 0 _ image.wellFormed
    consumes (by simp [s1, SparseImage.expandedSize, SparseImage.totalBlocks,
      SparseImage.header]) below (Nat.zero_le _)
  refine ⟨last, ?_, ?_⟩
  · have opened : exec (seekTarget 0) s1 = (.ok (), s1) :=
      exec_bind_ok.mpr ⟨(), s1, exec_ensure_ok.mpr ⟨by decide, rfl⟩,
        exec_modify_ok.mpr rfl⟩
    unfold flashStaged flashSparse
    rw [succeeds.opened, succeeds.synced]
    refine exec_bind_ok.mpr ⟨(), ⟨0, 0, []⟩, exec_modify_ok.mpr rfl, ?_⟩
    refine exec_bind_ok.mpr ⟨_, s1, headerRead, ?_⟩
    refine exec_bind_ok.mpr ⟨image.expandedSize, s1, exec_ofOption_ok.mpr
      ⟨checkedMul_eq_some.mpr ⟨image.expandedSize_lt, rfl⟩, rfl⟩, ?_⟩
    refine exec_bind_ok.mpr ⟨(), s1, exec_ensure_ok.mpr ⟨fits, rfl⟩, ?_⟩
    refine exec_bind_ok.mpr ⟨(), s1, opened, ?_⟩
    refine exec_bind_ok.mpr ⟨_, last, looped, ?_⟩
    refine exec_bind_ok.mpr ⟨(), last, exec_ensure_ok.mpr
      ⟨by simp [s1, SparseImage.expandedSize, SparseImage.totalBlocks,
        SparseImage.header], rfl⟩, ?_⟩
    refine exec_bind_ok.mpr ⟨last, last, exec_get_ok.mpr ⟨rfl, rfl⟩, ?_⟩
    refine exec_bind_ok.mpr ⟨(), last, exec_ensure_ok.mpr
      ⟨done.source, rfl⟩, ?_⟩
    refine exec_pure_ok.mpr ⟨?_, rfl⟩
    simp [SparseImage.writtenSize, SparseImage.header]
  · intro address
    have content := done.content target.content address
    simp only [s1, runWrites_nil, Nat.zero_le, true_and, Nat.zero_add,
      Nat.sub_zero] at content
    rw [content]
    split
    · rfl
    · rename_i outside
      have beyond : image.expansion address = none :=
        expansionOf_eq_none (Nat.le_of_not_lt outside)
      rw [beyond]
      rfl

end

/-! ## Flashing is expansion -/

/-- Images of the same bytes have the same size. -/
theorem SparseImage.expandedSize_eq {staged : StagedFile}
    {image other : SparseImage} (same : image.bytes = staged.bytes)
    (sameOther : other.bytes = staged.bytes) :
    image.expandedSize = other.expandedSize := by
  obtain ⟨_, headerRead, _⟩ := image.header_read same
  obtain ⟨_, otherRead, _⟩ := other.header_read sameOther
  have sameHeader : image.header = other.header := by
    have results := headerRead.symm.trans otherRead
    simp only [Prod.mk.injEq, Except.ok.injEq] at results
    exact results.1
  change image.header.totalBlocks * image.header.blockSize =
    other.header.totalBlocks * other.header.blockSize
  rw [sameHeader]

/-- `flash_sparse` succeeds exactly on the sparse images that fit the
partition, and leaves the old content overlaid with the expansion. -/
theorem flashStaged_expands {io : TargetIo} (succeeds : io.Succeeds)
    (staged : StagedFile) (target : Target) (sourcePosition : Nat) :
    ((∃ stats last, flashStaged io staged target sourcePosition =
        (.ok stats, last)) ↔
      ∃ image : SparseImage, image.bytes = staged.bytes ∧
        image.expandedSize ≤ target.size) ∧
    ∀ stats last, flashStaged io staged target sourcePosition =
        (.ok stats, last) →
      ∀ image : SparseImage, image.bytes = staged.bytes →
        stats = ⟨image.expandedSize, image.writtenSize, image.chunks.length⟩ ∧
        ∀ address, runWrites target.content last.writes address =
          (image.expansion address).getD (target.content address) := by
  refine ⟨⟨?_, ?_⟩, ?_⟩
  · rintro ⟨stats, last, flashed⟩
    exact flashStaged_sound succeeds flashed
  · rintro ⟨image, same, fits⟩
    obtain ⟨last, flashed, _⟩ := flashStaged_complete succeeds same fits
    exact ⟨_, last, flashed⟩
  · intro stats last flashed image same
    obtain ⟨other, sameOther, fits⟩ := flashStaged_sound succeeds flashed
    rw [SparseImage.expandedSize_eq sameOther same] at fits
    obtain ⟨last', flashed', content⟩ :=
      flashStaged_complete succeeds same fits
    have results := flashed.symm.trans flashed'
    simp only [Prod.mk.injEq, Except.ok.injEq] at results
    obtain ⟨rfl, rfl⟩ := results
    exact ⟨rfl, content⟩

/-- Two raw blocks, a fill, a hole and a checksum. -/
def exampleImage : SparseImage where
  fileHeaderSize := 30
  chunkHeaderSize := 13
  blockSize := 4
  checksum := [0, 0, 0, 0]
  extra := [1, 2]
  chunks := [
    ⟨.raw [10, 11, 12, 13, 14, 15, 16, 17], 2, [0, 0], [9]⟩,
    ⟨.fill [20, 21, 22, 23], 2, [0, 0], [9]⟩,
    ⟨.dontCare, 1, [0, 0], [9]⟩,
    ⟨.crc32 [1, 2, 3, 4], 0, [0, 0], [9]⟩]
  fileHeaderSize_lt := by decide
  chunkHeaderSize_ge := by decide
  chunkHeaderSize_lt := by decide
  blockSize_ne := by decide
  blockSize_mod := by decide
  blockSize_lt := by decide
  checksum_length := by decide
  extra_length := by decide
  wellFormed := by
    simp only [List.forall_mem_cons]
    refine ⟨⟨?_, ?_, ?_, ?_, ?_⟩, ⟨?_, ?_, ?_, ?_, ?_⟩, ⟨?_, ?_, ?_, ?_, ?_⟩,
      ⟨?_, ?_, ?_, ?_, ?_⟩, by simp⟩ <;> decide
  blocks_lt := by decide
  chunks_lt := by decide

/-- The example is flashed to a partition of its size. -/
theorem flashStaged_expands_example :
    ∃ stats last, flashStaged ⟨none, fun _ => none, none⟩
      ⟨exampleImage.bytes, by decide⟩ ⟨20, fun _ => 0, by decide⟩ 7 =
        (.ok stats, last) :=
  (flashStaged_expands ⟨rfl, fun _ => rfl, rfl⟩ _ _ 7).1.mpr
    ⟨exampleImage, rfl, by decide⟩

end Pocketboot.Fastboot
