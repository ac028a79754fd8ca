import Pocketboot.Fastboot.SparseImage

/-!
# Flashing is expansion

`flash_sparse` returns exactly on the files that are a sparse image and
nothing else, and then leaves the expansion of that image on the target.
-/

namespace Pocketboot.Fastboot

open Storage Stateful

/-! ## Reading the source -/

section

variable {source data first second : Bytes} {state last : FlashState}

/-- The source has these bytes between two read positions. -/
structure Consumes (source : Bytes) (start : Nat) (data : Bytes)
    (stop : Nat) : Prop where
  stop_eq : stop = start + data.length
  inside : stop ≤ source.length
  front : source.drop start = data ++ source.drop stop

/-- The bytes were read and the target was left alone. -/
def Reads (source : Bytes) (state : FlashState) (data : Bytes)
    (last : FlashState) : Prop :=
  Consumes source state.sourcePosition data last.sourcePosition ∧
    last = { state with sourcePosition := last.sourcePosition }

theorem Consumes.append_iff {start stop : Nat} :
    Consumes source start (first ++ second) stop ↔
      ∃ middle, Consumes source start first middle ∧
        Consumes source middle second stop := by
  constructor
  · rintro ⟨stopEq, inside, front⟩
    rw [List.length_append] at stopEq
    have middleFront : source.drop (start + first.length) =
        second ++ source.drop stop := by
      rw [← List.drop_drop, front, List.append_assoc, List.drop_left]
    refine ⟨start + first.length, ⟨rfl, by omega, ?_⟩, by omega, inside,
      middleFront⟩
    rw [middleFront, front, List.append_assoc]
  · rintro ⟨middle, ⟨middleEq, _, frontFirst⟩, ⟨stopEq, inside, frontSecond⟩⟩
    refine ⟨by rw [List.length_append]; omega, inside, ?_⟩
    rw [frontFirst, frontSecond, List.append_assoc]

theorem Consumes.of_inside {start stop : Nat} (ordered : start ≤ stop)
    (inside : stop ≤ source.length) :
    Consumes source start (Bytes.slice source start stop) stop := by
  refine ⟨?_, inside, Bytes.drop_eq_slice_append source ordered⟩
  rw [Bytes.slice_length_of_le inside]
  omega

theorem Consumes.slice_eq {start stop : Nat}
    (consumes : Consumes source start data stop) :
    Bytes.slice source start stop = data := by
  obtain ⟨rfl, _, front⟩ := consumes
  rw [Bytes.slice, front, Nat.add_sub_cancel_left, List.take_left]

theorem Reads.append_iff :
    Reads source state (first ++ second) last ↔
      ∃ middle, Reads source state first middle ∧
        Reads source middle second last := by
  unfold Reads
  constructor
  · rintro ⟨consumes, same⟩
    obtain ⟨middle, left, right⟩ := Consumes.append_iff.mp consumes
    exact ⟨{ state with sourcePosition := middle }, ⟨left, rfl⟩, right,
      by rw [same]⟩
  · rintro ⟨middle, ⟨left, sameMiddle⟩, right, sameLast⟩
    refine ⟨Consumes.append_iff.mpr ⟨_, left, right⟩, ?_⟩
    rw [sameLast, sameMiddle]

theorem readExact_ok {count : Nat} :
    exec (readExact source count) state = (.ok data, last) ↔
      data.length = count ∧ Reads source state data last := by
  simp only [readExact, exec_bind_ok, exec_get_ok, exec_ensure_ok, exec_set_ok,
    exec_pure_ok]
  constructor
  · rintro ⟨_, _, ⟨rfl, rfl⟩, _, _, ⟨inside, rfl⟩, _, _, rfl, rfl, rfl⟩
    refine ⟨?_, Consumes.of_inside (by simp) inside, rfl⟩
    rw [Bytes.slice_length_of_le inside]
    omega
  · rintro ⟨rfl, consumes, same⟩
    have stop := consumes.stop_eq
    refine ⟨state, state, ⟨rfl, rfl⟩, (), state, ⟨stop ▸ consumes.inside, rfl⟩,
      (), last, ?_, ?_, rfl⟩
    · rw [same, ← stop]
    · rw [← stop]
      exact consumes.slice_eq

theorem readLe_ok {width value : Nat} :
    exec (Bytes.ofLe <$> readExact source width) state = (.ok value, last) ↔
      value < 256 ^ width ∧ Reads source state (Bytes.toLe width value) last := by
  rw [exec_map_ok]
  constructor
  · rintro ⟨word, read, rfl⟩
    obtain ⟨rfl, reads⟩ := readExact_ok.mp read
    rw [Bytes.toLe_ofLe]
    exact ⟨Bytes.ofLe_lt word, reads⟩
  · rintro ⟨bound, reads⟩
    exact ⟨_, readExact_ok.mpr ⟨by simp, reads⟩, Bytes.ofLe_toLe_of_lt bound⟩

theorem readU16Le_ok {value : Nat} :
    exec (readU16Le source) state = (.ok value, last) ↔
      value < 2 ^ 16 ∧ Reads source state (Bytes.toLe 2 value) last :=
  readLe_ok

theorem readU32Le_ok {value : Nat} :
    exec (readU32Le source) state = (.ok value, last) ↔
      value < 2 ^ 32 ∧ Reads source state (Bytes.toLe 4 value) last :=
  readLe_ok

theorem skipInput_ok {bytes : Nat} {done : Unit} :
    exec (skipInput bytes) state = (.ok done, last) ↔
      state.sourcePosition + bytes < offsetLimit ∧
        last = { state with sourcePosition := state.sourcePosition + bytes } := by
  simp only [skipInput, exec_bind_ok, exec_ensure_ok, exec_get_ok, exec_set_ok]
  constructor
  · rintro ⟨_, _, ⟨_, rfl⟩, _, _, ⟨rfl, rfl⟩, _, _, ⟨inside, rfl⟩, rfl⟩
    exact ⟨inside, rfl⟩
  · rintro ⟨inside, rfl⟩
    exact ⟨(), state, ⟨by omega, rfl⟩, state, state, ⟨rfl, rfl⟩, (), state,
      ⟨inside, rfl⟩, rfl⟩

/-- Inside the file, skipping is reading. -/
theorem skipInput_inside_ok {bytes : Nat} {done : Unit}
    (limit : source.length < offsetLimit)
    (inside : last.sourcePosition ≤ source.length) :
    exec (skipInput bytes) state = (.ok done, last) ↔
      ∃ data, data.length = bytes ∧ Reads source state data last := by
  rw [skipInput_ok]
  constructor
  · rintro ⟨_, rfl⟩
    refine ⟨_, ?_, Consumes.of_inside (by simp) inside, rfl⟩
    rw [Bytes.slice_length_of_le inside]
    simp
  · rintro ⟨data, rfl, consumes, same⟩
    have stop := consumes.stop_eq
    exact ⟨by omega, by rw [← stop]; exact same⟩

/-! ## Headers -/

/-- The bytes in front of the chunks of an image. -/
def headerBytes (fileHeaderSize : Nat) (header : SparseHeader)
    (checksum extra : Bytes) : Bytes :=
  Bytes.toLe 4 androidSparseMagicLe ++ (Bytes.toLe 2 sparseMajorVersion ++
    (Bytes.toLe 2 sparseMinorVersion ++ (Bytes.toLe 2 fileHeaderSize ++
      (Bytes.toLe 2 header.chunkHeaderSize ++
        (Bytes.toLe 4 header.blockSize ++ (Bytes.toLe 4 header.totalBlocks ++
          (Bytes.toLe 4 header.totalChunks ++ (checksum ++ extra))))))))

/-- The header fields and what surrounds them are those of a sparse image. -/
structure HeaderFits (fileHeaderSize : Nat) (header : SparseHeader)
    (checksum extra : Bytes) : Prop where
  fileHeaderSize_lt : fileHeaderSize < 2 ^ 16
  chunkHeaderSize_ge : sparseChunkHeaderSize ≤ header.chunkHeaderSize
  chunkHeaderSize_lt : header.chunkHeaderSize < 2 ^ 16
  blockSize_ne : header.blockSize ≠ 0
  blockSize_mod : header.blockSize % 4 = 0
  blockSize_lt : header.blockSize < 2 ^ 32
  totalBlocks_lt : header.totalBlocks < 2 ^ 32
  totalChunks_lt : header.totalChunks < 2 ^ 32
  checksum_length : checksum.length = 4
  extra_length : extra.length + sparseHeaderSize = fileHeaderSize

theorem header_ok {header : SparseHeader}
    (limit : source.length < offsetLimit)
    (inside : last.sourcePosition ≤ source.length) :
    exec (SparseHeader.readFrom source) state = (.ok header, last) ↔
      ∃ fileHeaderSize checksum extra,
        HeaderFits fileHeaderSize header checksum extra ∧
        Reads source state (headerBytes fileHeaderSize header checksum extra)
          last := by
  simp only [SparseHeader.readFrom, exec_bind_ok, readU16Le_ok, readU32Le_ok,
    exec_ensure_ok, exec_pure_ok, headerBytes, Reads.append_iff]
  constructor
  · rintro ⟨magic, s1, ⟨_, readMagic⟩, _, _, ⟨rfl, rfl⟩, major, s2,
      ⟨_, readMajor⟩, minor, s3, ⟨_, readMinor⟩, _, _, ⟨⟨rfl, rfl⟩, rfl⟩,
      fileHeaderSize, s4, ⟨fileLt, readFile⟩, chunkHeaderSize, s5,
      ⟨chunkLt, readChunk⟩, blockSize, s6, ⟨blockLt, readBlock⟩, totalBlocks,
      s7, ⟨blocksLt, readBlocks⟩, totalChunks, s8, ⟨chunksLt, readChunks⟩,
      word, s9, ⟨wordLt, readWord⟩, _, _, ⟨fileGe, rfl⟩, _, _, ⟨chunkGe, rfl⟩,
      _, _, ⟨⟨blockNe, blockMod⟩, rfl⟩, _, s10, skip, rfl, rfl⟩
    obtain ⟨extra, extraLength, readExtra⟩ :=
      (skipInput_inside_ok limit inside).mp skip
    refine ⟨fileHeaderSize, Bytes.toLe 4 word, extra,
      ⟨fileLt, chunkGe, chunkLt, blockNe, blockMod, blockLt, blocksLt,
        chunksLt, by simp, by omega⟩, ?_⟩
    exact ⟨_, readMagic, _, readMajor, _, readMinor, _, readFile, _, readChunk,
      _, readBlock, _, readBlocks, _, readChunks, _, readWord, readExtra⟩
  · rintro ⟨fileHeaderSize, checksum, extra, fits, s1, readMagic, s2,
      readMajor, s3, readMinor, s4, readFile, s5, readChunk, s6, readBlock,
      s7, readBlocks, s8, readChunks, s9, readWord, readExtra⟩
    have extraLength := fits.extra_length
    have wordLt := Bytes.ofLe_lt checksum
    rw [fits.checksum_length] at wordLt
    have wordRead : Reads source s8 (Bytes.toLe 4 (Bytes.ofLe checksum)) s9 := by
      rw [← fits.checksum_length, Bytes.toLe_ofLe]
      exact readWord
    exact ⟨_, s1, ⟨by decide, readMagic⟩, (), s1, ⟨rfl, rfl⟩, _, s2,
      ⟨by decide, readMajor⟩, _, s3, ⟨by decide, readMinor⟩, (), s3,
      ⟨⟨rfl, rfl⟩, rfl⟩, _, s4, ⟨fits.fileHeaderSize_lt, readFile⟩, _, s5,
      ⟨fits.chunkHeaderSize_lt, readChunk⟩, _, s6,
      ⟨fits.blockSize_lt, readBlock⟩, _, s7,
      ⟨fits.totalBlocks_lt, readBlocks⟩, _, s8,
      ⟨fits.totalChunks_lt, readChunks⟩, _, s9, ⟨wordLt, wordRead⟩, (), s9,
      ⟨by omega, rfl⟩, (), s9, ⟨fits.chunkHeaderSize_ge, rfl⟩, (), s9,
      ⟨⟨fits.blockSize_ne, fits.blockSize_mod⟩, rfl⟩, (), last,
      (skipInput_inside_ok limit inside).mpr ⟨extra, by omega, readExtra⟩,
      rfl, rfl⟩

/-- The sizes of a header that was read, wherever the file ends. -/
theorem header_checked {header : SparseHeader}
    (headerRead : exec (SparseHeader.readFrom source) state =
      (.ok header, last)) :
    sparseChunkHeaderSize ≤ header.chunkHeaderSize ∧ header.blockSize ≠ 0 := by
  simp only [SparseHeader.readFrom, exec_bind_ok, exec_ensure_ok,
    exec_pure_ok] at headerRead
  obtain ⟨_magic, _, _, _, _, _, _major, _, _, _minor, _, _, _, _, _,
    _fileHeaderSize, _, _, chunkHeaderSize, _, _, blockSize, _, _,
    _totalBlocks, _, _, _totalChunks, _, _, _checksum, _, _, _, _, _, _, _,
    ⟨chunkGe, _⟩, _, _, ⟨⟨blockNe, _⟩, _⟩, _, _, _, rfl, _⟩ := headerRead
  exact ⟨chunkGe, blockNe⟩

/-- The bytes of a chunk header. -/
def chunkHeaderBytes (headerSize : Nat) (chunk : SparseChunkHeader)
    (reserved extra : Bytes) : Bytes :=
  Bytes.toLe 2 chunk.chunkType ++ (reserved ++
    (Bytes.toLe 4 chunk.chunkBlocks ++
      (Bytes.toLe 4 (headerSize + chunk.dataSize) ++ extra)))

structure ChunkHeaderFits (headerSize : Nat) (chunk : SparseChunkHeader)
    (reserved extra : Bytes) : Prop where
  chunkType_lt : chunk.chunkType < 2 ^ 16
  reserved_length : reserved.length = 2
  chunkBlocks_lt : chunk.chunkBlocks < 2 ^ 32
  total_lt : headerSize + chunk.dataSize < 2 ^ 32
  extra_length : extra.length + sparseChunkHeaderSize = headerSize

theorem chunkHeader_ok {headerSize : Nat} {chunk : SparseChunkHeader}
    (limit : source.length < offsetLimit)
    (large : sparseChunkHeaderSize ≤ headerSize)
    (inside : last.sourcePosition ≤ source.length) :
    exec (SparseChunkHeader.readFrom source headerSize) state =
        (.ok chunk, last) ↔
      ∃ reserved extra, ChunkHeaderFits headerSize chunk reserved extra ∧
        Reads source state (chunkHeaderBytes headerSize chunk reserved extra)
          last := by
  simp only [SparseChunkHeader.readFrom, exec_bind_ok, readU16Le_ok,
    readU32Le_ok, exec_ensure_ok, exec_pure_ok, chunkHeaderBytes,
    Reads.append_iff]
  constructor
  · rintro ⟨chunkType, s1, ⟨typeLt, readType⟩, word, s2, ⟨_, readWord⟩,
      chunkBlocks, s3, ⟨blocksLt, readBlocks⟩, total, s4,
      ⟨totalLt, readTotal⟩, _, _, ⟨totalGe, rfl⟩, _, s5, skip, rfl, rfl⟩
    obtain ⟨extra, extraLength, readExtra⟩ :=
      (skipInput_inside_ok limit inside).mp skip
    have whole : headerSize + (total - headerSize) = total := by omega
    refine ⟨Bytes.toLe 2 word, extra, ⟨typeLt, by simp, blocksLt, ?_,
      by omega⟩, s1, readType, s2, readWord, s3, readBlocks, s4, ?_, readExtra⟩
    · simpa only [whole] using totalLt
    · simpa only [whole] using readTotal
  · rintro ⟨reserved, extra, fits, s1, readType, s2, readWord, s3, readBlocks,
      s4, readTotal, readExtra⟩
    have extraLength := fits.extra_length
    have wordLt := Bytes.ofLe_lt reserved
    rw [fits.reserved_length] at wordLt
    have wordRead : Reads source s1 (Bytes.toLe 2 (Bytes.ofLe reserved)) s2 := by
      rw [← fits.reserved_length, Bytes.toLe_ofLe]
      exact readWord
    refine ⟨_, s1, ⟨fits.chunkType_lt, readType⟩, _, s2, ⟨wordLt, wordRead⟩, _,
      s3, ⟨fits.chunkBlocks_lt, readBlocks⟩, _, s4, ⟨fits.total_lt, readTotal⟩,
      (), s4, ⟨by omega, rfl⟩, (), last,
      (skipInput_inside_ok limit inside).mpr ⟨extra, by omega, readExtra⟩,
      ?_, rfl⟩
    rw [Nat.add_sub_cancel_left]

/-! ## Copying and filling -/

/-- The bytes were written at the target position, which moved past them. -/
structure Wrote (state : FlashState) (data : Bytes) (last : FlashState) :
    Prop where
  position : last.targetPosition = state.targetPosition + data.length
  content : ∀ content, runWrites content last.writes =
    overlay (runWrites content state.writes) ⟨state.targetPosition, data⟩

/-- Every operation on the target succeeds. -/
structure TargetIo.Succeeds (io : TargetIo) : Prop where
  opened : io.openError = none
  written : ∀ number, io.writeError number = none
  synced : io.syncError = none

theorem overlay_append (content : Nat → UInt8) (position : Nat)
    (first second : Bytes) :
    overlay (overlay content ⟨position, first⟩)
        ⟨position + first.length, second⟩ =
      overlay content ⟨position, first ++ second⟩ := by
  funext address
  unfold overlay
  simp only
  by_cases before : address < position
  · rw [if_neg (by omega), if_neg (by omega), if_neg (by omega)]
  · rw [if_pos (show position ≤ address by omega)]
    by_cases inFirst : address < position + first.length
    · rw [if_neg (by omega), if_pos (by omega),
        List.getElem?_append_left (by omega)]
    · rw [if_pos (by omega), if_pos (by omega),
        List.getElem?_append_right (by omega),
        List.getElem?_eq_none (show first.length ≤ address - position by omega)]
      congr 2
      omega

theorem overlay_nil (content : Nat → UInt8) (position : Nat) :
    overlay content ⟨position, []⟩ = content := by
  funext address
  simp [overlay]

theorem Wrote.refl (state : FlashState) : Wrote state [] state :=
  ⟨by simp, fun content => by rw [overlay_nil]⟩

theorem Wrote.append {middle : FlashState} (left : Wrote state first middle)
    (right : Wrote middle second last) : Wrote state (first ++ second) last := by
  refine ⟨?_, fun content => ?_⟩
  · rw [right.position, left.position, List.length_append]
    omega
  · rw [right.content, left.content, left.position, overlay_append]

variable {io : TargetIo}

theorem writeAll_ok (succeeds : io.Succeeds) (data : Bytes)
    (state : FlashState) :
    ∃ last, exec (writeAll io data) state = (.ok (), last) ∧
      Wrote state data last ∧ last.sourcePosition = state.sourcePosition := by
  refine ⟨{ state with
    targetPosition := state.targetPosition + data.length
    writes := state.writes ++ [⟨state.targetPosition, data⟩] }, ?_, ?_, rfl⟩
  · simp only [writeAll, exec_bind_ok, exec_get_ok]
    refine ⟨state, state, ⟨rfl, rfl⟩, ?_⟩
    rw [succeeds.written]
    exact exec_set_ok.mpr rfl
  · refine ⟨rfl, fun content => ?_⟩
    rw [runWrites_append]
    rfl

theorem writeAll_source {data : Bytes} {done : Unit}
    (wrote : exec (writeAll io data) state = (.ok done, last)) :
    last.sourcePosition = state.sourcePosition := by
  simp only [writeAll, exec_bind_ok, exec_get_ok] at wrote
  obtain ⟨_, _, ⟨rfl, rfl⟩, wrote⟩ := wrote
  cases failure : io.writeError state.writes.length with
  | none =>
      rw [failure] at wrote
      rw [← exec_set_ok.mp wrote]
  | some error =>
      rw [failure, exec_bind_ok] at wrote
      obtain ⟨_, _, _, wrote⟩ := wrote
      exact absurd wrote exec_fail_ok

/-- A successful copy has consumed as many bytes as it was asked to. -/
theorem copyExactLoop_consumes {fuel remaining : Nat} {done : Unit}
    (inside : last.sourcePosition ≤ source.length)
    (copied : exec (copyExactLoop source io fuel remaining) state =
      (.ok done, last)) :
    ∃ data, data.length = remaining ∧
      Consumes source state.sourcePosition data last.sourcePosition := by
  induction fuel generalizing remaining state with
  | zero => cases copied
  | succ fuel induction =>
      rw [copyExactLoop] at copied
      split at copied
      · simp only [exec_bind_ok, readExact_ok] at copied
        obtain ⟨front, s1, ⟨frontLength, consumes, _⟩, _, s2, wrote, copied⟩ :=
          copied
        have moved := writeAll_source wrote
        obtain ⟨back, backLength, rest⟩ := induction copied
        rw [moved] at rest
        refine ⟨front ++ back, ?_, Consumes.append_iff.mpr ⟨_, consumes, rest⟩⟩
        rw [List.length_append]
        omega
      · obtain ⟨_, rfl⟩ := exec_pure_ok.mp copied
        exact ⟨[], by simp; omega, by simp, inside, by simp⟩

/-- A copy of bytes the source has writes them to the target. -/
theorem copyExactLoop_ok (succeeds : io.Succeeds) {fuel stop : Nat}
    (enough : data.length < fuel)
    (consumes : Consumes source state.sourcePosition data stop) :
    ∃ last, exec (copyExactLoop source io fuel data.length) state =
        (.ok (), last) ∧ Wrote state data last ∧ last.sourcePosition = stop := by
  induction fuel generalizing data state with
  | zero => omega
  | succ fuel induction =>
      rw [copyExactLoop]
      by_cases more : 0 < data.length
      · rw [if_pos more]
        have positive : 0 < copyChunk := by decide
        let chunkLen := min data.length copyChunk
        have split : data = data.take chunkLen ++ data.drop chunkLen :=
          (List.take_append_drop _ _).symm
        have frontLength : (data.take chunkLen).length = chunkLen := by
          simp [chunkLen]
        rw [split] at consumes
        obtain ⟨middle, front, back⟩ := Consumes.append_iff.mp consumes
        let s1 : FlashState := { state with sourcePosition := middle }
        have read : exec (readExact source chunkLen) state =
            (.ok (data.take chunkLen), s1) :=
          readExact_ok.mpr ⟨frontLength, front, rfl⟩
        obtain ⟨s2, wrote, first, moved⟩ :=
          writeAll_ok succeeds (data.take chunkLen) s1
        have rest : (data.drop chunkLen).length = data.length - chunkLen := by
          simp
        have later := @induction (data.drop chunkLen) s2
          (by rw [rest]; omega) (by rw [moved]; exact back)
        obtain ⟨last, copied, second, stopped⟩ := later
        rw [rest] at copied
        refine ⟨last, ?_, ?_, stopped⟩
        · exact exec_bind_ok.mpr ⟨_, s1, read, exec_bind_ok.mpr
            ⟨(), s2, wrote, copied⟩⟩
        · have whole := first.append second
          rw [← split] at whole
          exact ⟨whole.position, whole.content⟩
      · have empty : data = [] := List.length_eq_zero_iff.mp (by omega)
        subst empty
        rw [if_neg more]
        exact ⟨state, exec_pure_ok.mpr ⟨rfl, rfl⟩, Wrote.refl state,
          by simpa using consumes.stop_eq.symm⟩

/-- The pattern repeated over so many bytes. -/
def fillBytes (fill : Bytes) (count : Nat) : Bytes :=
  (List.range count).map fun index => fill.getD (index % 4) 0

@[simp] theorem fillBytes_length (fill : Bytes) (count : Nat) :
    (fillBytes fill count).length = count := by
  simp [fillBytes]

theorem fillBytes_add (fill : Bytes) {count : Nat} (more : Nat)
    (phase : count % 4 = 0) :
    fillBytes fill (count + more) = fillBytes fill count ++ fillBytes fill more := by
  simp only [fillBytes, List.range_add, List.map_append, List.map_map]
  congr 1
  apply List.map_congr_left
  intro index _
  simp only [Function.comp_apply]
  congr 1
  omega

theorem fillBytes_four {fill : Bytes} (four : fill.length = 4) :
    fillBytes fill 4 = fill := by
  match fill, four with
  | [a, b, c, d], _ => rfl

theorem fillBuffer_eq {fill : Bytes} (four : fill.length = 4) {count : Nat}
    (small : count ≤ copyChunk) : fillBuffer fill count = fillBytes fill count := by
  have repeated : ∀ times, (List.replicate times fill).flatten =
      fillBytes fill (4 * times) := by
    intro times
    induction times with
    | zero => rfl
    | succ times induction =>
        rw [List.replicate_succ, List.flatten_cons, induction,
          show 4 * (times + 1) = 4 + 4 * times by ring,
          fillBytes_add fill (4 * times) (by omega), fillBytes_four four]
  have whole : 4 * (copyChunk / 4) = copyChunk := by decide
  rw [fillBuffer, repeated, whole, fillBytes, ← List.map_take,
    List.take_range, Nat.min_eq_left small, fillBytes]

theorem writeFillLoop_ok (succeeds : io.Succeeds) {fill : Bytes}
    (four : fill.length = 4) {fuel remaining : Nat} (enough : remaining < fuel)
    (state : FlashState) :
    ∃ last, exec (writeFillLoop io fill fuel remaining) state = (.ok (), last) ∧
      Wrote state (fillBytes fill remaining) last ∧
      last.sourcePosition = state.sourcePosition := by
  induction fuel generalizing remaining state with
  | zero => omega
  | succ fuel induction =>
      rw [writeFillLoop]
      by_cases more : 0 < remaining
      · rw [if_pos more]
        have positive : 0 < copyChunk := by decide
        let chunkLen := min remaining copyChunk
        have buffer : fillBuffer fill chunkLen = fillBytes fill chunkLen :=
          fillBuffer_eq four (Nat.min_le_right _ _)
        obtain ⟨s1, wrote, first, moved⟩ :=
          writeAll_ok succeeds (fillBytes fill chunkLen) state
        obtain ⟨last, filled, second, stayed⟩ :=
          @induction (remaining - chunkLen) (by omega) s1
        refine ⟨last, ?_, ?_, by rw [stayed, moved]⟩
        · exact exec_bind_ok.mpr ⟨(), s1, by rw [buffer]; exact wrote, filled⟩
        · have whole : fillBytes fill remaining =
              fillBytes fill chunkLen ++ fillBytes fill (remaining - chunkLen) := by
            by_cases large : copyChunk ≤ remaining
            · have chunk : chunkLen = copyChunk := Nat.min_eq_right large
              rw [chunk, ← fillBytes_add fill _ (by decide),
                Nat.add_sub_cancel' large]
            · have chunk : chunkLen = remaining := Nat.min_eq_left (by omega)
              simp [chunk, fillBytes]
          rw [whole]
          exact first.append second
      · obtain rfl : remaining = 0 := by omega
        rw [if_neg more]
        exact ⟨state, exec_pure_ok.mpr ⟨rfl, rfl⟩, Wrote.refl state, rfl⟩

theorem writeFillLoop_source {fill : Bytes} {fuel remaining : Nat}
    {done : Unit} (filled : exec (writeFillLoop io fill fuel remaining) state =
      (.ok done, last)) : last.sourcePosition = state.sourcePosition := by
  induction fuel generalizing remaining state with
  | zero => cases filled
  | succ fuel induction =>
      rw [writeFillLoop] at filled
      split at filled
      · obtain ⟨_, s1, wrote, filled⟩ := exec_bind_ok.mp filled
        rw [induction filled, writeAll_source wrote]
      · obtain ⟨_, rfl⟩ := exec_pure_ok.mp filled
        rfl

/-! ## The content of the target -/

/-- The bytes from `position` on were replaced where the cells say so. -/
def Expands (position size : Nat) (cell : Nat → Option UInt8)
    (state last : FlashState) : Prop :=
  ∀ (content : Nat → UInt8) (address : Nat),
    runWrites content last.writes address =
      if position ≤ address ∧ address < position + size then
        (cell (address - position)).getD
          (runWrites content state.writes address)
      else runWrites content state.writes address

theorem Expands.of_writes {position size : Nat} {cell : Nat → Option UInt8}
    (same : last.writes = state.writes)
    (keeps : ∀ offset, offset < size → cell offset = none) :
    Expands position size cell state last := by
  intro content address
  rw [same]
  split
  · rw [keeps _ (by omega)]
    rfl
  · rfl

theorem Expands.of_wrote {cell : Nat → Option UInt8}
    (wrote : Wrote state data last)
    (cells : ∀ offset, offset < data.length → cell offset = data[offset]?) :
    Expands state.targetPosition data.length cell state last := by
  intro content address
  rw [wrote.content, overlay]
  split
  · rename_i reached
    simp only at reached ⊢
    by_cases inside : address < state.targetPosition + data.length
    · rw [if_pos ⟨reached, inside⟩, cells _ (by omega)]
    · rw [if_neg (by omega), List.getElem?_eq_none (by omega)]
      rfl
  · rename_i before
    simp only at before
    rw [if_neg (by omega)]

theorem Expands.append {position size more : Nat}
    {left right : Nat → Option UInt8} {middle : FlashState}
    (first : Expands position size left state middle)
    (second : Expands (position + size) more right middle last) :
    Expands position (size + more)
      (fun offset => if offset < size then left offset
        else right (offset - size)) state last := by
  intro content address
  rw [second, first]
  by_cases inFirst : position ≤ address ∧ address < position + size
  · have here : address - position < size := by omega
    rw [if_neg (by omega), if_pos inFirst, if_pos (by omega)]
    simp only [if_pos here]
  · rw [if_neg inFirst]
    by_cases inSecond : position + size ≤ address ∧
        address < position + size + more
    · have there : ¬ address - position < size := by omega
      rw [if_pos inSecond, if_pos (by omega)]
      simp only [if_neg there, Nat.sub_sub]
    · rw [if_neg inSecond, if_neg (by omega)]

/-! ## Chunks -/

theorem outputSize_ok {chunk : SparseChunkHeader} {blockSize size : Nat}
    (blocks_lt : chunk.chunkBlocks < 2 ^ 32) (block_lt : blockSize < 2 ^ 32) :
    exec (chunk.outputSize blockSize) state = (.ok size, last) ↔
      size = chunk.chunkBlocks * blockSize ∧ state = last := by
  have product : chunk.chunkBlocks * blockSize < wordSize := by
    have bound : chunk.chunkBlocks * blockSize < 2 ^ 32 * 2 ^ 32 :=
      Nat.mul_lt_mul'' blocks_lt block_lt
    unfold wordSize
    omega
  simp only [SparseChunkHeader.outputSize, exec_ofOption_ok,
    checkedMul_eq_some, product, true_and]
  exact and_congr_left fun _ => eq_comm

theorem flashChunkData_sound {chunk : SparseChunkHeader}
    {blocks blockSize nextPosition written position' written' : Nat}
    (limit : source.length < offsetLimit) (block_ne : blockSize ≠ 0)
    (inside : last.sourcePosition ≤ source.length)
    (flashed : exec (flashChunkData source io chunk (blocks * blockSize)
      nextPosition written) state = (.ok (position', written'), last)) :
    position' = nextPosition ∧ ∃ body : ChunkBody,
      body.code = chunk.chunkType ∧ body.data.length = chunk.dataSize ∧
      body.Fits blocks blockSize ∧
      Consumes source state.sourcePosition body.data last.sourcePosition := by
  rw [flashChunkData] at flashed
  split at flashed
  · rename_i isRaw
    simp only [exec_bind_ok, exec_ensure_ok, checkedAddWritten,
      exec_ofOption_ok, exec_pure_ok, Prod.mk.injEq] at flashed
    obtain ⟨_, _, ⟨size, rfl⟩, _, s1, copied, _, _, ⟨_, rfl⟩, ⟨rfl, _⟩, rfl⟩ :=
      flashed
    obtain ⟨data, dataLength, consumes⟩ :=
      copyExactLoop_consumes inside copied
    exact ⟨rfl, .raw data, isRaw.symm, by simp [ChunkBody.data]; omega,
      dataLength, consumes⟩
  · split at flashed
    · rename_i isFill
      simp only [exec_bind_ok, exec_ensure_ok, checkedAddWritten, readFill,
        readExact_ok, exec_ofOption_ok, exec_pure_ok, Prod.mk.injEq] at flashed
      obtain ⟨_, _, ⟨size, rfl⟩, fill, s1, ⟨four, read, _⟩, _, s2, filled, _, _,
        ⟨_, rfl⟩, ⟨rfl, _⟩, rfl⟩ := flashed
      have stayed := writeFillLoop_source filled
      exact ⟨rfl, .fill fill, isFill.symm, by simp [ChunkBody.data]; omega,
        four, by rw [stayed]; exact read⟩
    · split at flashed
      · rename_i isDontCare
        simp only [exec_bind_ok, exec_ensure_ok, seekTarget, exec_modify_ok,
          exec_pure_ok, Prod.mk.injEq] at flashed
        obtain ⟨_, _, ⟨size, rfl⟩, _, _, ⟨_, _, ⟨_, rfl⟩, rfl⟩, ⟨rfl, _⟩, rfl⟩ :=
          flashed
        exact ⟨rfl, .dontCare, isDontCare.symm, by simp [ChunkBody.data]; omega,
          trivial, by simp [ChunkBody.data], inside, by simp [ChunkBody.data]⟩
      · split at flashed
        · rename_i isCrc
          simp only [exec_bind_ok, exec_ensure_ok, exec_pure_ok,
            Prod.mk.injEq] at flashed
          obtain ⟨_, _, ⟨⟨size, four⟩, rfl⟩, _, s1, skip, ⟨rfl, _⟩, rfl⟩ :=
            flashed
          obtain ⟨checksum, sumLength, read, _⟩ :=
            (skipInput_inside_ok limit inside).mp skip
          exact ⟨rfl, .crc32 checksum, isCrc.symm,
            by simp [ChunkBody.data]; omega, ⟨sumLength, by
              simpa [block_ne] using size⟩, read⟩
        · exact absurd flashed exec_fail_ok

theorem flashChunkData_forward {chunk : SparseChunkHeader}
    {outputSize nextPosition written : Nat} {result : Nat × Nat}
    (flashed : exec (flashChunkData source io chunk outputSize nextPosition
      written) state = (.ok result, last))
    (inside : last.sourcePosition ≤ source.length) :
    state.sourcePosition ≤ source.length := by
  rw [flashChunkData] at flashed
  split at flashed
  · simp only [exec_bind_ok, exec_ensure_ok, checkedAddWritten,
      exec_ofOption_ok, exec_pure_ok] at flashed
    obtain ⟨_, _, ⟨_, rfl⟩, _, s1, copied, _, _, ⟨_, rfl⟩, _, rfl⟩ := flashed
    obtain ⟨data, _, consumes⟩ := copyExactLoop_consumes inside copied
    have := consumes.stop_eq
    omega
  · split at flashed
    · simp only [exec_bind_ok, exec_ensure_ok, checkedAddWritten, readFill,
        readExact_ok, exec_ofOption_ok, exec_pure_ok] at flashed
      obtain ⟨_, _, ⟨_, rfl⟩, fill, s1, ⟨_, read, _⟩, _⟩ := flashed
      have := read.stop_eq
      have := read.inside
      omega
    · split at flashed
      · simp only [exec_bind_ok, exec_ensure_ok, seekTarget, exec_modify_ok,
          exec_pure_ok] at flashed
        obtain ⟨_, _, ⟨_, rfl⟩, _, _, ⟨_, _, ⟨_, rfl⟩, rfl⟩, _, rfl⟩ := flashed
        exact inside
      · split at flashed
        · simp only [exec_bind_ok, exec_ensure_ok, skipInput_ok,
            exec_pure_ok] at flashed
          obtain ⟨_, _, ⟨_, rfl⟩, _, s1, ⟨_, rfl⟩, _, rfl⟩ := flashed
          simp only at inside
          omega
        · exact absurd flashed exec_fail_ok

/-- A chunk that was flashed without running past the end of the file is a
well-formed chunk of the file, and fits the expanded size. -/
theorem flashChunk_sound {header : SparseHeader}
    {expandedSize position written position' written' : Nat}
    (limit : source.length < offsetLimit)
    (large : sparseChunkHeaderSize ≤ header.chunkHeaderSize)
    (block_ne : header.blockSize ≠ 0)
    (inside : last.sourcePosition ≤ source.length)
    (flashed : exec (flashChunk source io header expandedSize position written)
      state = (.ok (position', written'), last)) :
    ∃ chunk : Chunk, chunk.WellFormed header.chunkHeaderSize header.blockSize ∧
      Consumes source state.sourcePosition
        (chunk.bytes header.chunkHeaderSize) last.sourcePosition ∧
      position' = position + chunk.outputSize header.blockSize ∧
      position' ≤ expandedSize := by
  simp only [flashChunk, exec_bind_ok, exec_ofOption_ok, exec_ensure_ok,
    checkedAdd_eq_some] at flashed
  obtain ⟨chunk, s1, headerRead, size, _, sized, next, _,
    ⟨⟨_, rfl⟩, rfl⟩, _, _, ⟨fits, rfl⟩, flashed⟩ := flashed
  simp only [SparseChunkHeader.outputSize, exec_ofOption_ok,
    checkedMul_eq_some] at sized
  obtain ⟨⟨_, rfl⟩, rfl⟩ := sized
  have before := flashChunkData_forward flashed inside
  obtain ⟨reserved, extra, headerFits, headerReads, _⟩ :=
    (chunkHeader_ok limit large before).mp headerRead
  obtain ⟨rfl, body, code, dataLength, shaped, consumes⟩ :=
    flashChunkData_sound limit block_ne inside flashed
  refine ⟨⟨body, chunk.chunkBlocks, reserved, extra⟩,
    ⟨headerFits.reserved_length, headerFits.extra_length,
      headerFits.chunkBlocks_lt, by rw [dataLength]; exact headerFits.total_lt,
      shaped⟩, ?_, rfl, fits⟩
  have whole := Consumes.append_iff.mpr ⟨_, headerReads, consumes⟩
  simpa [Chunk.bytes, chunkHeaderBytes, code, dataLength] using whole

end

end Pocketboot.Fastboot
