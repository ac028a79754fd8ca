import Pocketboot.Fastboot.SparseRuns

/-!
# Flashing stays inside the declared size

A file is checked while it is flashed, so a malformed one leaves writes behind.
Every chunk is checked against the declared size before its first byte goes to
the target; the loop invariant is that the target stands at `position` and that
all writes so far end below the declared size.
-/

namespace Pocketboot.Fastboot

open Storage Stateful

/-- Every write ends at or below a bound. -/
def Inside (bound : Nat) (state : FlashState) : Prop :=
  ∀ write ∈ state.writes, write.offset + write.data.length ≤ bound

/-- A computation that writes below a bound, and moves the target to a position
when it succeeds. -/
def Advances {α : Type} (bound : Nat) (run : Flash α) (state : FlashState)
    (position : α → Nat) : Prop :=
  Ends run state fun outcome last =>
    Inside bound last ∧
      ∀ item, outcome = .ok item → last.targetPosition = position item

/-- The writes and the position of the target. -/
def TargetAt (writes : List (Write UInt8)) (position : Nat)
    (state : FlashState) : Prop :=
  state.writes = writes ∧ state.targetPosition = position

section

variable {α β : Type} {bound : Nat} {state : FlashState}

theorem Advances.bind {run : Flash α} {next : α → Flash β}
    {middle : α → Nat} {position : β → Nat}
    (first : Advances bound run state middle)
    (second : ∀ item last, Inside bound last →
      last.targetPosition = middle item →
      Advances bound (next item) last position) :
    Advances bound (run >>= next) state position := by
  apply Ends.seq first
  · intro item last reached
    exact second item last reached.1 (reached.2 item rfl)
  · intro fault last reached
    exact ⟨reached.1, by simp⟩

theorem Advances.pure {item : α} {position : α → Nat}
    (inside : Inside bound state)
    (reached : state.targetPosition = position item) :
    Advances bound (pure item : Flash α) state position := by
  apply Ends.pure
  refine ⟨inside, ?_⟩
  intro other same
  cases same
  exact reached

theorem Advances.fail {value : IoError} {position : α → Nat}
    (inside : Inside bound state) :
    Advances bound (Stateful.fail value : Flash α) state position := by
  apply Ends.fail
  exact ⟨inside, by simp⟩

/-- A computation that leaves the target alone. -/
theorem Advances.of_keeps {run : Flash α} (inside : Inside bound state)
    (keeps : ∀ writes position, Keeps (TargetAt writes position) run) :
    Advances bound run state fun _ => state.targetPosition := by
  refine (keeps state.writes state.targetPosition state ⟨rfl, rfl⟩).mono ?_
  rintro outcome last ⟨sameWrites, samePosition⟩
  refine ⟨?_, fun _ _ => samePosition⟩
  unfold Inside
  rw [sameWrites]
  exact inside

/-- A check before a computation that needs what it establishes. -/
theorem Advances.ensure {condition : Prop} [Decidable condition]
    {value : IoError} {next : Unit → Flash β} {position : β → Nat}
    (inside : Inside bound state)
    (after : condition → Advances bound (next ()) state position) :
    Advances bound (Stateful.ensure condition value >>= next) state
      position := by
  by_cases holds : condition
  · simp only [Stateful.ensure, if_pos holds, pure_bind]
    exact after holds
  · have stops : (Stateful.ensure condition value >>= next : Flash β) =
        Stateful.fail value := by
      simp only [Stateful.ensure, if_neg holds]
      rfl
    rw [stops]
    exact .fail inside

theorem Advances.ofOption {option : Option α} {value : IoError}
    {next : α → Flash β} {position : β → Nat} (inside : Inside bound state)
    (after : ∀ item, option = some item →
      Advances bound (next item) state position) :
    Advances bound (Stateful.ofOption value option >>= next) state
      position := by
  cases option with
  | none => exact Advances.fail inside
  | some item =>
      simp only [Stateful.ofOption, pure_bind]
      exact after item rfl

theorem Advances.inside {limit : Nat} {run : Flash α} {position : α → Nat}
    (advances : Advances bound run state position) (smaller : bound ≤ limit) :
    Ends run state fun _ last => Inside bound last ∧ Inside limit last := by
  refine Ends.mono advances ?_
  rintro outcome last ⟨inside, _⟩
  exact ⟨inside, fun write member => (inside write member).trans smaller⟩

end

/-! ## The source -/

section

variable (source : Bytes) {writes : List (Write UInt8)} {position : Nat}

theorem readExact_keeps (count : Nat) :
    Keeps (TargetAt writes position) (readExact source count) := by
  apply Keeps.get
  intro state there
  refine (Keeps.ensure _ _).ends there ?_ fun _ _ kept => kept
  intro _ middle kept
  exact Ends.bind (Ends.set there)

theorem skipInput_keeps (bytes : Nat) :
    Keeps (TargetAt writes position) (skipInput bytes) := by
  apply (Keeps.ensure _ _).bind
  intro _
  apply Keeps.get
  intro state there
  refine (Keeps.ensure _ _).ends there ?_ fun _ _ kept => kept
  intro _ middle kept
  exact Ends.set there

theorem header_keeps :
    Keeps (TargetAt writes position) (SparseHeader.readFrom source) := by
  have word : ∀ count, Keeps (TargetAt writes position)
      (Bytes.ofLe <$> readExact source count) :=
    fun count => (readExact_keeps source count).map
  refine (word 4).bind fun magic => (Keeps.ensure _ _).bind fun _ =>
    (word 2).bind fun major => (word 2).bind fun minor =>
    (Keeps.ensure _ _).bind fun _ => (word 2).bind fun fileHeaderSize =>
    (word 2).bind fun chunkHeaderSize => (word 4).bind fun blockSize =>
    (word 4).bind fun totalBlocks => (word 4).bind fun totalChunks =>
    (word 4).bind fun checksum => (Keeps.ensure _ _).bind fun _ =>
    (Keeps.ensure _ _).bind fun _ => (Keeps.ensure _ _).bind fun _ =>
    (skipInput_keeps _).bind fun _ => .pure _

theorem chunkHeader_keeps (headerSize : Nat) :
    Keeps (TargetAt writes position)
      (SparseChunkHeader.readFrom source headerSize) := by
  have word : ∀ count, Keeps (TargetAt writes position)
      (Bytes.ofLe <$> readExact source count) :=
    fun count => (readExact_keeps source count).map
  refine (word 2).bind fun chunkType => (word 2).bind fun reserved =>
    (word 4).bind fun chunkBlocks => (word 4).bind fun totalSize =>
    (Keeps.ensure _ _).bind fun _ => (skipInput_keeps _).bind fun _ => .pure _

end

/-! ## The writers -/

section

variable {source : Bytes} {io : TargetIo} {bound : Nat} {state : FlashState}

theorem Inside.append (inside : Inside bound state) {write : Write UInt8}
    {position : Nat} (fits : write.offset + write.data.length ≤ bound) :
    Inside bound { state with
      targetPosition := position
      writes := state.writes ++ [write] } := by
  intro listed member
  rcases List.mem_append.mp member with earlier | last
  · exact inside listed earlier
  · rw [List.mem_singleton.mp last]
    exact fits

theorem writeAll_advances (inside : Inside bound state) {data : Bytes}
    (fits : state.targetPosition + data.length ≤ bound) :
    Advances bound (writeAll io data) state fun _ =>
      state.targetPosition + data.length := by
  refine Ends.bind (Ends.get ?_)
  dsimp only
  split
  · rename_i count error _
    refine Ends.bind (Ends.set (Ends.fail ?_))
    refine ⟨inside.append ?_, by simp⟩
    have short : (data.take count).length ≤ data.length := by simp
    change state.targetPosition + (data.take count).length ≤ bound
    omega
  · apply Ends.set
    exact ⟨inside.append fits, fun _ _ => rfl⟩

/-- Bytes read before a computation that needs their number. -/
theorem Advances.readExact {β : Type} {count : Nat} {next : Bytes → Flash β}
    {position : β → Nat} (inside : Inside bound state)
    (after : ∀ data last, data.length = count → Inside bound last →
      last.targetPosition = state.targetPosition →
      Advances bound (next data) last position) :
    Advances bound (Fastboot.readExact source count >>= next) state
      position := by
  have kept := @Advances.of_keeps _ bound state
    (Fastboot.readExact source count) inside
    fun _ _ => readExact_keeps source count
  apply Ends.bind
  unfold Advances Ends at kept
  unfold Ends
  cases result : exec (Fastboot.readExact source count) state with
  | mk outcome last =>
      rw [result] at kept
      cases outcome with
      | error fault => exact ⟨kept.1, by simp⟩
      | ok data =>
          have sized := (readExact_ok.mp result).1
          exact after data last sized kept.1 (kept.2 data rfl)

theorem copyExactLoop_advances (fuel remaining : Nat)
    (inside : Inside bound state)
    (fits : state.targetPosition + remaining ≤ bound) :
    Advances bound (copyExactLoop source io fuel remaining) state fun _ =>
      state.targetPosition + remaining := by
  induction fuel generalizing remaining state with
  | zero =>
      apply Ends.throw
      exact ⟨inside, by simp⟩
  | succ fuel induction =>
      unfold copyExactLoop
      by_cases more : 0 < remaining
      · rw [if_pos more]
        apply Advances.readExact inside
        intro data last sized insideLast here
        have chunkFits : last.targetPosition + data.length ≤ bound := by omega
        apply (writeAll_advances insideLast chunkFits).bind
        intro _ middle insideMiddle there
        have rest : middle.targetPosition +
            (remaining - min remaining copyChunk) =
            state.targetPosition + remaining := by omega
        have later := induction (remaining - min remaining copyChunk)
          insideMiddle (by omega)
        rw [rest] at later
        exact later
      · rw [if_neg more]
        apply Advances.pure inside
        omega

theorem copyExact_advances {remaining : Nat} (inside : Inside bound state)
    (fits : state.targetPosition + remaining ≤ bound) :
    Advances bound (copyExact source io remaining) state fun _ =>
      state.targetPosition + remaining :=
  copyExactLoop_advances _ _ inside fits

theorem fillBuffer_length {fill : Bytes} (four : fill.length = 4) {count : Nat}
    (small : count ≤ copyChunk) : (fillBuffer fill count).length = count := by
  rw [fillBuffer_eq four small, fillBytes_length]

theorem writeFillLoop_advances {fill : Bytes} (four : fill.length = 4)
    (fuel remaining : Nat) (inside : Inside bound state)
    (fits : state.targetPosition + remaining ≤ bound) :
    Advances bound (writeFillLoop io fill fuel remaining) state fun _ =>
      state.targetPosition + remaining := by
  induction fuel generalizing remaining state with
  | zero =>
      apply Ends.throw
      exact ⟨inside, by simp⟩
  | succ fuel induction =>
      unfold writeFillLoop
      by_cases more : 0 < remaining
      · rw [if_pos more]
        have sized := fillBuffer_length four (Nat.min_le_right remaining
          copyChunk)
        have chunkFits : state.targetPosition +
            (fillBuffer fill (min remaining copyChunk)).length ≤ bound := by
          omega
        apply (writeAll_advances inside chunkFits).bind
        intro _ middle insideMiddle there
        have rest : middle.targetPosition +
            (remaining - min remaining copyChunk) =
            state.targetPosition + remaining := by omega
        have later := induction (remaining - min remaining copyChunk)
          insideMiddle (by omega)
        rw [rest] at later
        exact later
      · rw [if_neg more]
        apply Advances.pure inside
        omega

theorem writeFill_advances {fill : Bytes} (four : fill.length = 4)
    {remaining : Nat} (inside : Inside bound state)
    (fits : state.targetPosition + remaining ≤ bound) :
    Advances bound (writeFill io fill remaining) state fun _ =>
      state.targetPosition + remaining :=
  writeFillLoop_advances four _ _ inside fits

theorem seekTarget_advances {position : Nat} (inside : Inside bound state) :
    Advances bound (seekTarget position) state fun _ => position := by
  apply Advances.ensure inside
  intro _
  apply Ends.modify
  exact ⟨inside, fun _ _ => rfl⟩

end

/-! ## Chunks -/

section

variable {source : Bytes} {io : TargetIo} {bound : Nat} {state : FlashState}

theorem flashChunkData_advances {chunk : SparseChunkHeader}
    {outputSize written : Nat} (inside : Inside bound state)
    (fits : state.targetPosition + outputSize ≤ bound) :
    Advances bound (flashChunkData source io chunk outputSize
      (state.targetPosition + outputSize) written) state fun result =>
        result.1 := by
  have finishWritten : ∀ last, Inside bound last →
      last.targetPosition = state.targetPosition + outputSize →
      Advances bound (checkedAddWritten written outputSize >>= fun written =>
        pure (state.targetPosition + outputSize, written)) last
        fun result => result.1 := by
    intro last insideLast there
    apply Advances.ofOption insideLast
    intro total _
    exact Advances.pure insideLast there
  unfold flashChunkData
  split
  · apply Advances.ensure inside
    intro _
    apply (copyExact_advances inside fits).bind
    intro _ last insideLast there
    exact finishWritten last insideLast there
  · split
    · apply Advances.ensure inside
      intro _
      apply Advances.readExact inside
      intro fill last four insideLast here
      have fitsLast : last.targetPosition + outputSize ≤ bound := by omega
      apply (writeFill_advances four insideLast fitsLast).bind
      intro _ final insideFinal there
      exact finishWritten final insideFinal (by omega)
    · split
      · apply Advances.ensure inside
        intro _
        apply (seekTarget_advances inside).bind
        intro _ last insideLast there
        exact Advances.pure insideLast there
      · split
        · apply Advances.ensure inside
          intro empty
          apply (Advances.of_keeps inside fun _ _ => skipInput_keeps 4).bind
          intro _ last insideLast here
          apply Advances.pure insideLast
          have nothing := empty.1
          omega
        · exact Advances.fail inside

theorem flashChunk_advances {header : SparseHeader} {written : Nat}
    (inside : Inside bound state) :
    Advances bound (flashChunk source io header bound state.targetPosition
      written) state fun result => result.1 := by
  unfold flashChunk
  apply (Advances.of_keeps inside fun _ _ =>
    chunkHeader_keeps source header.chunkHeaderSize).bind
  intro chunk last insideLast here
  apply Advances.ofOption insideLast
  intro outputSize _
  apply Advances.ofOption insideLast
  intro nextPosition sum
  apply Advances.ensure insideLast
  intro fits
  have next : nextPosition = last.targetPosition + outputSize := by
    rw [here]
    exact (checkedAdd_eq_some.mp sum).2.symm
  rw [next] at fits ⊢
  exact flashChunkData_advances insideLast fits

/-- The target stands at `position` whenever the loop goes on. -/
theorem flashChunks_advances {header : SparseHeader} (count written : Nat)
    (inside : Inside bound state) :
    Advances bound (flashChunks source io header bound count
      state.targetPosition written) state fun result => result.1 := by
  induction count generalizing state written with
  | zero => exact Advances.pure inside rfl
  | succ count induction =>
      unfold flashChunks
      apply (flashChunk_advances inside).bind
      rintro ⟨position, total⟩ last insideLast there
      dsimp only at there ⊢
      rw [← there]
      exact induction total insideLast

end

/-! ## Whole files -/

/-- The expanded size that the header of a file declares. -/
def declaredSize (source : Bytes) : Nat :=
  Bytes.ofLe (Bytes.slice source 16 20) * Bytes.ofLe (Bytes.slice source 12 16)

private theorem reads_word {source : Bytes} {width value : Nat}
    {state last : FlashState} (bound : value < 256 ^ width)
    (reads : Reads source state (Bytes.toLe width value) last) :
    last.sourcePosition = state.sourcePosition + width ∧
      Bytes.ofLe (Bytes.slice source state.sourcePosition
        last.sourcePosition) = value := by
  obtain ⟨consumes, _⟩ := reads
  refine ⟨by simpa using consumes.stop_eq, ?_⟩
  rw [consumes.slice_eq, Bytes.ofLe_toLe_of_lt bound]

theorem header_declares {source : Bytes} {header : SparseHeader}
    {state last : FlashState} (start : state.sourcePosition = 0)
    (headerRead : exec (SparseHeader.readFrom source) state =
      (.ok header, last)) :
    header.totalBlocks * header.blockSize = declaredSize source := by
  simp only [SparseHeader.readFrom, exec_bind_ok, readU16Le_ok, readU32Le_ok,
    exec_ensure_ok, exec_pure_ok] at headerRead
  obtain ⟨magic, s1, ⟨magicLt, readMagic⟩, _, _, ⟨_, rfl⟩, major, s2,
    ⟨majorLt, readMajor⟩, minor, s3, ⟨minorLt, readMinor⟩, _, _, ⟨_, rfl⟩,
    fileHeaderSize, s4, ⟨fileLt, readFile⟩, chunkHeaderSize, s5,
    ⟨chunkLt, readChunk⟩, blockSize, s6, ⟨blockLt, readBlock⟩, totalBlocks,
    s7, ⟨blocksLt, readBlocks⟩, totalChunks, s8, _, _, s9, _, _, _, _, _, _,
    _, _, _, _, _, _, _, rfl, _⟩ := headerRead
  have magicEnd := (reads_word magicLt readMagic).1
  have majorEnd := (reads_word majorLt readMajor).1
  have minorEnd := (reads_word minorLt readMinor).1
  have fileEnd := (reads_word fileLt readFile).1
  have chunkEnd := (reads_word chunkLt readChunk).1
  obtain ⟨blockEnd, blockWord⟩ := reads_word blockLt readBlock
  obtain ⟨blocksEnd, blocksWord⟩ := reads_word blocksLt readBlocks
  rw [show s5.sourcePosition = 12 by omega,
    show s6.sourcePosition = 16 by omega] at blockWord
  rw [show s6.sourcePosition = 16 by omega,
    show s7.sourcePosition = 20 by omega] at blocksWord
  rw [declaredSize, blockWord, blocksWord]

/-- What `flash_sparse` wrote when it returns, with whatever outcome. -/
theorem flashSparse_inside (source : Bytes) (io : TargetIo)
    (partitionSize stagedSize sourcePosition : Nat) :
    Ends (flashSparse source io partitionSize stagedSize)
      ⟨sourcePosition, 0, []⟩ fun _ last =>
        Inside (declaredSize source) last ∧ Inside partitionSize last := by
  have nothing : ∀ bound state, TargetAt [] 0 state → Inside bound state := by
    rintro bound state ⟨empty, _⟩ write member
    rw [empty] at member
    simp at member
  have neither : ∀ state, TargetAt [] 0 state →
      Inside (declaredSize source) state ∧ Inside partitionSize state :=
    fun state untouched =>
      ⟨nothing _ state untouched, nothing _ state untouched⟩
  refine Ends.bind (Ends.modify ?_)
  dsimp only
  have untouched := @header_keeps source [] 0 ⟨0, 0, []⟩ ⟨rfl, rfl⟩
  apply Ends.bind
  unfold Ends at untouched ⊢
  cases headerRead : exec (SparseHeader.readFrom source) ⟨0, 0, []⟩ with
  | mk outcome afterHeader =>
      rw [headerRead] at untouched
      cases outcome with
      | error fault => exact neither _ untouched
      | ok header =>
          have declared := header_declares rfl headerRead
          dsimp only at untouched ⊢
          rw [SparseHeader.expandedSize]
          cases product : checkedMul header.totalBlocks header.blockSize with
          | none => exact neither _ untouched
          | some expandedSize =>
              have size : expandedSize = declaredSize source := by
                rw [← declared]
                exact (checkedMul_eq_some.mp product).2.symm
              subst size
              by_cases fits : declaredSize source ≤ partitionSize
              · refine @Advances.inside _ _ _ _ _
                  (fun _ => declaredSize source) ?_ fits
                have insideHere := nothing (declaredSize source) _ untouched
                apply Advances.ofOption insideHere
                rintro _ ⟨⟩
                apply Advances.ensure insideHere
                intro _
                cases io.openError with
                | some error => exact .fail insideHere
                | none =>
                    apply (seekTarget_advances insideHere).bind
                    intro _ opened insideOpened start
                    have loop := @flashChunks_advances source io _ opened
                      header header.totalChunks 0 insideOpened
                    rw [start] at loop
                    apply loop.bind
                    rintro ⟨position, total⟩ last insideLast there
                    apply Advances.ensure insideLast
                    intro complete
                    refine Ends.bind (Ends.get ?_)
                    apply Advances.ensure insideLast
                    intro _
                    cases io.syncError with
                    | some error => exact .fail insideLast
                    | none =>
                        exact Advances.pure insideLast (there.trans complete)
              · have stops : ¬ declaredSize source ≤ partitionSize := fits
                simp only [Stateful.ofOption, pure_bind, Stateful.ensure,
                  if_neg stops]
                exact neither _ untouched

/-- Whatever `flash_sparse` returns, every byte it wrote lies below the size
that the header declares and below the partition size. -/
theorem flashSparse_staysInside (source : Bytes) (io : TargetIo)
    (partitionSize stagedSize sourcePosition : Nat) (address : Nat)
    (written : Covered (exec (flashSparse source io partitionSize stagedSize)
      ⟨sourcePosition, 0, []⟩).2.writes address) :
    address < declaredSize source ∧ address < partitionSize := by
  obtain ⟨declared, partition⟩ := flashSparse_inside source io partitionSize
    stagedSize sourcePosition
  obtain ⟨write, member, low, high⟩ := written
  have belowDeclared := declared write member
  have belowPartition := partition write member
  change address < write.offset + write.data.length at high
  omega

/-- The example image cut after its raw chunk: the chunk is written, and the run
fails at the missing header. -/
theorem flashSparse_staysInside_truncated :
    Covered (exec (flashSparse (exampleImage.bytes.take 55)
        ⟨none, fun _ => none, none⟩ 20 55) ⟨7, 0, []⟩).2.writes 7 ∧
      7 < declaredSize (exampleImage.bytes.take 55) ∧ 7 < 20 := by
  have written : Covered (exec (flashSparse (exampleImage.bytes.take 55)
      ⟨none, fun _ => none, none⟩ 20 55) ⟨7, 0, []⟩).2.writes 7 :=
    ⟨⟨0, [10, 11, 12, 13, 14, 15, 16, 17]⟩, by decide +kernel, by decide⟩
  exact ⟨written, flashSparse_staysInside _ _ _ _ _ _ written⟩

end Pocketboot.Fastboot
