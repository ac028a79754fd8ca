import Pocketboot.AbSlots.Commit

/-!
# Header sectors

What `parse_gpt_header` accepts, as a property of the sector, and how the
checksum updates of `commit` change an accepted sector.
-/

namespace Pocketboot.AbSlots

open Storage

/-- The `u32` at an offset of a record. -/
def u32At (raw : Bytes) (start : Nat) : Nat :=
  Bytes.ofLe (Bytes.slice raw start (start + 4))

/-- The `u64` at an offset of a record. -/
def u64At (raw : Bytes) (start : Nat) : Nat :=
  Bytes.ofLe (Bytes.slice raw start (start + 8))

/-- The fields of a header sector. -/
def headerOf (raw : Bytes) : GptHeader where
  currentLba := u64At raw 24
  backupLba := u64At raw 32
  entriesLba := u64At raw 72
  entryCount := u32At raw 80
  entrySize := u32At raw 84
  entryArrayCrc32 := u32At raw 88

/-- A sector whose fields are acceptable on a disk of `totalBlocks` LBAs,
whatever its checksum. -/
structure HeaderShape (raw : Bytes) (totalBlocks : Nat) : Prop where
  long : gptMinHeaderSize ≤ raw.length
  signature : raw.take 8 = gptSignature
  size_ge : gptMinHeaderSize ≤ u32At raw 12
  size_le : u32At raw 12 ≤ raw.length
  currentLba_lt : u64At raw 24 < totalBlocks
  backupLba_lt : u64At raw 32 < totalBlocks
  entriesLba_lt : u64At raw 72 < totalBlocks
  usable : u64At raw 40 ≤ u64At raw 48
  entryCount_ne : u32At raw 80 ≠ 0
  entrySize_ge : gptMinEntrySize ≤ u32At raw 84

/-- The header checksum of a sector matches its header. -/
def HeaderCrcMatches (raw : Bytes) : Prop :=
  (headerCrc raw (u32At raw 12)).toNat = u32At raw 16

theorem readU32Le_of_le (raw : Bytes) (start : Nat)
    (inside : start + 4 ≤ raw.length) :
    readU32Le raw start = .ok (u32At raw start) := by
  simp [readU32Le, Run.ensure_of inside, u32At]

theorem readU64Le_of_le (raw : Bytes) (start : Nat)
    (inside : start + 8 ≤ raw.length) :
    readU64Le raw start = .ok (u64At raw start) := by
  simp [readU64Le, Run.ensure_of inside, u64At]

theorem parseGptHeader_eq_ok {raw : Bytes} {totalBlocks : Nat}
    {header : GptHeader} :
    parseGptHeader raw totalBlocks = .ok header ↔
      HeaderShape raw totalBlocks ∧ HeaderCrcMatches raw ∧
        header = headerOf raw := by
  constructor
  · intro parsed
    unfold parseGptHeader at parsed
    obtain ⟨_, start, parsed⟩ := Run.bind_eq_ok.mp parsed
    obtain ⟨long, signature⟩ := Run.ensure_eq_ok.mp start
    have reach : 92 ≤ raw.length := long
    simp only [readU32Le_of_le raw 12 (by omega),
      readU32Le_of_le raw 16 (by omega),
      readU32Le_of_le raw 80 (by omega),
      readU32Le_of_le raw 84 (by omega),
      readU32Le_of_le raw 88 (by omega),
      readU64Le_of_le raw 24 (by omega),
      readU64Le_of_le raw 32 (by omega),
      readU64Le_of_le raw 40 (by omega),
      readU64Le_of_le raw 48 (by omega),
      readU64Le_of_le raw 72 (by omega),
      Run.ok_bind, Run.bind_eq_ok, Run.ensure_eq_ok, Run.pure_eq_ok,
      Except.ok.injEq, exists_and_left, exists_const] at parsed
    obtain ⟨⟨sizeGe, sizeLe⟩, crc, ⟨currentLt, backupLt, entriesLt⟩, usable,
      ⟨countNe, sizeEntry⟩, same⟩ := parsed
    exact ⟨⟨long, signature, sizeGe, sizeLe, currentLt, backupLt,
      entriesLt, usable, countNe, sizeEntry⟩, crc, same.symm⟩
  · rintro ⟨valid, crc, rfl⟩
    unfold HeaderCrcMatches at crc
    have reach : 92 ≤ raw.length := valid.long
    unfold parseGptHeader
    simp only [readU32Le_of_le raw 12 (by omega),
      readU32Le_of_le raw 16 (by omega),
      readU32Le_of_le raw 80 (by omega),
      readU32Le_of_le raw 84 (by omega),
      readU32Le_of_le raw 88 (by omega),
      readU64Le_of_le raw 24 (by omega),
      readU64Le_of_le raw 32 (by omega),
      readU64Le_of_le raw 40 (by omega),
      readU64Le_of_le raw 48 (by omega),
      readU64Le_of_le raw 72 (by omega),
      Run.ensure_of (And.intro valid.long valid.signature),
      Run.ensure_of (And.intro valid.size_ge valid.size_le),
      Run.ensure_of crc, Run.ensure_of valid.usable,
      Run.ensure_of (And.intro valid.entryCount_ne valid.entrySize_ge),
      Run.ensure_of (And.intro valid.currentLba_lt
        (And.intro valid.backupLba_lt valid.entriesLba_lt)),
      Run.ok_bind, Run.pure_eq_ok]
    rfl

theorem u32At_splice_of_disjoint {raw patch : Bytes} {start field : Nat}
    (inside : start + patch.length ≤ raw.length)
    (apart : field + 4 ≤ start ∨ start + patch.length ≤ field) :
    u32At (Bytes.splice raw start patch) field = u32At raw field := by
  rw [u32At, Bytes.slice_splice_of_disjoint inside apart, u32At]

theorem u64At_splice_of_disjoint {raw patch : Bytes} {start field : Nat}
    (inside : start + patch.length ≤ raw.length)
    (apart : field + 8 ≤ start ∨ start + patch.length ≤ field) :
    u64At (Bytes.splice raw start patch) field = u64At raw field := by
  rw [u64At, Bytes.slice_splice_of_disjoint inside apart, u64At]

theorem u32At_splice_self {raw : Bytes} {start value : Nat}
    (inside : start + 4 ≤ raw.length) (bound : value < 2 ^ 32) :
    u32At (Bytes.splice raw start (Bytes.toLe 4 value)) start = value := by
  have fits : start + (Bytes.toLe 4 value).length ≤ raw.length := by
    simpa using inside
  have slice := Bytes.slice_splice_self fits
  rw [Bytes.toLe_length] at slice
  rw [u32At, slice, Bytes.ofLe_toLe_of_lt (by simpa using bound)]

/-- The header sector that `commit` writes for an entry array. -/
def refreshedHeader (raw entries : Bytes) : Bytes :=
  let withEntries :=
    Bytes.splice raw 88 (Bytes.toLe 4 (crc32Ieee entries).toNat)
  Bytes.splice withEntries 16
    (Bytes.toLe 4 (headerCrc withEntries (u32At raw 12)).toNat)

theorem refreshedHeader_length {raw : Bytes} (entries : Bytes)
    (long : gptMinHeaderSize ≤ raw.length) :
    (refreshedHeader raw entries).length = raw.length := by
  have reach : 92 ≤ raw.length := long
  have first : (Bytes.splice raw 88
      (Bytes.toLe 4 (crc32Ieee entries).toNat)).length = raw.length :=
    Bytes.splice_length (by simp; omega)
  unfold refreshedHeader
  rw [Bytes.splice_length (by simp [first]; omega), first]

/-- The checksum updates of `commit` turn an accepted sector into its refreshed
form. -/
theorem updateCrc_eq_refreshedHeader {raw : Bytes} (entries : Bytes)
    {totalBlocks : Nat}
    (valid : HeaderShape raw totalBlocks) :
    (do let header ← updateEntryArrayCrc raw entries
        updateHeaderCrc header) = .ok (refreshedHeader raw entries) := by
  have reach : 92 ≤ raw.length := valid.long
  let first := Bytes.splice raw 88 (Bytes.toLe 4 (crc32Ieee entries).toNat)
  have firstLength : first.length = raw.length :=
    Bytes.splice_length (by simp; omega)
  have firstSize : u32At first 12 = u32At raw 12 :=
    u32At_splice_of_disjoint (by simp; omega) (.inl (by omega))
  have sizeGe : 92 ≤ u32At raw 12 := valid.size_ge
  have sizeLe : u32At raw 12 ≤ raw.length := valid.size_le
  have zeroed : (Bytes.splice first 16 (Bytes.toLe 4 0)).length =
      raw.length := by
    rw [Bytes.splice_length (by simp [firstLength]; omega), firstLength]
  have zeroes : Bytes.toLe 4 0 = [0, 0, 0, 0] := rfl
  have covered : (Bytes.splice first 16 (Bytes.toLe 4 0)).take (u32At raw 12) =
      Bytes.splice (first.take (u32At raw 12)) 16 [0, 0, 0, 0] := by
    rw [← zeroes]
    exact Bytes.take_splice (by simp; omega) (by omega)
  have wrote : updateEntryArrayCrc raw entries = .ok first := by
    simp [updateEntryArrayCrc, writeU32Le,
      Run.ensure_of (show 88 + 4 ≤ raw.length by omega), first]
  rw [wrote, Run.ok_bind, updateHeaderCrc,
    readU32Le_of_le _ _ (by omega), Run.ok_bind, firstSize,
    Run.ensure_of ⟨valid.size_ge, by omega⟩, Run.ok_bind, writeU32Le,
    Run.ensure_of (by omega), Run.ok_bind, Run.pure_eq_ok, Run.ok_bind,
    covered, writeU32Le, Run.ensure_of (by omega), Run.ok_bind,
    Run.pure_eq_ok, Bytes.splice_splice_self (by simp)
      (by simp [firstLength]; omega)]
  rfl

theorem refreshedHeader_fields {raw : Bytes} (entries : Bytes)
    (long : gptMinHeaderSize ≤ raw.length) :
    headerOf (refreshedHeader raw entries) =
      { headerOf raw with
        entryArrayCrc32 := (crc32Ieee entries).toNat } := by
  have reach : 92 ≤ raw.length := long
  have firstLength : (Bytes.splice raw 88
      (Bytes.toLe 4 (crc32Ieee entries).toNat)).length = raw.length :=
    Bytes.splice_length (by simp; omega)
  have crcBound := (crc32Ieee entries).toNat_lt
  simp only [headerOf, refreshedHeader]
  congr 1
  · rw [u64At_splice_of_disjoint (by simp [firstLength]; omega) (by simp),
      u64At_splice_of_disjoint (by simp; omega) (by simp)]
  · rw [u64At_splice_of_disjoint (by simp [firstLength]; omega) (by simp),
      u64At_splice_of_disjoint (by simp; omega) (by simp)]
  · rw [u64At_splice_of_disjoint (by simp [firstLength]; omega) (by simp),
      u64At_splice_of_disjoint (by simp; omega) (by simp)]
  · rw [u32At_splice_of_disjoint (by simp [firstLength]; omega) (by simp),
      u32At_splice_of_disjoint (by simp; omega) (by simp)]
  · rw [u32At_splice_of_disjoint (by simp [firstLength]; omega) (by simp),
      u32At_splice_of_disjoint (by simp; omega) (by simp)]
  · rw [u32At_splice_of_disjoint (by simp [firstLength]; omega) (by simp),
      u32At_splice_self (by omega) crcBound]

private theorem refreshedHeader_size {raw : Bytes} (entries : Bytes)
    (long : gptMinHeaderSize ≤ raw.length) :
    u32At (refreshedHeader raw entries) 12 = u32At raw 12 := by
  have reach : 92 ≤ raw.length := long
  have firstLength : (Bytes.splice raw 88
      (Bytes.toLe 4 (crc32Ieee entries).toNat)).length = raw.length :=
    Bytes.splice_length (by simp; omega)
  unfold refreshedHeader
  rw [u32At_splice_of_disjoint (by simp [firstLength]; omega) (by simp),
    u32At_splice_of_disjoint (by simp; omega) (by simp)]

/-- A refreshed sector carries its own header checksum. -/
theorem refreshedHeader_crc {raw entries : Bytes} {totalBlocks : Nat}
    (valid : HeaderShape raw totalBlocks) :
    HeaderCrcMatches (refreshedHeader raw entries) := by
  have reach : 92 ≤ raw.length := valid.long
  have sizeGe : 92 ≤ u32At raw 12 := valid.size_ge
  have sizeLe : u32At raw 12 ≤ raw.length := valid.size_le
  let first := Bytes.splice raw 88 (Bytes.toLe 4 (crc32Ieee entries).toNat)
  have firstLength : first.length = raw.length :=
    Bytes.splice_length (by simp; omega)
  have value : headerCrc (refreshedHeader raw entries) (u32At raw 12) =
      headerCrc first (u32At raw 12) := by
    unfold headerCrc refreshedHeader
    rw [Bytes.take_splice (by simp; omega) (by simp [firstLength, first] at *; omega),
      Bytes.splice_splice_self (by simp) (by simp [firstLength, first] at *; omega)]
  have field : u32At (refreshedHeader raw entries) 16 =
      (headerCrc first (u32At raw 12)).toNat :=
    u32At_splice_self (by simp [firstLength, first] at *; omega)
      (UInt32.toNat_lt _)
  rw [HeaderCrcMatches, refreshedHeader_size _ valid.long, value, field]

/-- Outside its two checksum fields a refreshed sector is the old one. -/
theorem refreshedHeader_getElem? {raw : Bytes} (entries : Bytes) {index : Nat}
    (long : gptMinHeaderSize ≤ raw.length)
    (notHeaderCrc : ¬(16 ≤ index ∧ index < 20))
    (notEntriesCrc : ¬(88 ≤ index ∧ index < 92)) :
    (refreshedHeader raw entries)[index]? = raw[index]? := by
  have reach : 92 ≤ raw.length := long
  have firstLength : (Bytes.splice raw 88
      (Bytes.toLe 4 (crc32Ieee entries).toNat)).length = raw.length :=
    Bytes.splice_length (by simp; omega)
  unfold refreshedHeader
  rw [Bytes.getElem?_splice (by simp [firstLength]; omega),
    Bytes.getElem?_splice (by simp; omega)]
  simp only [Bytes.toLe_length]
  split
  · split
    · rfl
    · rw [if_neg (by omega)]
  · rw [if_neg (by omega)]
    split
    · rfl
    · rw [if_neg (by omega)]

/-- A refreshed sector keeps the shape of its header. -/
theorem HeaderShape.refreshed {raw entries : Bytes} {totalBlocks : Nat}
    (valid : HeaderShape raw totalBlocks) :
    HeaderShape (refreshedHeader raw entries) totalBlocks := by
  have reach : 92 ≤ raw.length := valid.long
  let first := Bytes.splice raw 88 (Bytes.toLe 4 (crc32Ieee entries).toNat)
  have firstLength : first.length = raw.length :=
    Bytes.splice_length (by simp; omega)
  have length := refreshedHeader_length entries valid.long
  have fields := refreshedHeader_fields entries valid.long
  have size := refreshedHeader_size entries valid.long
  have usableFirst : u64At (refreshedHeader raw entries) 40 = u64At raw 40 := by
    unfold refreshedHeader
    rw [u64At_splice_of_disjoint (by simp [firstLength, first] at *; omega)
      (by simp), u64At_splice_of_disjoint (by simp; omega) (by simp)]
  have usableLast : u64At (refreshedHeader raw entries) 48 = u64At raw 48 := by
    unfold refreshedHeader
    rw [u64At_splice_of_disjoint (by simp [firstLength, first] at *; omega)
      (by simp), u64At_splice_of_disjoint (by simp; omega) (by simp)]
  have current : u64At (refreshedHeader raw entries) 24 = u64At raw 24 :=
    congrArg GptHeader.currentLba fields
  have backup : u64At (refreshedHeader raw entries) 32 = u64At raw 32 :=
    congrArg GptHeader.backupLba fields
  have entriesLba : u64At (refreshedHeader raw entries) 72 = u64At raw 72 :=
    congrArg GptHeader.entriesLba fields
  have count : u32At (refreshedHeader raw entries) 80 = u32At raw 80 :=
    congrArg GptHeader.entryCount fields
  have entrySize : u32At (refreshedHeader raw entries) 84 = u32At raw 84 :=
    congrArg GptHeader.entrySize fields
  constructor
  · rw [length]; exact valid.long
  · unfold refreshedHeader
    rw [Bytes.take_splice_of_le (by simp [firstLength, first] at *; omega)
      (by omega), Bytes.take_splice_of_le (by simp; omega) (by omega)]
    exact valid.signature
  · rw [size]; exact valid.size_ge
  · rw [size, length]; exact valid.size_le
  · rw [current]; exact valid.currentLba_lt
  · rw [backup]; exact valid.backupLba_lt
  · rw [entriesLba]; exact valid.entriesLba_lt
  · rw [usableFirst, usableLast]; exact valid.usable
  · rw [count]; exact valid.entryCount_ne
  · rw [entrySize]; exact valid.entrySize_ge

end Pocketboot.AbSlots
