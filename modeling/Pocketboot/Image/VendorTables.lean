import Pocketboot.Base.Checked
import Pocketboot.Base.Records

/-!
# Vendor tables of device trees

Two vendor formats put a table of records before the device tree.  A record
names a board and says where its device tree begins and how long it is.  One
format has one device tree for all records, the other a copy for each.
-/

namespace Pocketboot.Image

/-- `value % alignment`. -/
def remOrPanic {ε : Type} (value alignment : Nat) : Run ε Nat :=
  if alignment = 0 then .error .panic else .ok (value % alignment)

def alignUpUsize (value alignment : Nat) : Run String Nat := do
  let remainder ← remOrPanic value alignment
  let pad ← remOrPanic (alignment - remainder) alignment
  Run.ofOption "aligned size overflows usize" (checkedAdd value pad)

/-- `output.resize(padded_len, 0)`, to a length that is not smaller. -/
def padVecTo (output : Bytes) (alignment : Nat) : Run String Bytes := do
  let paddedLength ← alignUpUsize output.length alignment
  return output ++ List.replicate (paddedLength - output.length) 0

def u32Len (value : Nat) (description context : String) : Run String Nat :=
  if value < 2 ^ 32 then .ok value
  else Run.fail s!"{description} is too large near {context}: {value} bytes"

def u32Le (value : Nat) : Bytes := Bytes.toLe 4 value

structure QcdtEntry where
  msmId : UInt32 × UInt32
  boardId : UInt32 × UInt32
  deriving DecidableEq, Repr

structure QcdtConfig where
  entries : List QcdtEntry
  deriving DecidableEq, Repr

structure DtbhEntry where
  chip : UInt32
  hwRev : UInt32
  hwRevEnd : UInt32
  deriving DecidableEq, Repr

structure DtbhConfig where
  platform : UInt32
  subtype : UInt32
  entries : List DtbhEntry
  deriving DecidableEq, Repr

/-- What the loop over the entries of `build_qcdt` writes for one of them. -/
def qcdtRecord (dtbOffset dtbSize : Nat) (entry : QcdtEntry) : Bytes :=
  u32Le entry.msmId.1.toNat ++ u32Le entry.boardId.1.toNat ++
    u32Le entry.boardId.2.toNat ++ u32Le entry.msmId.2.toNat ++
    u32Le dtbOffset ++ u32Le dtbSize

def buildQcdt (config : QcdtConfig) (pageSize : UInt32) (dtb : Bytes)
    (configPath : String) : Run String Bytes := do
  Run.ensure (config.entries ≠ []) s!"{configPath}: qcdt.entries is empty"
  let pageSize := pageSize.toNat
  let tableSize ← Run.ofOption "QCDT record table size overflows usize"
    (checkedMul 24 config.entries.length)
  let headerSize ← Run.ofOption "QCDT header size overflows usize"
    (checkedAdd 12 tableSize)
  let dtbOffset ← alignUpUsize headerSize pageSize
  let dtbSize ← alignUpUsize dtb.length pageSize
  let dtbOffsetU32 ← u32Len dtbOffset "QCDT DTB offset" configPath
  let dtbSizeU32 ← u32Len dtbSize "QCDT DTB size" configPath
  let _ ← Run.ofOption "QCDT size overflows usize"
    (checkedAdd dtbOffset dtbSize)
  let count ← u32Len config.entries.length "QCDT entry count" configPath
  let qcdt := byteString "QCDT" ++ u32Le 2 ++ u32Le count
  let qcdt := config.entries.foldl
    (fun qcdt entry => qcdt ++ qcdtRecord dtbOffsetU32 dtbSizeU32 entry) qcdt
  let qcdt ← padVecTo qcdt pageSize
  padVecTo (qcdt ++ dtb) pageSize

def dtbhMagic : Bytes := byteString "DTBH"

def dtbhVersion : Nat := 2

def dtbhRecordSpace : Nat := 0x20

def dtbhRecord (config : DtbhConfig) (dtbSize : Nat) (entry : DtbhEntry)
    (dtbOffset : Nat) : Bytes :=
  u32Le entry.chip.toNat ++ u32Le config.platform.toNat ++
    u32Le config.subtype.toNat ++ u32Le entry.hwRev.toNat ++
    u32Le entry.hwRevEnd.toNat ++ u32Le dtbOffset ++ u32Le dtbSize ++
    u32Le dtbhRecordSpace

/-- The loop over the entries of `build_dtbh`, with the running offset. -/
def dtbhRecords (config : DtbhConfig) (dtbSize : Nat) (configPath : String) :
    List DtbhEntry → Nat → Bytes → Run String Bytes
  | [], _, dtbh => .ok dtbh
  | entry :: entries, dtbOffset, dtbh => do
      let dtbOffsetU32 ← u32Len dtbOffset "DTBH DTB offset" configPath
      let dtbh := dtbh ++ dtbhRecord config dtbSize entry dtbOffsetU32
      let dtbOffset ← Run.ofOption "DTBH DTB offset overflows usize"
        (checkedAdd dtbOffset dtbSize)
      dtbhRecords config dtbSize configPath entries dtbOffset dtbh

/-- The loop that appends the copies. -/
def dtbhCopies (dtb : Bytes) (pageSize : Nat) :
    List DtbhEntry → Bytes → Run String Bytes
  | [], dtbh => .ok dtbh
  | _ :: entries, dtbh => do
      let dtbh ← padVecTo (dtbh ++ dtb) pageSize
      dtbhCopies dtb pageSize entries dtbh

def buildDtbh (config : DtbhConfig) (pageSize : UInt32) (dtb : Bytes)
    (configPath : String) : Run String Bytes := do
  Run.ensure (config.entries ≠ []) s!"{configPath}: dtbh.entries is empty"
  let pageSize := pageSize.toNat
  let recordsSize ← Run.ofOption "DTBH record table size overflows usize"
    (checkedMul 32 config.entries.length)
  let headerSize ← Run.ofOption "DTBH header size overflows usize"
    ((checkedAdd 12 recordsSize).bind fun size => checkedAdd size 4)
  let tableSize ← alignUpUsize headerSize pageSize
  let dtbSize ← alignUpUsize dtb.length pageSize
  let dtbSizeU32 ← u32Len dtbSize "DTBH DTB size" configPath
  let payloadSize ← Run.ofOption "DTBH payload size overflows usize"
    (checkedMul dtbSize config.entries.length)
  let _ ← Run.ofOption "DTBH size overflows usize"
    (checkedAdd tableSize payloadSize)
  let count ← u32Len config.entries.length "DTBH entry count" configPath
  let dtbh := dtbhMagic ++ u32Le dtbhVersion ++ u32Le count
  let dtbh ← dtbhRecords config dtbSizeU32 configPath config.entries tableSize
    dtbh
  let dtbh ← padVecTo (dtbh ++ u32Le 0) pageSize
  dtbhCopies dtb pageSize config.entries dtbh

/-! ## Padding -/

/-- A value and what is missing to a multiple of the alignment. -/
def roundUp (value alignment : Nat) : Nat :=
  value + (alignment - value % alignment) % alignment

theorem dvd_roundUp {alignment : Nat} (positive : 0 < alignment)
    (value : Nat) : alignment ∣ roundUp value alignment := by
  have small := Nat.mod_lt value positive
  have parts := Nat.div_add_mod value alignment
  unfold roundUp
  by_cases aligned : value % alignment = 0
  · rw [aligned, Nat.sub_zero, Nat.mod_self]
    exact Nat.dvd_of_mod_eq_zero aligned
  · rw [Nat.mod_eq_of_lt (show alignment - value % alignment < alignment by
      omega)]
    refine ⟨value / alignment + 1, ?_⟩
    rw [Nat.mul_succ]
    omega

theorem le_roundUp (value alignment : Nat) : value ≤ roundUp value alignment :=
  Nat.le_add_right _ _

theorem roundUp_sub_lt {alignment : Nat} (positive : 0 < alignment)
    (value : Nat) : roundUp value alignment - value < alignment := by
  rw [roundUp, Nat.add_sub_cancel_left]
  exact Nat.mod_lt _ positive

theorem roundUp_add {base alignment : Nat} (aligned : alignment ∣ base)
    (value : Nat) :
    roundUp (base + value) alignment = base + roundUp value alignment := by
  obtain ⟨factor, rfl⟩ := aligned
  rw [roundUp, roundUp, Nat.mul_add_mod, Nat.add_assoc]

theorem alignUpUsize_eq_ok {value alignment aligned : Nat} :
    alignUpUsize value alignment = .ok aligned ↔
      0 < alignment ∧ aligned = roundUp value alignment ∧
        aligned < wordSize := by
  unfold alignUpUsize remOrPanic
  by_cases zero : alignment = 0
  · simp [zero]
  · rw [if_neg zero, Run.ok_bind, if_neg zero, Run.ok_bind,
      Run.ofOption_eq_ok, checkedAdd_eq_some]
    refine ⟨?_, ?_⟩
    · rintro ⟨small, rfl⟩
      exact ⟨Nat.pos_of_ne_zero zero, rfl, small⟩
    · rintro ⟨-, rfl, small⟩
      exact ⟨small, rfl⟩

/-- The bytes with zeros up to a multiple of the alignment. -/
def padded (bytes : Bytes) (alignment : Nat) : Bytes :=
  bytes ++ List.replicate (roundUp bytes.length alignment - bytes.length) 0

theorem padded_length (bytes : Bytes) (alignment : Nat) :
    (padded bytes alignment).length = roundUp bytes.length alignment := by
  have grows := le_roundUp bytes.length alignment
  rw [padded, List.length_append, List.length_replicate]
  omega

theorem padVecTo_eq_ok {output result : Bytes} {alignment : Nat} :
    padVecTo output alignment = .ok result ↔
      0 < alignment ∧ roundUp output.length alignment < wordSize ∧
        result = padded output alignment := by
  unfold padVecTo
  rw [Run.bind_eq_ok]
  refine ⟨?_, ?_⟩
  · rintro ⟨length, aligned, result⟩
    obtain ⟨positive, rfl, small⟩ := alignUpUsize_eq_ok.mp aligned
    exact ⟨positive, small, (Except.ok.inj result).symm⟩
  · rintro ⟨positive, small, rfl⟩
    exact ⟨_, alignUpUsize_eq_ok.mpr ⟨positive, rfl, small⟩, rfl⟩

/-- Behind whole pages only the new bytes matter. -/
theorem padded_append {front : Bytes} {alignment : Nat}
    (aligned : alignment ∣ front.length) (bytes : Bytes) :
    padded (front ++ bytes) alignment = front ++ padded bytes alignment := by
  have length : (front ++ bytes).length = front.length + bytes.length :=
    List.length_append
  rw [padded, padded, length, roundUp_add aligned, Nat.add_sub_add_left,
    List.append_assoc]

/-! ## Where records point -/

/-- The number that a blob has at an offset. -/
def u32At (blob : Bytes) (offset : Nat) : Nat :=
  Bytes.ofLe (Bytes.slice blob offset (offset + 4))

theorem u32At_append {front back : Bytes} {value offset : Nat}
    (small : value < 2 ^ 32) (starts : offset = front.length) :
    u32At (front ++ (u32Le value ++ back)) offset = value := by
  have word : Bytes.slice (front ++ (u32Le value ++ back)) offset (offset + 4) =
      u32Le value := Bytes.slice_append starts (by simp [u32Le])
  rw [u32At, word, u32Le, Bytes.ofLe_toLe_of_lt (by omega)]

/-- There is a padded device tree behind the table. -/
structure PointsAt (blob dtb : Bytes) (pageSize tableSize offset size : Nat) :
    Prop where
  offsetAligned : pageSize ∣ offset
  sizeAligned : pageSize ∣ size
  behind : tableSize ≤ offset
  inside : offset + size ≤ blob.length
  content : ∃ padding < pageSize, Bytes.slice blob offset (offset + size) =
    dtb ++ List.replicate padding 0

/-- Every record points at a device tree, and the last one ends the blob. -/
structure PointsAll (blob dtb : Bytes) (pageSize tableSize count : Nat)
    (offsetOf sizeOf : Nat → Nat) : Prop where
  each : ∀ index < count,
    PointsAt blob dtb pageSize tableSize (offsetOf index) (sizeOf index)
  ends : blob.length = offsetOf (count - 1) + sizeOf (count - 1)

/-- How the writers lay out a blob: a header of twelve bytes, the records, the
end of the table, and some copies of the device tree from `start` on.  A record
points at the copy of its number, or at the only one. -/
structure Layout {α : Type} (blob dtb : Bytes) (pageSize : Nat)
    (record : α → Nat → Bytes) (width place stride copies start : Nat)
    (entries : List α) (header rest : Bytes) : Prop where
  positive : 0 < pageSize
  nonempty : entries ≠ []
  headerLength : header.length = 12
  begins : start = roundUp (12 + entries.length * width + rest.length) pageSize
  whole : blob = padded (header ++ (records record stride entries start ++ rest))
    pageSize ++ (List.replicate copies (padded dtb pageSize)).flatten
  widths : ∀ entry offset, (record entry offset).length = width
  fields : ∀ entry offset, ∃ front back, front.length = place ∧
    record entry offset = front ++ (u32Le offset ++
      (u32Le (roundUp dtb.length pageSize) ++ back))
  smallSize : roundUp dtb.length pageSize < 2 ^ 32
  smallOffsets : ∀ index < entries.length, start + index * stride < 2 ^ 32
  strides : (stride = 0 ∧ copies = 1) ∨
    (stride = roundUp dtb.length pageSize ∧ copies = entries.length)

namespace Layout

variable {α : Type} {blob dtb : Bytes} {pageSize : Nat}
  {record : α → Nat → Bytes} {width place stride copies start : Nat}
  {entries : List α} {header rest : Bytes}
  (layout : Layout blob dtb pageSize record width place stride copies start
    entries header rest)
include layout

theorem table_length :
    (padded (header ++ (records record stride entries start ++ rest))
      pageSize).length = start := by
  rw [padded_length, List.length_append, List.length_append,
    records_length layout.widths, layout.headerLength, layout.begins,
    Nat.add_assoc]

/-- What the fields of a record say. -/
theorem fields_eq {index : Nat} (inside : index < entries.length) :
    u32At blob (12 + index * width + place) = start + index * stride ∧
      u32At blob (12 + index * width + place + 4) =
        roundUp dtb.length pageSize := by
  have found := List.getElem?_eq_getElem inside
  obtain ⟨before, after, split, length⟩ :=
    @records_split α record stride width start entries _ layout.widths _ found
  obtain ⟨front, back, frontLength, parts⟩ := layout.fields entries[index]
    (start + index * stride)
  obtain ⟨zeros, padding⟩ : ∃ zeros, padded (header ++ (records record stride
      entries start ++ rest)) pageSize = header ++ (records record stride
        entries start ++ rest) ++ zeros := ⟨_, rfl⟩
  have whole := layout.whole
  rw [padding, split, parts] at whole
  generalize (List.replicate copies (padded dtb pageSize)).flatten = payload
    at whole
  have offsetSplit : blob = (header ++ before ++ front) ++
      (u32Le (start + index * stride) ++ (u32Le (roundUp dtb.length pageSize) ++
        (back ++ (after ++ (rest ++ (zeros ++ payload)))))) := by
    rw [whole]
    simp only [List.append_assoc]
  have sizeSplit : blob = (header ++ before ++ front ++
      u32Le (start + index * stride)) ++ (u32Le (roundUp dtb.length pageSize) ++
        (back ++ (after ++ (rest ++ (zeros ++ payload))))) := by
    rw [whole]
    simp only [List.append_assoc]
  refine ⟨?_, ?_⟩
  · rw [offsetSplit]
    refine u32At_append (layout.smallOffsets index inside) ?_
    simp only [List.length_append, layout.headerLength, length, frontLength]
  · rw [sizeSplit]
    refine u32At_append layout.smallSize ?_
    simp only [List.length_append, layout.headerLength, length, frontLength,
      u32Le, Bytes.toLe_length]

/-- The copy that a record points at. -/
theorem exists_copy {index : Nat} (inside : index < entries.length) :
    ∃ number < copies,
      index * stride = number * roundUp dtb.length pageSize ∧
        (index + 1 = entries.length → number + 1 = copies) := by
  rcases layout.strides with ⟨rfl, rfl⟩ | ⟨rfl, rfl⟩
  · exact ⟨0, Nat.one_pos, by simp, fun _ => rfl⟩
  · exact ⟨index, inside, rfl, id⟩

theorem blob_length : blob.length =
    start + copies * roundUp dtb.length pageSize := by
  rw [layout.whole, List.length_append, layout.table_length,
    List.length_flatten, List.map_replicate, List.sum_replicate_nat,
    padded_length]

theorem points {index : Nat} (inside : index < entries.length) :
    PointsAt blob dtb pageSize (12 + entries.length * width + rest.length)
      (start + index * stride) (roundUp dtb.length pageSize) := by
  obtain ⟨number, exists', same, -⟩ := layout.exists_copy inside
  have sizeAligned := dvd_roundUp layout.positive dtb.length
  have startAligned : pageSize ∣ start := by
    rw [layout.begins]
    exact dvd_roundUp layout.positive _
  have behind : 12 + entries.length * width + rest.length ≤ start := by
    conv_rhs => rw [layout.begins]
    exact le_roundUp _ _
  obtain ⟨front, back, split, length⟩ :=
    @copies_split (padded dtb pageSize) copies number exists'
  rw [padded_length] at length
  have place : blob = (padded (header ++ (records record stride entries start
      ++ rest)) pageSize ++ front) ++ (padded dtb pageSize ++ back) := by
    rw [List.append_assoc, ← split]
    exact layout.whole
  rw [same]
  have within := Nat.mul_le_mul_right (roundUp dtb.length pageSize)
    (Nat.succ_le_of_lt exists')
  rw [Nat.succ_mul] at within
  refine ⟨Nat.dvd_add startAligned (Nat.dvd_mul_left_of_dvd sizeAligned _),
    sizeAligned, by omega, ?_, ?_⟩
  · rw [layout.blob_length]
    omega
  · refine ⟨_, roundUp_sub_lt layout.positive dtb.length, ?_⟩
    rw [place, Bytes.slice_append]
    · rfl
    · rw [List.length_append, layout.table_length, length]
    · rw [padded_length]

theorem pointsAll :
    PointsAll blob dtb pageSize (12 + entries.length * width + rest.length)
      entries.length (fun index => u32At blob (12 + index * width + place))
      (fun index => u32At blob (12 + index * width + place + 4)) where
  each index inside := by
    obtain ⟨offset, size⟩ := layout.fields_eq inside
    rw [offset, size]
    exact layout.points inside
  ends := by
    have some := List.length_pos_of_ne_nil layout.nonempty
    have last : entries.length - 1 < entries.length := by omega
    obtain ⟨offset, size⟩ := layout.fields_eq last
    obtain ⟨number, -, same, final⟩ := layout.exists_copy last
    rw [offset, size, same, layout.blob_length, ← final (by omega),
      Nat.succ_mul, Nat.add_assoc]

end Layout

/-! ## The writers lay out their blobs like that -/

@[simp] theorem u32Len_eq_ok {value result : Nat}
    {description context : String} :
    u32Len value description context = .ok result ↔
      value < 2 ^ 32 ∧ value = result := by
  unfold u32Len
  by_cases small : value < 2 ^ 32
  · rw [if_pos small]
    simp only [Except.ok.injEq, small, true_and]
  · rw [if_neg small]
    simp only [Run.fail_ne_ok, small, false_and]

theorem qcdtRecord_length (dtbOffset dtbSize : Nat) (entry : QcdtEntry) :
    (qcdtRecord dtbOffset dtbSize entry).length = 24 := by
  simp [qcdtRecord, u32Le]

theorem foldl_qcdtRecord (dtbOffset dtbSize : Nat) (entries : List QcdtEntry)
    (qcdt : Bytes) :
    entries.foldl (fun qcdt entry => qcdt ++ qcdtRecord dtbOffset dtbSize entry)
        qcdt =
      qcdt ++ records (fun entry offset => qcdtRecord offset dtbSize entry) 0
        entries dtbOffset := by
  induction entries generalizing qcdt with
  | nil => simp [records]
  | cons entry entries induction =>
      rw [List.foldl_cons, induction, records, List.append_assoc, Nat.add_zero]

theorem buildQcdt_layout {config : QcdtConfig} {pageSize : UInt32}
    {dtb blob : Bytes} {configPath : String}
    (built : buildQcdt config pageSize dtb configPath = .ok blob) :
    ∃ start header, Layout blob dtb pageSize.toNat
      (fun entry offset => qcdtRecord offset
        (roundUp dtb.length pageSize.toNat) entry)
      24 16 0 1 start config.entries header [] := by
  simp only [buildQcdt, Run.bind_eq_ok, Run.ensure_eq_ok, Run.ofOption_eq_ok,
    checkedMul_eq_some, checkedAdd_eq_some, alignUpUsize_eq_ok, u32Len_eq_ok,
    padVecTo_eq_ok] at built
  obtain ⟨-, nonempty, _, ⟨-, rfl⟩, _, ⟨-, rfl⟩, start, ⟨positive, begins, -⟩,
    size, ⟨-, rfl, -⟩, _, ⟨smallOffset, rfl⟩, _, ⟨smallSize, rfl⟩, _, -, _,
    ⟨-, rfl⟩, table, ⟨-, -, rfl⟩, -, -, rfl⟩ := built
  have headerLength : (byteString "QCDT" ++ u32Le 2 ++
      u32Le config.entries.length).length = 12 := by
    simp [u32Le, byteString]
  rw [foldl_qcdtRecord]
  have aligned := dvd_roundUp positive (byteString "QCDT" ++ u32Le 2 ++
    u32Le config.entries.length ++ records (fun entry offset =>
      qcdtRecord offset (roundUp dtb.length pageSize.toNat) entry) 0
        config.entries start).length
  rw [← padded_length] at aligned
  refine ⟨start, _, positive, nonempty, headerLength, ?_, ?_,
    fun entry offset => qcdtRecord_length offset _ entry, ?_, smallSize, ?_,
    .inl ⟨rfl, rfl⟩⟩
  · rw [begins, Nat.mul_comm]
    rfl
  · rw [padded_append aligned, List.append_nil]
    simp
  · intro entry offset
    refine ⟨u32Le entry.msmId.1.toNat ++ u32Le entry.boardId.1.toNat ++
      u32Le entry.boardId.2.toNat ++ u32Le entry.msmId.2.toNat, [], ?_, ?_⟩
    · simp [u32Le]
    · simp only [qcdtRecord, List.append_assoc, List.append_nil]
  · intro index _
    rwa [Nat.mul_zero]

theorem dtbhRecord_length (config : DtbhConfig) (dtbSize dtbOffset : Nat)
    (entry : DtbhEntry) :
    (dtbhRecord config dtbSize entry dtbOffset).length = 32 := by
  simp [dtbhRecord, u32Le]

/-- The running offset of the loop is that of the copy with the number of the
entry. -/
theorem dtbhRecords_eq_ok {config : DtbhConfig} {dtbSize dtbOffset : Nat}
    {configPath : String} {entries : List DtbhEntry} {dtbh result : Bytes}
    (written : dtbhRecords config dtbSize configPath entries dtbOffset dtbh =
      .ok result) :
    result = dtbh ++ records (dtbhRecord config dtbSize) dtbSize entries
        dtbOffset ∧
      ∀ index < entries.length, dtbOffset + index * dtbSize < 2 ^ 32 := by
  induction entries generalizing dtbOffset dtbh with
  | nil =>
      obtain rfl := Except.ok.inj written
      simp [records]
  | cons entry entries induction =>
      simp only [dtbhRecords, Run.bind_eq_ok, u32Len_eq_ok, Run.ofOption_eq_ok,
        checkedAdd_eq_some] at written
      obtain ⟨_, ⟨small, rfl⟩, _, ⟨-, rfl⟩, written⟩ := written
      obtain ⟨rfl, later⟩ := induction written
      refine ⟨by rw [records, List.append_assoc], ?_⟩
      intro index inside
      cases index with
      | zero => simpa using small
      | succ index =>
          have next := later index (Nat.lt_of_succ_lt_succ inside)
          rw [Nat.succ_mul]
          omega

theorem dtbhCopies_eq_ok {dtb : Bytes} {pageSize : Nat}
    {entries : List DtbhEntry} {dtbh result : Bytes}
    (written : dtbhCopies dtb pageSize entries dtbh = .ok result)
    (aligned : pageSize ∣ dtbh.length) :
    result = dtbh ++
      (List.replicate entries.length (padded dtb pageSize)).flatten := by
  induction entries generalizing dtbh with
  | nil =>
      obtain rfl := Except.ok.inj written
      simp
  | cons entry entries induction =>
      simp only [dtbhCopies, Run.bind_eq_ok, padVecTo_eq_ok] at written
      obtain ⟨_, ⟨positive, -, rfl⟩, written⟩ := written
      have next := dvd_roundUp positive (dtbh ++ dtb).length
      rw [← padded_length] at next
      rw [induction written next, padded_append aligned, List.length_cons,
        List.replicate_succ, List.flatten_cons, List.append_assoc]

theorem buildDtbh_layout {config : DtbhConfig} {pageSize : UInt32}
    {dtb blob : Bytes} {configPath : String}
    (built : buildDtbh config pageSize dtb configPath = .ok blob) :
    ∃ start header, Layout blob dtb pageSize.toNat
      (dtbhRecord config (roundUp dtb.length pageSize.toNat)) 32 20
      (roundUp dtb.length pageSize.toNat) config.entries.length start
      config.entries header (u32Le 0) := by
  simp only [buildDtbh, Run.bind_eq_ok, Run.ensure_eq_ok, Run.ofOption_eq_ok,
    checkedMul_eq_some, checkedAdd_eq_some, Option.bind_eq_some_iff,
    alignUpUsize_eq_ok, u32Len_eq_ok, padVecTo_eq_ok] at built
  obtain ⟨-, nonempty, _, ⟨-, rfl⟩, _, ⟨_, ⟨-, rfl⟩, -, rfl⟩, start,
    ⟨positive, begins, -⟩, _, ⟨-, rfl, -⟩, _, ⟨smallSize, rfl⟩, _, -, _, -, _,
    ⟨-, rfl⟩, _, table, _, ⟨-, -, rfl⟩, copies⟩ := built
  obtain ⟨rfl, smallOffsets⟩ := dtbhRecords_eq_ok table
  have aligned := dvd_roundUp positive (dtbhMagic ++ u32Le dtbhVersion ++
    u32Le config.entries.length ++ records (dtbhRecord config
      (roundUp dtb.length pageSize.toNat)) (roundUp dtb.length pageSize.toNat)
        config.entries start ++ u32Le 0).length
  rw [← padded_length] at aligned
  have headerLength : (dtbhMagic ++ u32Le dtbhVersion ++
      u32Le config.entries.length).length = 12 := by
    simp [u32Le, dtbhMagic, byteString]
  refine ⟨start, _, positive, nonempty, headerLength, ?_, ?_,
    fun entry offset => dtbhRecord_length config _ offset entry, ?_, smallSize,
    smallOffsets, .inr ⟨rfl, rfl⟩⟩
  · rw [begins, Nat.mul_comm]
    simp [u32Le]
  · rw [dtbhCopies_eq_ok copies aligned]
    simp only [List.append_assoc]
  · intro entry offset
    refine ⟨u32Le entry.chip.toNat ++ u32Le config.platform.toNat ++
      u32Le config.subtype.toNat ++ u32Le entry.hwRev.toNat ++
      u32Le entry.hwRevEnd.toNat, u32Le dtbhRecordSpace, ?_, ?_⟩
    · simp [u32Le]
    · simp only [dtbhRecord, List.append_assoc]

/-- In every blob that is built, each record points at a padded device tree
behind the table, and the last one ends the blob. -/
theorem vendorTables_point :
    (∀ {config : QcdtConfig} {pageSize : UInt32} {dtb blob : Bytes}
      {configPath : String},
      buildQcdt config pageSize dtb configPath = .ok blob →
        PointsAll blob dtb pageSize.toNat (12 + config.entries.length * 24)
          config.entries.length (fun index => u32At blob (12 + index * 24 + 16))
          (fun index => u32At blob (12 + index * 24 + 20))) ∧
    ∀ {config : DtbhConfig} {pageSize : UInt32} {dtb blob : Bytes}
      {configPath : String},
      buildDtbh config pageSize dtb configPath = .ok blob →
        PointsAll blob dtb pageSize.toNat (12 + config.entries.length * 32 + 4)
          config.entries.length (fun index => u32At blob (12 + index * 32 + 20))
          (fun index => u32At blob (12 + index * 32 + 24)) := by
  refine ⟨fun built => ?_, fun built => ?_⟩
  · obtain ⟨_, _, layout⟩ := buildQcdt_layout built
    exact layout.pointsAll
  · obtain ⟨_, _, layout⟩ := buildDtbh_layout built
    have table : (u32Le 0).length = 4 := by simp [u32Le]
    have points := layout.pointsAll
    rw [table] at points
    exact points

def dtbhSmall : DtbhConfig :=
  ⟨0x50a6, 0x217584da, [⟨7870, 0, 255⟩, ⟨7880, 1, 2⟩]⟩

def qcdtSmall : QcdtConfig := ⟨[⟨(206, 0), (0xce08ff01, 1)⟩]⟩

theorem vendorTables_point_small :
    (∃ blob, buildQcdt qcdtSmall 16 (byteString "dtb") "test.toml" = .ok blob ∧
      PointsAll blob (byteString "dtb") 16 36 1
        (fun index => u32At blob (12 + index * 24 + 16))
        (fun index => u32At blob (12 + index * 24 + 20))) ∧
    ∃ blob, buildDtbh dtbhSmall 16 (byteString "dtb") "test.toml" = .ok blob ∧
      PointsAll blob (byteString "dtb") 16 80 2
        (fun index => u32At blob (12 + index * 32 + 20))
        (fun index => u32At blob (12 + index * 32 + 24)) :=
  have qcdt : ∃ blob, buildQcdt qcdtSmall 16 (byteString "dtb") "test.toml" =
      .ok blob := ⟨_, rfl⟩
  have dtbh : ∃ blob, buildDtbh dtbhSmall 16 (byteString "dtb") "test.toml" =
      .ok blob := ⟨_, rfl⟩
  ⟨qcdt.imp fun _ built => ⟨built, vendorTables_point.1 built⟩,
    dtbh.imp fun _ built => ⟨built, vendorTables_point.2 built⟩⟩

end Pocketboot.Image
