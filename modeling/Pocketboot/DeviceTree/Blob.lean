import Pocketboot.DeviceTree.Walk

/-!
# Flattened device tree blobs

A blob is a header of ten 32-bit words, a memory reserve map, a structure
block and a strings block.  `decode` gives its meaning; `assemble` lays the
parts out one after another, and decoding what it lays out gives the parts
back.
-/

namespace Pocketboot.DeviceTree

def fdtMagic : Nat := 0xd00dfeed

/-- The words of a header after the magic number. -/
structure Header where
  totalsize : Nat
  offDtStruct : Nat
  offDtStrings : Nat
  offMemRsvmap : Nat
  version : Nat
  lastCompVersion : Nat
  bootCpuidPhys : Nat
  sizeDtStrings : Nat
  sizeDtStruct : Nat
  deriving DecidableEq, Repr

/-- The header words of a blob. -/
def headerOf (dtb : Bytes) : Header where
  totalsize := be32At dtb 4
  offDtStruct := be32At dtb 8
  offDtStrings := be32At dtb 12
  offMemRsvmap := be32At dtb 16
  version := be32At dtb 20
  lastCompVersion := be32At dtb 24
  bootCpuidPhys := be32At dtb 28
  sizeDtStrings := be32At dtb 32
  sizeDtStruct := be32At dtb 36

def structBlock (dtb : Bytes) : Bytes :=
  Bytes.slice dtb (headerOf dtb).offDtStruct
    ((headerOf dtb).offDtStruct + (headerOf dtb).sizeDtStruct)

def stringsBlock (dtb : Bytes) : Bytes :=
  Bytes.slice dtb (headerOf dtb).offDtStrings
    ((headerOf dtb).offDtStrings + (headerOf dtb).sizeDtStrings)

/-- The magic number and the extents of a blob. -/
structure WellPlaced (dtb : Bytes) : Prop where
  magic : be32At dtb 0 = fdtMagic
  headed : 40 ≤ (headerOf dtb).totalsize
  whole : (headerOf dtb).totalsize ≤ dtb.length
  struct_le : (headerOf dtb).offDtStruct + (headerOf dtb).sizeDtStruct ≤
    (headerOf dtb).totalsize
  strings_le : (headerOf dtb).offDtStrings + (headerOf dtb).sizeDtStrings ≤
    (headerOf dtb).totalsize

theorem wellPlaced_iff (dtb : Bytes) : WellPlaced dtb ↔
    be32At dtb 0 = fdtMagic ∧ 40 ≤ (headerOf dtb).totalsize ∧
      (headerOf dtb).totalsize ≤ dtb.length ∧
      (headerOf dtb).offDtStruct + (headerOf dtb).sizeDtStruct ≤
        (headerOf dtb).totalsize ∧
      (headerOf dtb).offDtStrings + (headerOf dtb).sizeDtStrings ≤
        (headerOf dtb).totalsize :=
  ⟨fun ⟨magic, headed, whole, inStruct, inStrings⟩ =>
      ⟨magic, headed, whole, inStruct, inStrings⟩,
    fun ⟨magic, headed, whole, inStruct, inStrings⟩ =>
      ⟨magic, headed, whole, inStruct, inStrings⟩⟩

instance (dtb : Bytes) : Decidable (WellPlaced dtb) :=
  decidable_of_iff _ (wellPlaced_iff dtb).symm

/-- The meaning of a structure block. -/
def decodeBlock (strings block : Bytes) : Option Content :=
  match Content.parse strings (block.length + 1) block with
  | some (content, rest) =>
      match readToken rest with
      | some (.fin, _) => some content
      | _ => none
  | none => none

/-- The meaning of a blob. -/
def decode (dtb : Bytes) : Option Content :=
  if WellPlaced dtb then decodeBlock (stringsBlock dtb) (structBlock dtb)
  else none

theorem decodeBlock_forest (strings : Bytes) (forest : Forest)
    (trailing : Bytes) :
    decodeBlock strings (forest.bytes ++ (be32 endToken ++ trailing)) =
      some (forest.content strings) := by
  have enough : forest.bytes.length <
      (forest.bytes ++ (be32 endToken ++ trailing)).length + 1 := by
    simp only [List.length_append]
    omega
  have parsed := @Content.parse_bytes strings .fin trailing (.inr rfl) forest _
    enough
  have closed := readToken_bytes .fin trailing
  rw [show Lexeme.fin.bytes = be32 endToken from rfl] at parsed closed
  rw [decodeBlock, parsed]
  simp only [closed, Lexeme.token]

theorem decode_forest {dtb trailing : Bytes} {forest : Forest}
    (placed : WellPlaced dtb)
    (block : structBlock dtb = forest.bytes ++ (be32 endToken ++ trailing)) :
    decode dtb = some (forest.content (stringsBlock dtb)) := by
  rw [decode, if_pos placed, block, decodeBlock_forest]

theorem structBlock_length {dtb : Bytes} (placed : WellPlaced dtb) :
    (structBlock dtb).length = (headerOf dtb).sizeDtStruct := by
  have := placed.struct_le
  have := placed.whole
  rw [structBlock, Bytes.slice_length_of_le (by omega)]
  omega

theorem stringsBlock_length {dtb : Bytes} (placed : WellPlaced dtb) :
    (stringsBlock dtb).length = (headerOf dtb).sizeDtStrings := by
  have := placed.strings_le
  have := placed.whole
  rw [stringsBlock, Bytes.slice_length_of_le (by omega)]
  omega

theorem structBlock_short {dtb : Bytes} (placed : WellPlaced dtb) :
    (structBlock dtb).length < 2 ^ 32 := by
  rw [structBlock_length placed]
  exact be32At_lt dtb 36

theorem stringsBlock_short {dtb : Bytes} (placed : WellPlaced dtb) :
    (stringsBlock dtb).length < 2 ^ 32 := by
  rw [stringsBlock_length placed]
  exact be32At_lt dtb 32

/-! ## Layout -/

/-- The words of a header, magic number first. -/
def Header.words (header : Header) : List Nat :=
  [fdtMagic, header.totalsize, header.offDtStruct, header.offDtStrings,
    header.offMemRsvmap, header.version, header.lastCompVersion,
    header.bootCpuidPhys, header.sizeDtStrings, header.sizeDtStruct]

/-- The header of the parts laid out one after another. -/
def Header.layout (header : Header) (reserveMap block strings : Bytes) :
    Header where
  totalsize := 40 + reserveMap.length + block.length + strings.length
  offDtStruct := 40 + reserveMap.length
  offDtStrings := 40 + reserveMap.length + block.length
  offMemRsvmap := 40
  version := header.version
  lastCompVersion := header.lastCompVersion
  bootCpuidPhys := header.bootCpuidPhys
  sizeDtStrings := strings.length
  sizeDtStruct := block.length

/-- The parts of a blob one after another, under their header. -/
def assemble (header : Header) (reserveMap block strings : Bytes) : Bytes :=
  (header.layout reserveMap block strings).words.flatMap be32 ++
    (reserveMap ++ (block ++ strings))

/-- Header words that fit 32 bits. -/
structure Header.Fits (header : Header) : Prop where
  version : header.version < 2 ^ 32
  lastCompVersion : header.lastCompVersion < 2 ^ 32
  bootCpuidPhys : header.bootCpuidPhys < 2 ^ 32

theorem headerOf_fits (dtb : Bytes) : (headerOf dtb).Fits :=
  ⟨be32At_lt _ _, be32At_lt _ _, be32At_lt _ _⟩

theorem be32At_words {words : List Nat} {tail : Bytes} {index value : Nat}
    (word : words[index]? = some value) (bound : value < 2 ^ 32) :
    be32At (words.flatMap be32 ++ tail) (4 * index) = value := by
  induction words generalizing index with
  | nil => simp at word
  | cons first rest induction =>
      cases index with
      | zero =>
          simp only [List.getElem?_cons_zero, Option.some.injEq] at word
          subst value
          rw [List.flatMap_cons, List.append_assoc]
          have front : (be32 first ++ (rest.flatMap be32 ++ tail)).drop 0 =
              be32 first ++ (rest.flatMap be32 ++ tail) := rfl
          exact At.be32At_eq front bound
      | succ index =>
          simp only [List.getElem?_cons_succ] at word
          have tailWord := induction word
          have after : ∀ offset, (be32 first ++ (rest.flatMap be32 ++ tail)).drop
              (4 + offset) = (rest.flatMap be32 ++ tail).drop offset := by
            intro offset
            rw [← List.drop_drop, List.drop_left' (Bytes.toBe_length 4 _)]
          rw [List.flatMap_cons, List.append_assoc,
            show 4 * (index + 1) = 4 + 4 * index by ring]
          rw [be32At, Bytes.slice, after, Nat.add_sub_cancel_left]
          rw [be32At, Bytes.slice, Nat.add_sub_cancel_left] at tailWord
          exact tailWord

theorem words_length (header : Header) :
    (header.words.flatMap be32).length = 40 := by
  simp [Header.words]

section

variable {header : Header} {reserveMap block strings : Bytes}

theorem assemble_length : (assemble header reserveMap block strings).length =
    40 + reserveMap.length + block.length + strings.length := by
  rw [assemble, List.length_append, words_length]
  simp
  omega

theorem headerOf_assemble (fits : header.Fits)
    (small : 40 + reserveMap.length + block.length + strings.length < 2 ^ 32) :
    headerOf (assemble header reserveMap block strings) =
      header.layout reserveMap block strings := by
  have word : ∀ index value,
      (header.layout reserveMap block strings).words[index]? = some value →
      value < 2 ^ 32 →
      be32At (assemble header reserveMap block strings) (4 * index) = value :=
    fun index value found bound => be32At_words found bound
  have w1 := word 1 _ rfl (by simp only [Header.layout]; omega)
  have w2 := word 2 _ rfl (by simp only [Header.layout]; omega)
  have w3 := word 3 _ rfl (by simp only [Header.layout]; omega)
  have w4 := word 4 _ rfl (by simp only [Header.layout]; omega)
  have w5 := word 5 _ rfl fits.version
  have w6 := word 6 _ rfl fits.lastCompVersion
  have w7 := word 7 _ rfl fits.bootCpuidPhys
  have w8 := word 8 _ rfl (by simp only [Header.layout]; omega)
  have w9 := word 9 _ rfl (by simp only [Header.layout]; omega)
  simp only [Nat.reduceMul] at w1 w2 w3 w4 w5 w6 w7 w8 w9
  simp only [headerOf, w1, w2, w3, w4, w5, w6, w7, w8, w9]

theorem be32At_assemble_magic :
    be32At (assemble header reserveMap block strings) 0 = fdtMagic := by
  have first : ((header.layout reserveMap block strings).words)[0]? =
      some fdtMagic := rfl
  exact be32At_words first (by decide)

theorem structBlock_assemble (fits : header.Fits)
    (small : 40 + reserveMap.length + block.length + strings.length < 2 ^ 32) :
    structBlock (assemble header reserveMap block strings) = block := by
  rw [structBlock, headerOf_assemble fits small, assemble, ← List.append_assoc]
  exact Bytes.slice_append (by
    simp only [Header.layout, List.length_append, words_length]) rfl

theorem stringsBlock_assemble (fits : header.Fits)
    (small : 40 + reserveMap.length + block.length + strings.length < 2 ^ 32) :
    stringsBlock (assemble header reserveMap block strings) = strings := by
  have regroup : assemble header reserveMap block strings =
      ((header.layout reserveMap block strings).words.flatMap be32 ++
        reserveMap ++ block) ++ (strings ++ []) := by
    simp [assemble]
  rw [stringsBlock, headerOf_assemble fits small, regroup]
  exact Bytes.slice_append (by
    simp only [Header.layout, List.length_append, words_length]) rfl

theorem wellPlaced_assemble (fits : header.Fits)
    (small : 40 + reserveMap.length + block.length + strings.length < 2 ^ 32) :
    WellPlaced (assemble header reserveMap block strings) := by
  have length : (assemble header reserveMap block strings).length = _ :=
    assemble_length
  constructor
  · exact be32At_assemble_magic
  all_goals
    rw [headerOf_assemble fits small]
    simp only [Header.layout]
    omega

/-- Decoding the layout of a forest gives its content. -/
theorem decode_assemble {forest : Forest} {trailing : Bytes}
    (fits : header.Fits)
    (same : block = forest.bytes ++ (be32 endToken ++ trailing))
    (small : 40 + reserveMap.length + block.length + strings.length < 2 ^ 32) :
    decode (assemble header reserveMap block strings) =
      some (forest.content strings) := by
  have decoded := decode_forest (wellPlaced_assemble fits small)
    ((structBlock_assemble fits small).trans same)
  rwa [stringsBlock_assemble fits small] at decoded

end

/-! ## Writing the header words in place -/

/-- Write words one after another from an offset on. -/
def writeWords : Nat → List Nat → Bytes → Bytes
  | _, [], output => output
  | start, word :: words, output =>
      writeWords (start + 4) words (Bytes.splice output start (be32 word))

theorem writeWords_zeros (words : List Nat) (front tail : Bytes) :
    writeWords front.length words
        (front ++ (List.replicate (4 * words.length) 0 ++ tail)) =
      front ++ (words.flatMap be32 ++ tail) := by
  induction words generalizing front with
  | nil => simp [writeWords]
  | cons word words induction =>
      have zeros : List.replicate (4 * (word :: words).length) (0 : UInt8) =
          List.replicate 4 0 ++ List.replicate (4 * words.length) 0 := by
        rw [List.replicate_append_replicate]
        congr 1
        simp only [List.length_cons]
        omega
      have written : Bytes.splice (front ++
          (List.replicate (4 * (word :: words).length) 0 ++ tail))
            front.length (be32 word) =
          (front ++ be32 word) ++
            (List.replicate (4 * words.length) 0 ++ tail) := by
        rw [zeros, Bytes.splice, List.take_left, ← List.drop_drop,
          List.drop_left, Bytes.toBe_length,
          List.append_assoc (List.replicate 4 0),
          List.drop_left' List.length_replicate]
      rw [writeWords, written]
      have step := induction (front ++ be32 word)
      rw [List.length_append, Bytes.toBe_length] at step
      rw [step]
      simp

end Pocketboot.DeviceTree
