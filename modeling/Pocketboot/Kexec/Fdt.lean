import Pocketboot.DeviceTree.Reserve
import Pocketboot.DeviceTree.Reader

/-!
# The loader's readers and writers of device trees

The helper functions the kexec loader rewrites device trees with: checked
readers of the header, the reserve map and the two blocks, and writers that
lay a new blob out.
-/

namespace Pocketboot.Kexec

open DeviceTree

/-- `io::Result`. -/
abbrev Result (α : Type) : Type := Run IoError α

/-- `invalid_data`. -/
def invalid {α : Type} (message : String) : Result α :=
  Run.fail (invalidData message)

def readBe32 (data : Bytes) (offset : Nat) : Result Nat :=
  readWord (invalidData "u32 offset overflow")
    (invalidData "unexpected end of data while reading u32") data offset

def findNul (data : Bytes) (start : Nat) : Result Nat :=
  findNulFrom .panic (invalidData "unterminated DTB node name") data start

def alignUsize (value align : Nat) : Result Nat :=
  alignWord (invalidData "DTB alignment overflow") value align

def propertyParts (data : Bytes) (cursor : Nat) : Result PropertyParts :=
  propertyPartsAt readBe32 (alignUsize · 4)
    (fun left right => Run.ofOption
      (invalidData "DTB property value offset overflow")
      (checkedAdd left right))
    (invalidData "DTB property length overflow")
    (invalidData "DTB property extends past structure block") data cursor

def unknownToken (token : Nat) : IoError :=
  invalidData s!"DTB has unknown structure token {token}"

theorem alignUsize_four {value : Nat} (bound : value < 2 ^ 34) :
    alignUsize value 4 = .ok (align4 value) := alignWord_four bound

theorem readBe32_eq_ok {data : Bytes} {offset value : Nat}
    (bound : offset < 2 ^ 33 + 4) : readBe32 data offset = .ok value ↔
      offset + 4 ≤ data.length ∧ value = be32At data offset :=
  readWord_eq_ok (by omega)

theorem checkedPlus {left right : Nat} (error : IoError)
    (bound : left + right < 2 ^ 34) :
    Run.ofOption error (checkedAdd left right) = .ok (left + right) := by
  rw [Run.ofOption_eq_ok, checkedAdd_eq_some]
  exact ⟨by unfold wordSize; omega, rfl⟩

theorem plainPlus {left right : Nat} (bound : left + right < 2 ^ 34) :
    (addOrPanic wordSize left right : Result Nat) = .ok (left + right) :=
  addOrPanic_of (by unfold wordSize; omega)

/-- The readers every loop but that of `patch_chosen` uses. -/
def blockReader : BlockReader IoError where
  plus := addOrPanic wordSize
  readBe32 := readBe32
  findNul := findNul
  alignUp := (alignUsize · 4)
  propertyParts := propertyParts
  unknownToken := unknownToken
  plus_eq := plainPlus
  readBe32_eq_ok := fun bound => readBe32_eq_ok (by omega)
  readBe32_returns := fun _ => readWord_returns _ _ _ _
  findNul_eq_ok := findNulFrom_eq_ok
  findNul_returns := findNulFrom_returns
  alignUp_eq := fun bound => alignUsize_four (by omega)
  propertyParts_eq_ok := fun bound =>
    propertyPartsAt_eq_ok readBe32_eq_ok alignUsize_four (checkedPlus _) bound
  propertyParts_returns := fun bound =>
    propertyPartsAt_returns (fun _ _ => readWord_returns _ _ _ _)
      (fun _ => alignWord_returns _ _ _) (checkedPlus _) bound

def checkedSlice (data : Bytes) (offset size : Nat) (name : String) :
    Result Bytes := do
  let stop ← Run.ofOption (invalidData s!"{name} range overflow")
    (checkedAdd offset size)
  Run.ensure (stop ≤ data.length)
    (invalidData s!"{name} extends past DTB payload")
  sliceOrPanic data offset stop

def stringAt (strings : Bytes) (offset : Nat) : Option Bytes :=
  lookupString strings offset

/-- `is_root`; a stack holds the names of the open nodes, the root's first. -/
def isRoot : List Bytes → Bool
  | [[]] => true
  | _ => false

/-- `Header::parse`. -/
def headerParse (dtb : Bytes) : Result Header := do
  Run.ensure (40 ≤ dtb.length) (invalidData "DTB is smaller than its header")
  let magic ← readBe32 dtb 0
  Run.ensure (magic = fdtMagic) (invalidData "DTB has invalid magic")
  let totalsize ← readBe32 dtb 4
  let offDtStruct ← readBe32 dtb 8
  let offDtStrings ← readBe32 dtb 12
  let offMemRsvmap ← readBe32 dtb 16
  let version ← readBe32 dtb 20
  let lastCompVersion ← readBe32 dtb 24
  let bootCpuidPhys ← readBe32 dtb 28
  let sizeDtStrings ← readBe32 dtb 32
  let sizeDtStruct ← readBe32 dtb 36
  Run.ensure (40 ≤ totalsize ∧ totalsize ≤ dtb.length) (invalidData
    "DTB totalsize is smaller than its header or exceeds payload size")
  let dtb ← sliceOrPanic dtb 0 totalsize
  let _ ← checkedSlice dtb offDtStruct sizeDtStruct "DTB structure block"
  let _ ← checkedSlice dtb offDtStrings sizeDtStrings "DTB strings block"
  Run.ensure (offMemRsvmap < totalsize)
    (invalidData "DTB reserve map offset is out of range")
  return { totalsize, offDtStruct, offDtStrings, offMemRsvmap, version,
           lastCompVersion, bootCpuidPhys, sizeDtStrings, sizeDtStruct }

/-- Whether another entry of the reserve map starts at the cursor. -/
def entryInside (header : Header) (cursor : Nat) : Bool :=
  (checkedAdd cursor 16).any (· ≤ header.totalsize)

/-- The loop of `reserve_map`. -/
def reserveMapFrom (dtb : Bytes) (header : Header) :
    Nat → Nat → Bytes → Result Bytes
  | 0, _, _ => .error .outOfFuel
  | fuel + 1, cursor, reserveMap => do
      Run.ensure (entryInside header cursor)
        (invalidData "DTB reserve map is unterminated")
      let entry ← sliceOrPanic dtb cursor (← addOrPanic wordSize cursor 16)
      let reserveMap := reserveMap ++ entry
      let address := Bytes.ofBe (← sliceOrPanic entry 0 8)
      let size := Bytes.ofBe (← sliceOrPanic entry 8 16)
      let cursor ← addOrPanic wordSize cursor 16
      if address = 0 ∧ size = 0 then return reserveMap
      else reserveMapFrom dtb header fuel cursor reserveMap

def reserveMap (dtb : Bytes) (header : Header) : Result Bytes :=
  reserveMapFrom dtb header (dtb.length + 1) header.offMemRsvmap []

/-- The loop of `reserve_map_ranges`. -/
def reserveMapRangesFrom (dtb : Bytes) (header : Header) :
    Nat → Nat → List (Nat × Nat) → Result (List (Nat × Nat))
  | 0, _, _ => .error .outOfFuel
  | fuel + 1, cursor, ranges => do
      Run.ensure (entryInside header cursor)
        (invalidData "DTB reserve map is unterminated")
      let middle ← addOrPanic wordSize cursor 8
      let address := Bytes.ofBe (← sliceOrPanic dtb cursor middle)
      let stop ← addOrPanic wordSize cursor 16
      let size := Bytes.ofBe (← sliceOrPanic dtb middle stop)
      let cursor ← addOrPanic wordSize cursor 16
      if address = 0 ∧ size = 0 then return ranges
      else if size = 0 then reserveMapRangesFrom dtb header fuel cursor ranges
      else
        let stop ← Run.ofOption
          (invalidData "DTB reserve map range overflows u64")
          (checkedAdd address size)
        reserveMapRangesFrom dtb header fuel cursor (ranges ++ [(address, stop)])

def reserveMapRanges (dtb : Bytes) (header : Header) :
    Result (List (Nat × Nat)) :=
  reserveMapRangesFrom dtb header (dtb.length + 1) header.offMemRsvmap []

def totalsizeU32 (value : Nat) (name : String) : Result Nat := do
  Run.ensure (value < 2 ^ 32) (invalidData s!"{name} does not fit u32")
  return value

/-- `ensure_string`: the strings block afterwards and the offset. -/
def ensureString (strings name : Bytes) : Result (Bytes × Nat) := do
  match ← findString strings name with
  | some cursor =>
      let offset ← totalsizeU32 cursor "DTB string offset"
      return (strings, offset)
  | none =>
      let offset ← totalsizeU32 strings.length "DTB string offset"
      return (strings ++ (name ++ [0]), offset)

/-- `pad_to`, on a vector: its length is far below the end of a word. -/
def padTo (output : Bytes) (align : Nat) : Bytes :=
  output ++ List.replicate
    ((output.length + align - 1) / align * align - output.length) 0

def writeBe32 (output : Bytes) (value : Nat) : Bytes := output ++ be32 value

def writeBeginNode (output name : Bytes) : Bytes :=
  padTo (writeBe32 output beginNodeToken ++ name ++ [0]) 4

def writeProp (output : Bytes) (nameoff : Nat) (value : Bytes) : Bytes :=
  padTo (writeBe32 (writeBe32 (writeBe32 output propToken)
    (value.length % 2 ^ 32)) nameoff ++ value) 4

def writeBe32At (output : Bytes) (offset value : Nat) : Result Bytes := do
  let stop ← Run.ofOption (invalidData "u32 write offset overflow")
    (checkedAdd offset 4)
  Run.ensure (stop ≤ output.length)
    (invalidData "unexpected end of data while writing u32")
  return Bytes.splice output offset (be32 value)

def buildDtb (oldHeader : Header) (reserveMap structBlock strings : Bytes) :
    Result Bytes := do
  let output := padTo (List.replicate 40 0 ++ reserveMap) 4
  let offDtStruct := output.length
  let output := output ++ structBlock
  let sizeDtStruct := structBlock.length
  let offDtStrings := output.length
  let output := output ++ strings
  let totalsize := output.length
  let output ← writeBe32At output 0 fdtMagic
  let output ← writeBe32At output 4 (← totalsizeU32 totalsize "DTB totalsize")
  let output ← writeBe32At output 8
    (← totalsizeU32 offDtStruct "DTB structure offset")
  let output ← writeBe32At output 12
    (← totalsizeU32 offDtStrings "DTB strings offset")
  let output ← writeBe32At output 16 40
  let output ← writeBe32At output 20 oldHeader.version
  let output ← writeBe32At output 24 oldHeader.lastCompVersion
  let output ← writeBe32At output 28 oldHeader.bootCpuidPhys
  let output ← writeBe32At output 32
    (← totalsizeU32 strings.length "DTB strings size")
  writeBe32At output 36 (← totalsizeU32 sizeDtStruct "DTB structure size")

end Pocketboot.Kexec
