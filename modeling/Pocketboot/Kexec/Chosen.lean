import Pocketboot.Kexec.Blocks
import Pocketboot.DeviceTree.Walk

/-!
# The command line in `/chosen`

`patch_chosen` copies a structure block token by token and rewrites the boot
properties of the root's `chosen` node, or adds such a node.
-/

namespace Pocketboot.Kexec

open DeviceTree

def propBootargs : Bytes := byteString "bootargs"
def propInitrdStart : Bytes := byteString "linux,initrd-start"
def propInitrdEnd : Bytes := byteString "linux,initrd-end"
def propBootedFromKexec : Bytes := byteString "linux,booted-from-kexec"
def nodeChosen : Bytes := byteString "chosen"

structure ChosenOffsets where
  bootargs : Nat
  initrdStart : Nat
  initrdEnd : Nat
  bootedFromKexec : Nat

def shouldReplaceChosenProp (name : Bytes) : Bool :=
  name = propBootargs || name = propInitrdStart || name = propInitrdEnd ||
    name = propBootedFromKexec

def isChosen : List Bytes → Bool
  | [[], name] => name = nodeChosen
  | _ => false

/-- The `bootargs` property, when there is a command line. -/
def appendBootargs (output : Bytes) (offsets : ChosenOffsets)
    (cmdline : Str) : Result Bytes :=
  if cmdline.bytes = [] then .ok output
  else do
    let _capacity ← addOrPanic wordSize cmdline.bytes.length 1
    return writeProp output offsets.bootargs (cmdline.bytes ++ [0])

/-- The two properties of the initrd, when there is one. -/
def appendInitrd (output : Bytes) (offsets : ChosenOffsets) :
    Option (Nat × Nat) → Bytes
  | some (start, stop) =>
      writeProp (writeProp output offsets.initrdStart (Bytes.toBe 8 start))
        offsets.initrdEnd (Bytes.toBe 8 stop)
  | none => output

def appendChosenProps (output : Bytes) (offsets : ChosenOffsets)
    (cmdline : Str) (initrd : Option (Nat × Nat)) : Result Bytes := do
  let output ← appendBootargs output offsets cmdline
  let output := appendInitrd output offsets initrd
  return writeProp output offsets.bootedFromKexec []

/-- `patch_structure_block` reads a property itself, with a plain addition. -/
def patchPropertyParts (data : Bytes) (cursor : Nat) : Result PropertyParts :=
  propertyPartsAt readBe32 (alignUsize · 4) (addOrPanic wordSize)
    (invalidData "DTB property length overflow")
    (invalidData "DTB property extends past structure block") data cursor

private theorem patchReadBe32_law {data : Bytes} {offset value : Nat}
    (bound : offset < 2 ^ 33) : readBe32 data offset = .ok value ↔
      offset + 4 ≤ data.length ∧ value = be32At data offset :=
  readBe32_eq_ok (by omega)

private theorem patchFindNul_law {data : Bytes} {start stop : Nat}
    (inside : start ≤ data.length) :
    findNul data start = .ok stop ↔ FirstNul data start stop :=
  findNulFrom_eq_ok inside

private theorem patchFindNul_returns {data : Bytes} {start : Nat}
    (inside : start ≤ data.length) : (findNul data start).Returns :=
  findNulFrom_returns inside

private theorem patchAlign_law {value : Nat} (bound : value < 2 ^ 33) :
    alignUsize value 4 = .ok (align4 value) :=
  alignUsize_four (by omega)

private theorem patchParts_law {data : Bytes} {cursor : Nat}
    {parts : PropertyParts} (bound : cursor < 2 ^ 33) :
    patchPropertyParts data cursor = .ok parts ↔
      cursor + 8 ≤ data.length ∧
        parts = ⟨be32At data (cursor + 4), cursor + 8,
          cursor + 8 + be32At data cursor,
          align4 (cursor + 8 + be32At data cursor)⟩ ∧
        align4 (cursor + 8 + be32At data cursor) ≤ data.length :=
  propertyPartsAt_eq_ok readBe32_eq_ok alignUsize_four plainPlus bound

private theorem patchParts_returns {data : Bytes} {cursor : Nat}
    (bound : cursor < 2 ^ 33) : (patchPropertyParts data cursor).Returns :=
  propertyPartsAt_returns readBe32_returns
    (fun _ => alignWord_returns _ _ _) plainPlus bound

def patchReader : BlockReader IoError where
  plus := addOrPanic wordSize
  readBe32 := readBe32
  findNul := findNul
  alignUp := (alignUsize · 4)
  propertyParts := patchPropertyParts
  unknownToken := unknownToken
  plus_eq := plainPlus
  readBe32_eq_ok := patchReadBe32_law
  readBe32_returns := fun _ => readBe32_returns _ _
  findNul_eq_ok := patchFindNul_law
  findNul_returns := patchFindNul_returns
  alignUp_eq := patchAlign_law
  propertyParts_eq_ok := patchParts_law
  propertyParts_returns := patchParts_returns

structure PatchState where
  output : Bytes
  stack : List Bytes
  sawRoot : Bool
  sawChosen : Bool

section

variable (structBlock strings : Bytes) (offsets : ChosenOffsets)
  (cmdline : Str) (initrd : Option (Nat × Nat))

/-- A `chosen` node at the end of the root, unless there was one. -/
def ensureChosen (state : PatchState) : Result PatchState :=
  if isRoot state.stack && !state.sawChosen then do
    let output := writeBeginNode state.output nodeChosen
    let output ← appendChosenProps output offsets cmdline initrd
    return { state with
      output := writeBe32 output endNodeToken, sawChosen := true }
  else .ok state

/-- The new properties in front of those of `chosen`. -/
def enterNode (state : PatchState) : Result PatchState :=
  if isChosen state.stack then do
    let output ← appendChosenProps state.output offsets cmdline initrd
    return { state with output, sawChosen := true }
  else .ok state

/-- The loop body of `patch_structure_block`. -/
def patchBody : Body IoError PatchState Bytes :=
  fun state tokenStart token next =>
    match token with
    | .beginNode name => do
        let output := writeBeginNode state.output name
        Run.ensure (state.stack = [] → name = [])
          (invalidData "DTB root node name is not empty")
        let sawRoot := state.sawRoot || state.stack.isEmpty
        let state ← enterNode offsets cmdline initrd
          ⟨output, state.stack ++ [name], sawRoot, state.sawChosen⟩
        return .more state next
    | .endNode => do
        let state ← ensureChosen offsets cmdline initrd state
        let output := writeBe32 state.output endNodeToken
        Run.ensure (state.stack ≠ [])
          (invalidData "DTB structure has too many END_NODE tokens")
        return .more { state with output, stack := state.stack.dropLast } next
    | .prop nameoff _ => do
        let propName := (stringAt strings nameoff).getD []
        if isChosen state.stack && shouldReplaceChosenProp propName then
          return .more state next
        else
          let copied ← sliceOrPanic structBlock tokenStart next
          return .more { state with output := state.output ++ copied } next
    | .nop => do
        let copied ← sliceOrPanic structBlock tokenStart next
        return .more { state with output := state.output ++ copied } next
    | .fin => do
        let output := writeBe32 state.output endToken
        Run.ensure (state.sawRoot = true)
          (invalidData "DTB structure has no root node")
        Run.ensure (state.stack = [])
          (invalidData "DTB structure ended before all nodes were closed")
        return .done output

def patchStructureBlock : Result Bytes := do
  let size ← addOrPanic wordSize structBlock.length cmdline.bytes.length
  let _capacity ← addOrPanic wordSize size 128
  loop patchReader structBlock
    (patchBody structBlock strings offsets cmdline initrd)
    ⟨[], [], false, false⟩ 0

end

/-- The structure and strings blocks with the new properties. -/
def patchedBlocks (dtb : Bytes) (header : Header) (cmdline : Str)
    (initrd : Option (Nat × Nat)) : Result (Bytes × Bytes) := do
  let structBlock ← checkedSlice dtb header.offDtStruct header.sizeDtStruct
    "DTB structure block"
  let strings ← checkedSlice dtb header.offDtStrings header.sizeDtStrings
    "DTB strings block"
  let (strings, bootargs) ← ensureString strings propBootargs
  let (strings, initrdStart) ← ensureString strings propInitrdStart
  let (strings, initrdEnd) ← ensureString strings propInitrdEnd
  let (strings, bootedFromKexec) ← ensureString strings propBootedFromKexec
  let offsets := { bootargs, initrdStart, initrdEnd, bootedFromKexec }
  let newStruct ← patchStructureBlock structBlock strings offsets cmdline initrd
  return (newStruct, strings)

def patchChosen (dtb : Bytes) (cmdline : Str) (initrd : Option (Nat × Nat)) :
    Result Bytes := do
  let header ← headerParse dtb
  let map ← reserveMap dtb header
  let (newStruct, strings) ← patchedBlocks dtb header cmdline initrd
  buildDtb header map newStruct strings

end Pocketboot.Kexec
