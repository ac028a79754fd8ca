import Pocketboot.Kexec.Blocks
import Pocketboot.DeviceTree.Walk
import Pocketboot.Base.Text

/-!
# Reserved memory ranges

`reserved_ranges` collects the ranges of the reserve map and those of the
enabled children of `/reserved-memory`.
-/

namespace Pocketboot.Kexec

open DeviceTree

def propAddressCells : Bytes := byteString "#address-cells"
def propSizeCells : Bytes := byteString "#size-cells"
def propReg : Bytes := byteString "reg"
def propStatus : Bytes := byteString "status"
def nodeReservedMemory : Bytes := byteString "reserved-memory"

/-- A `u32` sum. -/
def checkedAddU32 (left right : Nat) : Option Nat :=
  if left + right < 2 ^ 32 then some (left + right) else none

/-- `String::from_utf8_lossy`. -/
def lossyName (name : Bytes) : String := String.ofList (Text.ofUtf8Lossy name)

def propertyU32 (value name : Bytes) : Result Nat := do
  Run.ensure (value.length = 4)
    (invalidData s!"DTB property {lossyName name} is not one cell")
  return Bytes.ofBe value

/-- Without its last byte when that byte is zero. -/
def stripNul (value : Bytes) : Option Bytes :=
  if value.getLast? = some 0 then some value.dropLast else none

def propertyStatusEnabled (value : Bytes) : Bool :=
  let value := (stripNul value).getD value
  value = byteString "ok" || value = byteString "okay"

/-- `chunks_exact`: the whole pieces of a size. -/
def chunksExact (size : Nat) (data : Bytes) : List Bytes :=
  (List.range (data.length / size)).map fun index =>
    Bytes.slice data (index * size) (index * size + size)

/-- `value << 32 | cell` on a `u64`. -/
def decodeCells (cells : Bytes) : Nat :=
  (chunksExact 4 cells).foldl
    (fun value cell => value * 2 ^ 32 % 2 ^ 64 + Bytes.ofBe cell) 0

/-- One tuple of a `reg` property; an empty range is no range. -/
def decodeTuple (addressCells : Nat) (tuple : Bytes) :
    Result (Option (Nat × Nat)) := do
  let addressBytes ← mulOrPanic wordSize addressCells 4
  let address := decodeCells (← sliceOrPanic tuple 0 addressBytes)
  let size := decodeCells (← sliceOrPanic tuple addressBytes tuple.length)
  if size = 0 then return none
  else
    let stop ← Run.ofOption
      (invalidData "reserved-memory reg range overflows u64")
      (checkedAdd address size)
    return some (address, stop)

def decodeRegRanges (reg : Bytes) (addressCells sizeCells : Nat) :
    Result (List (Nat × Nat)) := do
  let tupleCells ← Run.ofOption
    (invalidData "reserved-memory reg cell count overflow")
    (checkedAddU32 addressCells sizeCells)
  Run.ensure ((1 ≤ addressCells ∧ addressCells ≤ 2) ∧
      (1 ≤ sizeCells ∧ sizeCells ≤ 2)) (invalidData
    s!"unsupported reserved-memory reg format: #address-cells={addressCells}, #size-cells={sizeCells}")
  let tupleBytes ← Run.ofOption
    (invalidData "reserved-memory reg tuple size overflow")
    (checkedMul tupleCells 4)
  Run.ensure (reg.length % tupleBytes = 0)
    (invalidData "reserved-memory reg property has a partial tuple")
  let ranges ← (chunksExact tupleBytes reg).mapM (decodeTuple addressCells)
  return ranges.filterMap id

def isReservedMemory : List Bytes → Bool
  | [[], name] => name = nodeReservedMemory
  | _ => false

def isReservedMemoryChild : List Bytes → Bool
  | [[], name, _] => name = nodeReservedMemory
  | _ => false

structure ReservedChild where
  enabled : Bool
  reg : Option Bytes

structure ReservedState where
  stack : List Bytes
  rootAddressCells : Nat
  rootSizeCells : Nat
  reservedAddressCells : Option Nat
  reservedSizeCells : Option Nat
  child : Option ReservedChild
  ranges : List (Nat × Nat)

/-- A property of the root. -/
def rootProp (state : ReservedState) (name value : Bytes) :
    Result ReservedState := do
  if name = propAddressCells then
    return { state with rootAddressCells := ← propertyU32 value name }
  else if name = propSizeCells then
    return { state with rootSizeCells := ← propertyU32 value name }
  else return state

/-- A property of `/reserved-memory`. -/
def reservedProp (state : ReservedState) (name value : Bytes) :
    Result ReservedState := do
  if name = propAddressCells then
    return { state with
      reservedAddressCells := some (← propertyU32 value name) }
  else if name = propSizeCells then
    return { state with reservedSizeCells := some (← propertyU32 value name) }
  else return state

/-- A property of a child of `/reserved-memory`. -/
def reservedChildProp (state : ReservedState) (name value : Bytes) :
    Result ReservedState := do
  let child ← Run.ofOption (invalidData "missing reserved-memory child state")
    state.child
  if name = propReg then
    return { state with child := some { child with reg := some value } }
  else if name = propStatus then
    return { state with
      child := some { child with enabled := propertyStatusEnabled value } }
  else return state

/-- The end of a child of `/reserved-memory`. -/
def closeReservedChild (state : ReservedState) : Result ReservedState := do
  let child ← Run.ofOption (invalidData "missing reserved-memory child state")
    state.child
  let state := { state with child := none }
  match child.enabled, child.reg with
  | true, some reg =>
      let addressCells :=
        state.reservedAddressCells.getD state.rootAddressCells
      let sizeCells := state.reservedSizeCells.getD state.rootSizeCells
      let ranges ← decodeRegRanges reg addressCells sizeCells
      return { state with ranges := state.ranges ++ ranges }
  | _, _ => return state

/-- What the loop does with a property, by where it stands. -/
def storeProp (state : ReservedState) (name value : Bytes) :
    Result ReservedState :=
  if isRoot state.stack then rootProp state name value
  else if isReservedMemory state.stack then reservedProp state name value
  else if isReservedMemoryChild state.stack then
    reservedChildProp state name value
  else .ok state

/-- What the loop does with the end of a node before it leaves the node. -/
def closeNode (state : ReservedState) : Result ReservedState :=
  if isReservedMemoryChild state.stack then closeReservedChild state
  else .ok state

/-- The loop body of `reserved_memory_node_ranges`. -/
def reservedBody (strings : Bytes) :
    Body IoError ReservedState (List (Nat × Nat)) :=
  fun state _ token next =>
    match token with
    | .beginNode name => do
        let stack := state.stack ++ [name]
        let child :=
          if isReservedMemoryChild stack then some ⟨true, none⟩
          else state.child
        return .more { state with stack, child } next
    | .endNode => do
        let state ← closeNode state
        Run.ensure (state.stack ≠ [])
          (invalidData "DTB structure has too many END_NODE tokens")
        return .more { state with stack := state.stack.dropLast } next
    | .prop nameoff value => do
        let name ← Run.ofOption
          (invalidData s!"DTB property name offset {nameoff} is out of range")
          (stringAt strings nameoff)
        let state ← storeProp state name value
        return .more state next
    | .nop => return .more state next
    | .fin => do
        Run.ensure (state.stack = [])
          (invalidData "DTB structure ended before all nodes were closed")
        return .done state.ranges

def reservedMemoryNodeRanges (structBlock strings : Bytes) :
    Result (List (Nat × Nat)) :=
  loop blockReader structBlock (reservedBody strings)
    ⟨[], 2, 1, none, none, none, []⟩ 0

def reservedRanges (dtb : Bytes) : Result (List (Nat × Nat)) := do
  let header ← headerParse dtb
  let ranges ← reserveMapRanges dtb header
  let structBlock ← checkedSlice dtb header.offDtStruct header.sizeDtStruct
    "DTB structure block"
  let strings ← checkedSlice dtb header.offDtStrings header.sizeDtStrings
    "DTB strings block"
  return ranges ++ (← reservedMemoryNodeRanges structBlock strings)

end Pocketboot.Kexec
