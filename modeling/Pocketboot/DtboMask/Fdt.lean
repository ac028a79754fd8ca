import Pocketboot.Base.Checked
import Pocketboot.Base.OrderedMap
import Pocketboot.Base.Text
import Pocketboot.DeviceTree.Grammar

/-!
# The device tree parser of the kernel build

`parse_fdt` reads a device tree blob into the set of the paths of its nodes and
the map of its properties, by the path of the node and the name.
-/

namespace Pocketboot.DtboMask

open DeviceTree

structure FdtContents where
  nodes : OrderedSet Text
  properties : OrderedMap (Text ×ₗ Text) Bytes

/-- `Utf8Error` as text, for the bytes from an index on. -/
def utf8ErrorFrom : Nat → Nat → Bytes → String
  | 0, _, _ => ""
  | _, _, [] => ""
  | fuel + 1, index, first :: rest =>
      if first.toNat < 0x80 then utf8ErrorFrom fuel (index + 1) rest
      else
        match Text.utf8Tail first.toNat with
        | none => s!"invalid utf-8 sequence of 1 bytes from index {index}"
        | some (count, low, high) =>
            let tail := Text.continuation low high count rest
            if tail.length = count then
              utf8ErrorFrom fuel (index + 1 + count) (rest.drop count)
            else if tail.length = rest.length then
              s!"incomplete utf-8 byte sequence from index {index}"
            else
              s!"invalid utf-8 sequence of {tail.length + 1} bytes " ++
                s!"from index {index}"

def utf8Error (bytes : Bytes) : String :=
  utf8ErrorFrom bytes.length 0 bytes

def fdtU32 (bytes : Bytes) (offset : Nat) : Run String Nat := do
  let stop ← Run.ofOption s!"FDT u32 at offset {offset} is out of bounds"
    ((checkedAdd offset 4).filter (· ≤ bytes.length))
  return Bytes.ofBe (← sliceOrPanic bytes offset stop)

def fdtUsize (bytes : Bytes) (offset : Nat) : Run String Nat := do
  let value ← fdtU32 bytes offset
  Run.ensure (value < wordSize)
    s!"FDT u32 at offset {offset} does not fit usize"
  return value

/-- The string at an offset and the place after its terminator. -/
def fdtCStringAt (bytes : Bytes) (offset stop : Nat) :
    Run String (Text × Nat) := do
  Run.ensure (¬(stop ≤ offset ∨ bytes.length < stop))
    s!"FDT string offset {offset} is out of bounds"
  let relativeEnd ← Run.ofOption
    s!"unterminated FDT string at offset {offset}"
    (nulPosition (← sliceOrPanic bytes offset stop))
  let stringEnd := offset + relativeEnd
  let text ← sliceOrPanic bytes offset stringEnd
  let value ← Run.ofOption
    s!"FDT string at offset {offset} is not UTF-8: {utf8Error text}"
    (Text.ofUtf8 text)
  return (value, stringEnd + 1)

def fdtString (value : Bytes) : Run String Text := do
  let (text, next) ← fdtCStringAt value 0 value.length
  Run.ensure (next = value.length)
    "value is not exactly one NUL-terminated string"
  return text

def alignFdt (value : Nat) : Run String Nat :=
  Run.ofOption "FDT alignment overflow"
    ((checkedAdd value 3).map (maskDown · 4))

/-- The variables of the loop; the innermost open node is first in the
stack. -/
structure Parse where
  cursor : Nat
  stack : List Text
  nodes : OrderedSet Text
  properties : OrderedMap (Text ×ₗ Text) Bytes

/-- The path of a node that begins inside of the node of a path. -/
def nodePath : Option Text → Text → Run String Text
  | none, name => do
      Run.ensure (name = []) "FDT root node has a non-empty name"
      return ['/']
  | some parent, name => do
      Run.ensure (name ≠ [])
        s!"empty child node name under {String.ofList parent}"
      return if parent = ['/'] then '/' :: name else parent ++ '/' :: name

/-- `FDT_BEGIN_NODE`. -/
def beginNode (bytes : Bytes) (extents : Extents) (state : Parse) :
    Run String Parse := do
  let (name, next) ← fdtCStringAt bytes state.cursor extents.structEnd
  let cursor ← alignFdt next
  Run.ensure (cursor ≤ extents.structEnd)
    "FDT node name padding is out of bounds"
  let path ← nodePath state.stack.head? name
  Run.ensure (state.nodes.get path = none)
    s!"duplicate FDT node path {String.ofList path}"
  return { state with
    cursor
    stack := path :: state.stack
    nodes := state.nodes.insert path () }

/-- `FDT_END_NODE`. -/
def endNode (state : Parse) : Run String Parse := do
  Run.ensure (state.stack ≠ []) "unmatched FDT_END_NODE"
  return { state with stack := state.stack.tail }

/-- `FDT_PROP`. -/
def property (bytes : Bytes) (extents : Extents) (state : Parse) :
    Run String Parse := do
  let valueLen ← fdtUsize bytes state.cursor
  let nameOffset ← fdtUsize bytes (← addOrPanic wordSize state.cursor 4)
  let cursor ← addOrPanic wordSize state.cursor 8
  let valueEnd ← Run.ofOption "FDT property value is out of bounds"
    ((checkedAdd cursor valueLen).filter (· ≤ extents.structEnd))
  let value ← sliceOrPanic bytes cursor valueEnd
  let cursor ← alignFdt valueEnd
  Run.ensure (cursor ≤ extents.structEnd)
    "FDT property padding is out of bounds"
  let nameStart ← Run.ofOption "FDT property name offset is out of bounds"
    ((checkedAdd extents.stringsStart nameOffset).filter
      (· < extents.stringsEnd))
  let (name, _) ← fdtCStringAt bytes nameStart extents.stringsEnd
  let path ← Run.ofOption "FDT property appears outside a node"
    state.stack.head?
  Run.ensure (state.properties.get (toLex (path, name)) = none)
    s!"duplicate FDT property {String.ofList path}/{String.ofList name}"
  return { state with
    cursor
    properties := state.properties.insert (toLex (path, name)) value }

/-- The body of the loop; there is no state after `FDT_END`. -/
def parseToken (bytes : Bytes) (extents : Extents) (state : Parse) :
    Run String (Option Parse) := do
  let token ← fdtU32 bytes state.cursor
  let state := { state with cursor := ← addOrPanic wordSize state.cursor 4 }
  if token = beginNodeToken then return some (← beginNode bytes extents state)
  else if token = endNodeToken then return some (← endNode state)
  else if token = propToken then return some (← property bytes extents state)
  else if token = nopToken then return some state
  else if token = endToken then
    Run.ensure (state.stack = [])
      "FDT_END encountered before all nodes closed"
    return none
  else Run.fail s!"unknown FDT structure token {token}"

/-- The loop; every token moves the cursor on. -/
def parseTokens (bytes : Bytes) (extents : Extents) :
    Nat → Parse → Run String FdtContents
  | 0, _ => .error .outOfFuel
  | fuel + 1, state =>
      if state.cursor < extents.structEnd then do
        match ← parseToken bytes extents state with
        | some state => parseTokens bytes extents fuel state
        | none => return ⟨state.nodes, state.properties⟩
      else Run.fail "FDT structure is missing FDT_END"

/-- The checks of the header. -/
def fdtExtents (bytes : Bytes) : Run String Extents := do
  Run.ensure (¬bytes.length < 40)
    s!"header is truncated: {bytes.length} bytes"
  Run.ensure ((← fdtU32 bytes 0) = fdtMagic) "bad FDT magic"
  let totalSize ← fdtUsize bytes 4
  Run.ensure (¬bytes.length < totalSize)
    s!"declared size {totalSize} exceeds file size {bytes.length}"
  let structureOffset ← fdtUsize bytes 8
  let stringsOffset ← fdtUsize bytes 12
  let stringsSize ← fdtUsize bytes 32
  let structureSize ← fdtUsize bytes 36
  let structureEnd ← Run.ofOption "FDT structure block is out of bounds"
    ((checkedAdd structureOffset structureSize).filter (· ≤ totalSize))
  let stringsEnd ← Run.ofOption "FDT strings block is out of bounds"
    ((checkedAdd stringsOffset stringsSize).filter (· ≤ totalSize))
  return ⟨structureOffset, structureEnd, stringsOffset, stringsEnd⟩

def parseFdt (bytes : Bytes) : Run String FdtContents := do
  let extents ← fdtExtents bytes
  parseTokens bytes extents (bytes.length + 1)
    ⟨extents.structStart, [], .empty, .empty⟩

end Pocketboot.DtboMask
