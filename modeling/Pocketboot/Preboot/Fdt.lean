import Pocketboot.DeviceTree.Blob
import Pocketboot.DeviceTree.Reader

/-!
# The preboot reader of device trees

Preboot reads the device tree of the firmware in place: it checks the header,
and finds nodes by path and by phandle.  A node is the offset of its token.
-/

namespace Pocketboot.Preboot

open DeviceTree

inductive Error where
  | badMagic
  | badOffset
  | badToken
  | badValue
  | bufferTooSmall
  | notFound
  | tooDeep
  | unterminated
  deriving DecidableEq, Repr

abbrev Result (α : Type) : Type := Run Error α

def headerSize : Nat := 40
def maxDepth : Nat := 32

/-- `result.ok()`; panics stay panics. -/
def okOf {α : Type} : Result α → Result (Option α)
  | .ok item => .ok (some item)
  | .error (.error _) => .ok none
  | .error .panic => .error .panic
  | .error .outOfFuel => .error .outOfFuel

/-- `first.or_else(|_| second)`. -/
def orElse {α : Type} (first second : Result α) : Result α := do
  match ← okOf first with
  | some item => return item
  | none => second

/-! ## Primitive readers -/

def readBe32 (data : Bytes) (offset : Nat) : Result Nat :=
  readWord .badOffset .badOffset data offset

def findNul (data : Bytes) (start : Nat) : Result Nat :=
  findNulFrom (.error .badOffset) .unterminated data start

/-- `align_usize`, with a power of two. -/
def alignUsize (value align : Nat) : Result Nat :=
  alignWord .badOffset value align

def checkedPlus (left right : Nat) : Result Nat :=
  Run.ofOption .badOffset (checkedAdd left right)

def propertyParts (block : Bytes) (cursor : Nat) : Result PropertyParts :=
  propertyPartsAt readBe32 (alignUsize · 4) checkedPlus .badOffset .badOffset
    block cursor

def stringAt (strings : Bytes) (offset : Nat) : Option Bytes :=
  lookupString strings offset

def checkedSlice (data : Bytes) (offset size : Nat) : Result Bytes := do
  let stop ← Run.ofOption .badOffset (checkedAdd offset size)
  Run.ensure (stop ≤ data.length) .badOffset
  sliceOrPanic data offset stop

theorem checkedPlus_eq {left right : Nat} (bound : left + right < 2 ^ 34) :
    checkedPlus left right = .ok (left + right) := by
  rw [checkedPlus, Run.ofOption_eq_ok, checkedAdd_eq_some]
  exact ⟨by unfold wordSize; omega, rfl⟩

theorem readBe32_eq_ok {data : Bytes} {offset value : Nat}
    (bound : offset < 2 ^ 33 + 4) : readBe32 data offset = .ok value ↔
      offset + 4 ≤ data.length ∧ value = be32At data offset :=
  readWord_eq_ok (by omega)

theorem alignUsize_four {value : Nat} (bound : value < 2 ^ 34) :
    alignUsize value 4 = .ok (align4 value) := alignWord_four bound

private theorem readBe32_law {data : Bytes} {offset value : Nat}
    (bound : offset < 2 ^ 33) : readBe32 data offset = .ok value ↔
      offset + 4 ≤ data.length ∧ value = be32At data offset :=
  readBe32_eq_ok (by omega)

private theorem findNul_law {data : Bytes} {start stop : Nat}
    (inside : start ≤ data.length) :
    findNul data start = .ok stop ↔ FirstNul data start stop :=
  findNulFrom_eq_ok inside

private theorem findNul_returns {data : Bytes} {start : Nat}
    (inside : start ≤ data.length) : (findNul data start).Returns :=
  findNulFrom_returns inside

private theorem alignUsize_law {value : Nat} (bound : value < 2 ^ 33) :
    alignUsize value 4 = .ok (align4 value) :=
  alignUsize_four (by omega)

private theorem propertyParts_law {data : Bytes} {cursor : Nat}
    {parts : PropertyParts} (bound : cursor < 2 ^ 33) :
    propertyParts data cursor = .ok parts ↔
      cursor + 8 ≤ data.length ∧
        parts = ⟨be32At data (cursor + 4), cursor + 8,
          cursor + 8 + be32At data cursor,
          align4 (cursor + 8 + be32At data cursor)⟩ ∧
        align4 (cursor + 8 + be32At data cursor) ≤ data.length :=
  propertyPartsAt_eq_ok readBe32_eq_ok alignUsize_four checkedPlus_eq bound

private theorem propertyParts_returns {data : Bytes} {cursor : Nat}
    (bound : cursor < 2 ^ 33) : (propertyParts data cursor).Returns :=
  propertyPartsAt_returns (fun _ _ => readWord_returns _ _ _ _)
    (fun _ => alignWord_returns _ _ _) checkedPlus_eq bound

def blockReader : BlockReader Error where
  plus := checkedPlus
  readBe32 := readBe32
  findNul := findNul
  alignUp := (alignUsize · 4)
  propertyParts := propertyParts
  unknownToken _ := .badToken
  plus_eq := checkedPlus_eq
  readBe32_eq_ok := readBe32_law
  readBe32_returns := fun _ => readWord_returns _ _ _ _
  findNul_eq_ok := findNul_law
  findNul_returns := findNul_returns
  alignUp_eq := alignUsize_law
  propertyParts_eq_ok := propertyParts_law
  propertyParts_returns := propertyParts_returns

/-! ## Headers -/

/-- `Header::parse`. -/
def headerParse (data : Bytes) : Result Header := do
  Run.ensure (headerSize ≤ data.length) .badOffset
  let magic ← readBe32 data 0
  Run.ensure (magic = fdtMagic) .badMagic
  let totalsize ← readBe32 data 4
  let offDtStruct ← readBe32 data 8
  let offDtStrings ← readBe32 data 12
  let offMemRsvmap ← readBe32 data 16
  let version ← readBe32 data 20
  let lastCompVersion ← readBe32 data 24
  let bootCpuidPhys ← readBe32 data 28
  let sizeDtStrings ← readBe32 data 32
  let sizeDtStruct ← readBe32 data 36
  Run.ensure (headerSize ≤ totalsize ∧ totalsize ≤ data.length) .badOffset
  let data ← sliceOrPanic data 0 totalsize
  let _ ← checkedSlice data offDtStruct sizeDtStruct
  let _ ← checkedSlice data offDtStrings sizeDtStrings
  Run.ensure (17 ≤ version ∧ lastCompVersion ≤ 17 ∧
    headerSize ≤ offDtStruct ∧ offDtStruct % 4 = 0 ∧
    headerSize ≤ offDtStrings ∧ headerSize ≤ offMemRsvmap ∧
    offMemRsvmap % 8 = 0 ∧ offMemRsvmap < totalsize) .badOffset
  return { totalsize, offDtStruct, offDtStrings, offMemRsvmap, version,
           lastCompVersion, bootCpuidPhys, sizeDtStrings, sizeDtStruct }

structure Reader where
  data : Bytes
  header : Header
  deriving DecidableEq, Repr

structure Node where
  offset : Nat
  deriving DecidableEq, Repr

structure NodeProp where
  name : Bytes
  value : Bytes
  deriving DecidableEq, Repr

/-- A place in the content of a node, where `Subnodes` and `Props` go on. -/
structure Iter where
  cursor : Nat
  done : Bool
  deriving DecidableEq, Repr

/-! ## Nodes and their parts -/

def nodeContentStart (block : Bytes) (nodeOffset : Nat) : Result Nat := do
  let token ← readBe32 block nodeOffset
  Run.ensure (token = beginNodeToken) .badToken
  let nameStart ← checkedPlus nodeOffset 4
  let nameEnd ← findNul block nameStart
  alignUsize (← checkedPlus nameEnd 1) 4

/-- The loop body of `skip_node_subtree`. -/
def skipBody : Body Error Nat Nat := fun depth _ token next =>
  match token with
  | .beginNode _ => return .more (← checkedPlus depth 1) next
  | .endNode => do
      Run.ensure (depth ≠ 0) .badToken
      let depth := depth - 1
      if depth = 0 then return .done next else return .more depth next
  | .prop _ _ => return .more depth next
  | .nop => return .more depth next
  | .fin => Run.fail .unterminated

def skipNodeSubtree (block : Bytes) (start : Nat) : Result Nat :=
  loop blockReader block skipBody 0 start

/-- The loop of `Subnodes::next`. -/
def nextNode (block : Bytes) : Nat → Nat → Result (Option Node × Iter)
  | 0, _ => .error .outOfFuel
  | fuel + 1, tokenStart => do
      let token ← readBe32 block tokenStart
      let cursor ← addOrPanic wordSize tokenStart 4
      if token = beginNodeToken then
        let next ← skipNodeSubtree block tokenStart
        return (some ⟨tokenStart⟩, ⟨next, false⟩)
      else if token = endNodeToken ∨ token = endToken then
        return (none, ⟨cursor, true⟩)
      else if token = propToken then
        let parts ← propertyParts block cursor
        nextNode block fuel parts.next
      else if token = nopToken then nextNode block fuel cursor
      else Run.fail .badToken

/-- The loop of `Props::next`. -/
def nextProp (block strings : Bytes) :
    Nat → Nat → Result (Option NodeProp × Iter)
  | 0, _ => .error .outOfFuel
  | fuel + 1, tokenStart => do
      let token ← readBe32 block tokenStart
      let cursor ← addOrPanic wordSize tokenStart 4
      if token = propToken then
        let parts ← propertyParts block cursor
        let name ← Run.ofOption .badOffset (stringAt strings parts.nameoff)
        let value ← sliceOrPanic block parts.valueStart parts.valueEnd
        return (some ⟨name, value⟩, ⟨parts.next, false⟩)
      else if token = beginNodeToken ∨ token = endNodeToken ∨
          token = endToken then
        return (none, ⟨cursor, true⟩)
      else if token = nopToken then nextProp block strings fuel cursor
      else Run.fail .badToken

namespace Reader

variable (reader : Reader)

/-- `Reader::new`. -/
def new (data : Bytes) : Result Reader := do
  let header ← headerParse data
  let data ← sliceOrPanic data 0 header.totalsize
  return { data, header }

def structBlock : Result Bytes :=
  checkedSlice reader.data reader.header.offDtStruct reader.header.sizeDtStruct

def strings : Result Bytes :=
  checkedSlice reader.data reader.header.offDtStrings
    reader.header.sizeDtStrings

def root : Result Node := do
  let block ← reader.structBlock
  let token ← readBe32 block 0
  Run.ensure (token = beginNodeToken) .badToken
  return ⟨0⟩

/-! ## Iterators

Those who use them stop at the first error. -/

def subnodes (node : Node) : Result Iter := do
  let cursor ← nodeContentStart (← reader.structBlock) node.offset
  return ⟨cursor, false⟩

/-- `Subnodes::next`. -/
def subnodesNext (iter : Iter) : Result (Option Node × Iter) := do
  if iter.done then return (none, iter)
  let block ← reader.structBlock
  nextNode block (block.length + 1) iter.cursor

def props (node : Node) : Result Iter := do
  let cursor ← nodeContentStart (← reader.structBlock) node.offset
  return ⟨cursor, false⟩

/-- `Props::next`. -/
def propsNext (iter : Iter) : Result (Option NodeProp × Iter) := do
  if iter.done then return (none, iter)
  let block ← reader.structBlock
  let strings ← reader.strings
  nextProp block strings (block.length + 1) iter.cursor

/-! ## Properties -/

/-- The loop of `prop`. -/
def propFrom (name : Bytes) : Nat → Iter → Result Bytes
  | 0, _ => .error .outOfFuel
  | fuel + 1, iter => do
      let (item, iter) ← reader.propsNext iter
      match item with
      | none => Run.fail .notFound
      | some prop =>
          if prop.name = name then return prop.value
          else propFrom name fuel iter

def prop (node : Node) (name : Bytes) : Result Bytes := do
  reader.propFrom name (reader.data.length + 1) (← reader.props node)

def propU32 (node : Node) (name : Bytes) : Result Nat := do
  let value ← reader.prop node name
  readBe32 value 0

def nodePhandle (node : Node) : Result Nat :=
  orElse (reader.propU32 node (byteString "phandle"))
    (reader.propU32 node (byteString "linux,phandle"))

/-! ## Searches -/

/-- The loop body of `find_phandle`. -/
def findPhandleBody (phandle : Nat) : Body Error Unit Nat :=
  fun _ tokenStart token next =>
    match token with
    | .beginNode _ => do
        if (← okOf (reader.nodePhandle ⟨tokenStart⟩)) = some phandle then
          return .done tokenStart
        else return .more () next
    | .endNode => return .more () next
    | .prop _ _ => return .more () next
    | .nop => return .more () next
    | .fin => Run.fail .notFound

def findPhandle (phandle : Nat) : Result Node := do
  let block ← reader.structBlock
  let offset ← loop blockReader block (reader.findPhandleBody phandle)
    () 0
  return ⟨offset⟩

end Reader

/-! ## Paths -/

def slash : UInt8 := 0x2f

/-- The component at the front of a path without its first slash, and what
follows the slash behind it. -/
def component (path : Bytes) : Bytes := path.takeWhile (· ≠ slash)
def afterComponent (path : Bytes) : Bytes :=
  (path.dropWhile (· ≠ slash)).drop 1

/-- The loop of `count_path_components`. -/
def countFrom : Nat → Nat → Bytes → Result Nat
  | 0, _, _ => .error .outOfFuel
  | fuel + 1, count, path =>
      match path with
      | [] => return count
      | first :: _ =>
          if first = slash then Run.fail .badValue
          else countFrom fuel (count + 1) (afterComponent path)

def countPathComponents (path : Bytes) : Result Nat :=
  countFrom (path.length + 1) 0 (path.drop 1)

/-- The loop of `component_at`. -/
def componentFrom (index : Nat) : Nat → Nat → Bytes → Option Bytes
  | 0, _, _ => none
  | fuel + 1, current, path =>
      if path = [] then none
      else if current = index then some (component path)
      else componentFrom index fuel (current + 1) (afterComponent path)

def componentAt (path : Bytes) (index : Nat) : Option Bytes :=
  componentFrom index (path.length + 1) 0 (path.drop 1)

/-- How deep `find_path` is, and which of the open nodes are on the path. -/
structure PathState where
  depth : Nat
  isOnPath : List Bool

/-- `is_match`: whether a node is on the path. -/
def isMatch (path : Bytes) (state : PathState) (newDepth : Nat)
    (name : Bytes) : Result Bool :=
  if newDepth = 1 then return decide (name = [])
  else do
    let parent ← indexOrPanic state.isOnPath (state.depth - 1)
    return parent && componentAt path (newDepth - 2) = some name

/-- The loop body of `find_path`. -/
def findPathBody (path : Bytes) (targetComponents : Nat) :
    Body Error PathState Nat := fun state tokenStart token next =>
  match token with
  | .beginNode name => do
      let newDepth ← Run.ofOption .tooDeep (checkedAdd state.depth 1)
      Run.ensure (newDepth ≤ maxDepth) .tooDeep
      let isMatch ← isMatch path state newDepth name
      -- `new_depth` is at most the length of the array here
      let isOnPath := state.isOnPath.set (newDepth - 1) isMatch
      if isMatch ∧ targetComponents = newDepth - 1 then
        return .done tokenStart
      else return .more ⟨newDepth, isOnPath⟩ next
  | .endNode => do
      Run.ensure (state.depth ≠ 0) .badToken
      return .more { state with depth := state.depth - 1 } next
  | .prop _ _ => return .more state next
  | .nop => return .more state next
  | .fin => Run.fail .notFound

def Reader.findPath (reader : Reader) (path : Bytes) : Result Node := do
  if path = [slash] then reader.root
  else
    Run.ensure (path.head? = some slash) .badValue
    let block ← reader.structBlock
    let targetComponents ← countPathComponents path
    let offset ← loop blockReader block
      (findPathBody path targetComponents)
      ⟨0, List.replicate maxDepth false⟩ 0
    return ⟨offset⟩

end Pocketboot.Preboot
