import Pocketboot.Kexec.Blocks
import Pocketboot.DeviceTree.Walk

/-!
# The running kernel's memory nodes

`graft_memory` takes the memory nodes below the root of the live tree and puts
them in place of those of the target.
-/

namespace Pocketboot.Kexec

open DeviceTree

def isMemoryNodeName (name : Bytes) : Bool :=
  name = byteString "memory" || (byteString "memory@").isPrefixOf name

/-- `MemoryFragment`: the bytes of one memory node. -/
structure MemoryFragment where
  data : Bytes

structure CopyState where
  depth : Nat
  output : Bytes
  outputStrings : Bytes

/-- The loop body of `copy_node_subtree`; it returns the fragment, the cursor
after the node, and the strings block. -/
def copyBody (structBlock strings : Bytes) :
    Body IoError CopyState (Bytes × Nat × Bytes) :=
  fun state tokenStart token next =>
    match token with
    | .beginNode _ => do
        let copied ← sliceOrPanic structBlock tokenStart next
        let depth ← addOrPanic wordSize state.depth 1
        return .more { state with depth, output := state.output ++ copied } next
    | .endNode => do
        Run.ensure (state.depth ≠ 0)
          (invalidData "DTB structure has too many END_NODE tokens")
        let copied ← sliceOrPanic structBlock tokenStart next
        let output := state.output ++ copied
        let depth ← subOrPanic state.depth 1
        if depth = 0 then return .done (output, next, state.outputStrings)
        else return .more { state with depth, output } next
    | .prop nameoff value => do
        let name ← Run.ofOption
          (invalidData s!"DTB property name offset {nameoff} is out of range")
          (stringAt strings nameoff)
        let (outputStrings, nameoff) ← ensureString state.outputStrings name
        let output := writeProp state.output nameoff value
        return .more { state with output, outputStrings } next
    | .nop => do
        let copied ← sliceOrPanic structBlock tokenStart next
        return .more { state with output := state.output ++ copied } next
    | .fin => invalid "DTB node subtree is unterminated"

def copyNodeSubtree (structBlock strings : Bytes) (start : Nat)
    (outputStrings : Bytes) : Result (Bytes × Nat × Bytes) :=
  loop blockReader structBlock (copyBody structBlock strings)
    ⟨0, [], outputStrings⟩ start

/-- The loop body of `skip_node_subtree`; its state is the depth. -/
def skipBody : Body IoError Nat Nat :=
  fun depth _ token next =>
    match token with
    | .beginNode _ => do return .more (← addOrPanic wordSize depth 1) next
    | .endNode => do
        Run.ensure (depth ≠ 0)
          (invalidData "DTB structure has too many END_NODE tokens")
        let depth ← subOrPanic depth 1
        if depth = 0 then return .done next else return .more depth next
    | .prop _ _ => return .more depth next
    | .nop => return .more depth next
    | .fin => invalid "DTB node subtree is unterminated"

def skipNodeSubtree (structBlock : Bytes) (start : Nat) : Result Nat :=
  loop blockReader structBlock skipBody 0 start

structure ExtractState where
  depth : Nat
  sawRoot : Bool
  memory : List MemoryFragment
  outputStrings : Bytes

/-- The checks both passes make of a node at depth zero. -/
def checkRoot (sawRoot : Bool) (name : Bytes) : Result Unit := do
  Run.ensure (sawRoot = false)
    (invalidData "DTB structure has multiple root nodes")
  Run.ensure (name = []) (invalidData "DTB root node name is not empty")

/-- The checks both passes make at the end of the block. -/
def checkEnd (sawRoot : Bool) (depth : Nat) : Result Unit := do
  Run.ensure (sawRoot = true) (invalidData "DTB structure has no root node")
  Run.ensure (depth = 0)
    (invalidData "DTB structure ended before all nodes were closed")

/-- The loop body of `extract_memory_fragments`. -/
def extractBody (structBlock strings : Bytes) :
    Body IoError ExtractState (List MemoryFragment × Bytes) :=
  fun state tokenStart token next =>
    match token with
    | .beginNode name =>
        if state.depth = 0 then do
          checkRoot state.sawRoot name
          return .more { state with sawRoot := true, depth := 1 } next
        else if state.depth = 1 && isMemoryNodeName name then do
          let (data, next, outputStrings) ←
            copyNodeSubtree structBlock strings tokenStart state.outputStrings
          return .more { state with
            memory := state.memory ++ [⟨data⟩], outputStrings } next
        else do
          let depth ← addOrPanic wordSize state.depth 1
          return .more { state with depth } next
    | .endNode => do
        Run.ensure (state.depth ≠ 0)
          (invalidData "DTB structure has too many END_NODE tokens")
        let depth ← subOrPanic state.depth 1
        return .more { state with depth } next
    | .prop _ _ => return .more state next
    | .nop => return .more state next
    | .fin => do
        checkEnd state.sawRoot state.depth
        return .done (state.memory, state.outputStrings)

/-- The fragments and the strings block with their property names. -/
def extractMemoryFragments (structBlock strings outputStrings : Bytes) :
    Result (List MemoryFragment × Bytes) :=
  loop blockReader structBlock (extractBody structBlock strings)
    ⟨0, false, [], outputStrings⟩ 0

def appendMemoryFragments (output : Bytes) (memory : List MemoryFragment) :
    Bytes :=
  memory.foldl (fun output fragment => output ++ fragment.data) output

structure GraftState where
  depth : Nat
  sawRoot : Bool
  insertedMemory : Bool
  output : Bytes

/-- Put the fragments in front of what follows, the first time at depth one. -/
def insertMemory (memory : List MemoryFragment) (state : GraftState) :
    GraftState :=
  if state.depth = 1 && !state.insertedMemory then
    { state with
      output := appendMemoryFragments state.output memory
      insertedMemory := true }
  else state

/-- The loop body of `graft_memory_structure`. -/
def graftBody (structBlock : Bytes) (memory : List MemoryFragment) :
    Body IoError GraftState Bytes :=
  fun state tokenStart token next =>
    match token with
    | .beginNode name =>
        if state.depth = 0 then do
          checkRoot state.sawRoot name
          let copied ← sliceOrPanic structBlock tokenStart next
          return .more { state with
            sawRoot := true, output := state.output ++ copied, depth := 1 } next
        else if state.depth = 1 && isMemoryNodeName name then do
          return .more state (← skipNodeSubtree structBlock tokenStart)
        else do
          let state := insertMemory memory state
          let copied ← sliceOrPanic structBlock tokenStart next
          let depth ← addOrPanic wordSize state.depth 1
          return .more { state with depth, output := state.output ++ copied }
            next
    | .endNode => do
        Run.ensure (state.depth ≠ 0)
          (invalidData "DTB structure has too many END_NODE tokens")
        let state := insertMemory memory state
        let copied ← sliceOrPanic structBlock tokenStart next
        let depth ← subOrPanic state.depth 1
        return .more { state with depth, output := state.output ++ copied } next
    | .prop _ _ => do
        let copied ← sliceOrPanic structBlock tokenStart next
        return .more { state with output := state.output ++ copied } next
    | .nop => do
        let copied ← sliceOrPanic structBlock tokenStart next
        return .more { state with output := state.output ++ copied } next
    | .fin => do
        let copied ← sliceOrPanic structBlock tokenStart next
        checkEnd state.sawRoot state.depth
        return .done (state.output ++ copied)

/-- `iter().sum()` of `usize` values. -/
def sumOrPanic (items : List Nat) : Result Nat :=
  items.foldlM (fun total item => addOrPanic wordSize total item) 0

def graftMemoryStructure (structBlock : Bytes) (memory : List MemoryFragment) :
    Result Bytes := do
  let memoryBytes ← sumOrPanic (memory.map (·.data.length))
  let _capacity ← addOrPanic wordSize structBlock.length memoryBytes
  loop blockReader structBlock (graftBody structBlock memory)
    ⟨0, false, false, []⟩ 0

def graftMemory (dtb liveDtb : Bytes) : Result Bytes := do
  let header ← headerParse dtb
  let map ← reserveMap dtb header
  let structBlock ← checkedSlice dtb header.offDtStruct header.sizeDtStruct
    "DTB structure block"
  let strings ← checkedSlice dtb header.offDtStrings header.sizeDtStrings
    "DTB strings block"
  let liveHeader ← headerParse liveDtb
  let liveStructBlock ← checkedSlice liveDtb liveHeader.offDtStruct
    liveHeader.sizeDtStruct "live DTB structure block"
  let liveStrings ← checkedSlice liveDtb liveHeader.offDtStrings
    liveHeader.sizeDtStrings "live DTB strings block"
  let (memory, strings) ←
    extractMemoryFragments liveStructBlock liveStrings strings
  Run.ensure (memory ≠ []) (invalidData "live DTB has no root memory nodes")
  let newStruct ← graftMemoryStructure structBlock memory
  buildDtb header map newStruct strings

end Pocketboot.Kexec
