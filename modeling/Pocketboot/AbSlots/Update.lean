import Pocketboot.AbSlots.Gpt

/-!
# Slot metadata updates in the loaded tables

`setActivePair` changes the tables of a loaded disk in memory.  A failing call
leaves the changes it has already made, so it returns the changed disk next to
its outcome.
-/

namespace Pocketboot.AbSlots

/-- `String::from_utf16`: `none` at a lone surrogate. -/
def decodeUtf16 : List Nat → Option (List Char)
  | [] => some []
  | unit :: rest =>
      if unit < 0xd800 ∨ 0xdfff < unit then
        (decodeUtf16 rest).map (Char.ofNat unit :: ·)
      else if 0xdc00 ≤ unit then none
      else
        match rest with
        | [] => none
        | low :: tail =>
            if 0xdc00 ≤ low ∧ low ≤ 0xdfff then
              (decodeUtf16 tail).map
                (Char.ofNat (0x10000 + (unit - 0xd800) * 0x400 +
                  (low - 0xdc00)) :: ·)
            else none

/-- `chunks_exact(entry_size)` of a table. -/
def entries (table : Bytes) (entrySize : Nat) : List Bytes :=
  (List.range (table.length / entrySize)).map fun index =>
    Bytes.slice table (index * entrySize) (index * entrySize + entrySize)

def isUnusedEntry (entry : Bytes) : Bool :=
  (entry.take typeGuidSize).all (· == 0)

/-- The UTF-16 units of a name field, up to its terminator. -/
def nameUnits : Bytes → List Nat
  | low :: high :: rest =>
      let unit := low.toNat + 256 * high.toNat
      if unit = 0 then [] else unit :: nameUnits rest
  | _ => []

def partitionName (entry : Bytes) : Run IoError (Option Name) := do
  Run.ensure (partitionNameOffset + partitionNameBytes ≤ entry.length)
    (invalidData "GPT partition entry name exceeds record")
  let units := nameUnits (Bytes.slice entry partitionNameOffset
    (partitionNameOffset + partitionNameBytes))
  if units = [] then return none
  match decodeUtf16 units with
  | some name => return some name
  | none => Run.fail (invalidData ("GPT partition name is invalid UTF-16: " ++
      "invalid utf-16: lone surrogate found"))

/-- The loop of `find_entry_index` over the entries from `index` on. -/
def findEntryIndexFrom (name : Name) : Nat → List Bytes → Run IoError (Option Nat)
  | _, [] => return none
  | index, entry :: rest =>
      if isUnusedEntry entry then findEntryIndexFrom name (index + 1) rest
      else do
        let found ← partitionName entry
        if found = some name then return some index
        else findEntryIndexFrom name (index + 1) rest

def findEntryIndex (table : Bytes) (entrySize : Nat) (name : Name) :
    Run IoError (Option Nat) :=
  findEntryIndexFrom name 0 (entries table entrySize)

def findEntry (table : Bytes) (entrySize : Nat) (name : Name) :
    Run IoError (Option Bytes) := do
  let found ← findEntryIndex table entrySize name
  return found.map fun index =>
    Bytes.slice table (index * entrySize) (index * entrySize + entrySize)

/-- The offset of an entry that `entry_mut` hands out for writing. -/
def entryOffset (table : Bytes) (entrySize index : Nat) : Run IoError Nat := do
  let offset ← Run.ofOption
    (invalidData "GPT partition entry offset overflows")
    (checkedMul index entrySize)
  let stop ← Run.ofOption (invalidData "GPT partition entry end overflows")
    (checkedAdd offset entrySize)
  Run.ensure (stop ≤ table.length)
    (invalidData "GPT partition entry exceeds table")
  return offset

/-- `update_slot_entry` on one entry record. -/
def updateSlotEntry (entry : Bytes) (active : Bool)
    (activeGuid inactiveGuid : Bytes) : Bytes :=
  if active then
    Bytes.splice (Bytes.splice entry 0 activeGuid) abFlagOffset
      [abSlotActiveVal]
  else
    Bytes.splice (Bytes.splice entry 0 inactiveGuid) abFlagOffset
      [(entry[abFlagOffset]?).getD 0 &&& ~~~abPartitionAttrSlotActive]

/-- Update the entry of index `index` in place. -/
def updateTableEntry (table : Bytes) (entrySize index : Nat) (active : Bool)
    (activeGuid inactiveGuid : Bytes) : Run IoError Bytes := do
  let offset ← entryOffset table entrySize index
  return Bytes.splice table offset
    (updateSlotEntry (Bytes.slice table offset (offset + entrySize)) active
      activeGuid inactiveGuid)

/-- `update_pair_table`.  An error stands for the table as it was: the only
check after the first change is `entry_mut` of an index found in the table. -/
def updatePairTable (table : Bytes) (entrySize : Nat) (aName bName : Name)
    (target : Slot) (activeGuid inactiveGuid : Bytes) :
    Run IoError Bytes := do
  let aFound ← findEntryIndex table entrySize aName
  let aIndex ← Run.ofOption
    (invalidData s!"missing GPT entry {String.ofList aName}") aFound
  let bFound ← findEntryIndex table entrySize bName
  let bIndex ← Run.ofOption
    (invalidData s!"missing GPT entry {String.ofList bName}") bFound
  let table ← updateTableEntry table entrySize aIndex (target = .a)
    activeGuid inactiveGuid
  updateTableEntry table entrySize bIndex (target = .b) activeGuid inactiveGuid

def isSlotActive (entry : Bytes) : Bool :=
  (entry[abFlagOffset]?).getD 0 &&& abPartitionAttrSlotActive != 0

inductive PairUpdate where
  | updated
  | skippedNoActiveMetadata
  deriving DecidableEq, Repr

namespace GptDisk

/-- `attribute_byte`: the A/B attribute byte of a named primary entry. -/
def attributeByte (disk : GptDisk) (name : Name) :
    Run IoError (Option UInt8) := do
  let found ← findEntry disk.primaryEntries disk.primaryHeader.entrySize name
  return found.map fun entry => (entry[abFlagOffset]?).getD 0

/-- `active_slot_for_base`: slot A when both slots are active. -/
def activeSlotForBase (disk : GptDisk) (base : Name) :
    Run IoError (Option Slot) := do
  let aAttr ← disk.attributeByte (base ++ ['_', 'a'])
  let bAttr ← disk.attributeByte (base ++ ['_', 'b'])
  let active (attr : Option UInt8) : Bool :=
    attr.any (· &&& abPartitionAttrSlotActive != 0)
  return if active aAttr then some .a
    else if active bAttr then some .b
    else none

/-- The type GUIDs of the active and of the inactive slot of a pair, in the
primary table; `none` when neither slot is active. -/
def pairGuids (disk : GptDisk) (aName bName : Name) :
    Run IoError (Option (Bytes × Bytes)) := do
  let aFound ← findEntry disk.primaryEntries disk.primaryHeader.entrySize aName
  let aPrimary ← Run.ofOption
    (invalidData s!"missing GPT entry {String.ofList aName}") aFound
  let bFound ← findEntry disk.primaryEntries disk.primaryHeader.entrySize bName
  let bPrimary ← Run.ofOption
    (invalidData s!"missing GPT entry {String.ofList bName}") bFound
  if !isSlotActive aPrimary && !isSlotActive bPrimary then return none
  else if isSlotActive aPrimary then
    return some (aPrimary.take typeGuidSize, bPrimary.take typeGuidSize)
  else
    return some (bPrimary.take typeGuidSize, aPrimary.take typeGuidSize)

/-- `GptDisk::set_active_pair`: the disk it leaves and its outcome. -/
def setActivePair (disk : GptDisk) (base : Name) (target : Slot) :
    GptDisk × Run IoError PairUpdate :=
  let aName := base ++ ['_', 'a']
  let bName := base ++ ['_', 'b']
  match disk.pairGuids aName bName with
  | .error fault => (disk, .error fault)
  | .ok none => (disk, .ok .skippedNoActiveMetadata)
  | .ok (some (activeGuid, inactiveGuid)) =>
      match updatePairTable disk.primaryEntries disk.primaryHeader.entrySize
          aName bName target activeGuid inactiveGuid with
      | .error fault => (disk, .error fault)
      | .ok primary =>
          let disk := { disk with primaryEntries := primary }
          match updatePairTable disk.backupEntries disk.backupHeader.entrySize
              aName bName target activeGuid inactiveGuid with
          | .error fault => (disk, .error fault)
          | .ok backup =>
              ({ disk with backupEntries := backup }, .ok .updated)

/-- The names of the used entries of an entry list. -/
def namesOf : List Bytes → Run IoError (List Name)
  | [] => return []
  | entry :: rest =>
      if isUnusedEntry entry then namesOf rest
      else do
        let name ← partitionName entry
        let names ← namesOf rest
        return name.toList ++ names

def partitionNames (disk : GptDisk) : Run IoError (List Name) :=
  namesOf (entries disk.primaryEntries disk.primaryHeader.entrySize)

/-- `slot_pairs`: the bases with both slots, in the order of the `BTreeSet`. -/
def slotPairs (disk : GptDisk) : Run IoError (List Name) := do
  let names ← disk.partitionNames
  let aBases := names.filterMap (Text.stripSuffix ['_', 'a'])
  let bBases := names.filterMap fun name =>
    if (Text.stripSuffix ['_', 'a'] name).isSome then none
    else Text.stripSuffix ['_', 'b'] name
  return (aBases.dedup.filter (· ∈ bBases)).insertionSort
    fun left right => Text.le left right

end GptDisk

end Pocketboot.AbSlots
