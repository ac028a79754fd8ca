import Pocketboot.AbSlots.Commit

/-!
# The disks of the machine

`local_disks` lists the flash disks below `/sys/block` and `find_partition`
looks a partition up by the `PARTNAME` its `uevent` file gives.
-/

namespace Pocketboot.AbSlots

/-- `read_trimmed` of a file with the given content, `none` when the file
cannot be read. -/
def readTrimmed (content : Option Text) : Option Text :=
  (content.map Text.trim).filter (· ≠ [])

def ueventValue (content : Option Text) (key : Text) : Option Text := do
  let content ← content
  content.lines.findSome? fun line => do
    let (lineKey, value) ← Text.splitOnce '=' line
    if lineKey = key then some value else none

/-- A directory below `/sys/block`, with what the client reads there. -/
structure SysDisk where
  name : Name
  /-- Its canonical path is below `/sys/devices/virtual/block`. -/
  isVirtualBlock : Bool
  removable : Option Text
  devExists : Bool
  size : Option Text
  logicalBlockSize : Option Text
  directory : Run IoError (List (Run IoError SysfsEntry))

/-- The name of a directory entry that could be read. -/
def entryName : Run IoError SysDisk → Option Name
  | .ok disk => some disk.name
  | .error _ => none

def isPowerOfTwo (value : Nat) : Bool :=
  value ≠ 0 && value &&& (value - 1) == 0

def defaultLogicalBlockSize : Nat := 512

end Pocketboot.AbSlots
