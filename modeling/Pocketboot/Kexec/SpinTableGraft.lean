import Pocketboot.Kexec.PowerDomains

/-!
# The spin-table contract

`graft_spin_table` carries the boot protocol of the running CPUs over into a
target tree: the CPUs, the reserved page and the reserve map.
-/

namespace Pocketboot.Kexec

open DeviceTree

def spinTableCompat : Bytes := byteString "pocketboot,spin-table-v1"
def spinTablePrefix : Bytes := byteString "pocketboot,spin-table-"
def spinTableBytes : Nat := 0x1000
def spinTableSlots : Nat := 0x400
def spinTableStride : Nat := 0x80

def nodeCpus : Bytes := byteString "cpus"
def propDeviceType : Bytes := byteString "device_type"
def propEnableMethod : Bytes := byteString "enable-method"
def propCpuReleaseAddr : Bytes := byteString "cpu-release-addr"
def propCpuIdleStates : Bytes := byteString "cpu-idle-states"
def propCompatible : Bytes := byteString "compatible"
def propNoMap : Bytes := byteString "no-map"
def propReusable : Bytes := byteString "reusable"
def propRanges : Bytes := byteString "ranges"

/-- `b"cpu\0"` and `b"spin-table\0"`. -/
def cpuType : Bytes := byteString "cpu" ++ [0]
def spinTableMethod : Bytes := byteString "spin-table" ++ [0]

structure SpinTableContract where
  base : Nat
  deriving DecidableEq, Repr

/-- The address of the slot of a CPU. -/
def releaseAddr (base mpidr : Nat) : Result Nat := do
  let slots ← addOrPanic wordSize base spinTableSlots
  addOrPanic wordSize slots (← mulOrPanic wordSize mpidr spinTableStride)

/-- A map from MPIDRs to positions, in the order of its keys. -/
abbrev CpuMap : Type := List (Nat × Nat)

namespace CpuMap

def keys (cpus : CpuMap) : List Nat := cpus.map (·.1)

/-- `insert` of a key that is not there yet. -/
def insert (key value : Nat) : CpuMap → CpuMap
  | [] => [(key, value)]
  | (other, item) :: cpus =>
      if key < other then (key, value) :: (other, item) :: cpus
      else (other, item) :: insert key value cpus

end CpuMap

/-- One child of `/cpus` in the loop of `cpu_nodes`. -/
def addCpu (addressCells : Nat) (result : CpuMap)
    (item : ContractNode × Nat) : Result CpuMap := do
  let (cpu, index) := item
  if cpu.get propDeviceType ≠ some cpuType ∨ cpu.enabled = false then
    return result
  else
    let reg ← Run.ofOption (invalidData "CPU has no reg property")
      (cpu.get propReg)
    Run.ensure (reg.length = (← mulOrPanic wordSize addressCells 4))
      (invalidData "CPU reg property does not encode one MPIDR")
    let mpidr := decodeCells reg
    Run.ensure (¬ (mpidr &&& (2 ^ 64 - 1 - 0xff00ffffff) ≠ 0 ∨
        mpidr ∈ result.keys))
      (invalidData "CPU reg contains an invalid or duplicate MPIDR")
    return result.insert mpidr index

/-- Whether `/cpus` has one or two address cells and no size cells. -/
def cpuCellsSupported (cpus : ContractNode) (addressCells : Nat) :
    Result Bool :=
  if 1 ≤ addressCells ∧ addressCells ≤ 2 then do
    let sizeCells ← cpus.cells propSizeCells 0
    return sizeCells = 0
  else .ok false

def cpuNodes (root : ContractNode) : Result CpuMap := do
  let cpus ← Run.ofOption (invalidData "DTB has no /cpus node")
    (root.child nodeCpus)
  let addressCells ← cpus.cells propAddressCells 2
  let supported ← cpuCellsSupported cpus addressCells
  Run.ensure supported (invalidData "unsupported /cpus cell format")
  cpus.children.zipIdx.foldlM (addCpu addressCells) []

/-- Whether the cells are one or two each and those of the root. -/
def reservedCellsConsistent (root : ContractNode)
    (addressCells sizeCells : Nat) : Result Bool :=
  if (1 ≤ addressCells ∧ addressCells ≤ 2) ∧
      (1 ≤ sizeCells ∧ sizeCells ≤ 2) then do
    let rootAddressCells ← root.cells propAddressCells 2
    if addressCells = rootAddressCells then
      let rootSizeCells ← root.cells propSizeCells 1
      return sizeCells = rootSizeCells
    else return false
  else .ok false

def reservedCells (root reserved : ContractNode) : Result (Nat × Nat) := do
  Run.ensure (reserved.enabled ∧ reserved.get propRanges = some [])
    (invalidData
      "spin-table requires an enabled /reserved-memory with empty ranges")
  let addressCells ← reserved.cells propAddressCells 0
  let sizeCells ← reserved.cells propSizeCells 0
  let consistent ← reservedCellsConsistent root addressCells sizeCells
  Run.ensure consistent (invalidData
    "unsupported or inconsistent spin-table reserved-memory cell format")
  return (addressCells, sizeCells)

/-- Whether a compatible list names any version of the contract. -/
def isContract (node : ContractNode) : Bool :=
  (node.get propCompatible).any fun value =>
    (value.splitOn 0).any spinTablePrefix.isPrefixOf

def hasSpinTableCpu (root : ContractNode) : Bool :=
  (root.child nodeCpus).any fun cpus =>
    cpus.children.any fun cpu =>
      cpu.enabled && cpu.get propDeviceType = some cpuType &&
        cpu.get propEnableMethod = some spinTableMethod

/-- The checks both sides make of the node of the reserved page. -/
def ownsPage (node : ContractNode) : Bool :=
  node.enabled && node.compatible spinTableCompat &&
    node.get propNoMap = some [] && (node.get propReusable).isNone

/-- One CPU of the live tree. -/
def checkLiveCpu (nodes : List ContractNode) (base : Nat)
    (item : Nat × Nat) : Result Unit := do
  let (mpidr, index) := item
  let cpu ← indexOrPanic nodes index
  let expected := Bytes.toBe 8 (← releaseAddr base mpidr)
  Run.ensure (cpu.get propEnableMethod = some spinTableMethod ∧
      cpu.get propCpuReleaseAddr = some expected) (invalidData
    "live CPU release address or enable method does not match spin-table v1")

/-- Whether there is one range and `reg` holds nothing else. -/
def isSingleRange (reg : Bytes) (ranges : List (Nat × Nat))
    (addressCells sizeCells : Nat) : Result Bool :=
  if ranges.length = 1 then do
    let cells ← addOrPanic (2 ^ 32) addressCells sizeCells
    let bytes ← mulOrPanic wordSize cells 4
    return reg.length = bytes
  else .ok false

/-- Whether a range is one aligned page. -/
def isAlignedPage (base stop : Nat) : Result Bool :=
  if base ≠ 0 ∧ base % spinTableBytes = 0 then do
    return (← subOrPanic stop base) = spinTableBytes
  else .ok false

/-- The page of the one contract node of `/reserved-memory`. -/
def ownedPage (root : ContractNode) : Result Nat := do
  let reservations := (((root.child nodeReservedMemory).map
    (·.children)).getD []).filter isContract
  Run.ensure (reservations.length < 2) (invalidData
    "live DTB has multiple spin-table parking reservations")
  let owned ← Run.ofOption
    (invalidData "live spin-table CPUs have no owned parking contract")
    reservations.head?
  Run.ensure (ownsPage owned) (invalidData
    "invalid or unsupported live spin-table parking reservation")
  let reserved ← unwrapOrPanic (root.child nodeReservedMemory)
  let (addressCells, sizeCells) ← reservedCells root reserved
  let reg ← Run.ofOption
    (invalidData "live spin-table reservation has no reg") (owned.get propReg)
  let ranges ← decodeRegRanges reg addressCells sizeCells
  let single ← isSingleRange reg ranges addressCells sizeCells
  Run.ensure single (invalidData
    "spin-table v1 requires exactly one reservation range")
  let (base, stop) ← indexOrPanic ranges 0
  let page ← isAlignedPage base stop
  Run.ensure page
    (invalidData "spin-table v1 requires one aligned 4 KiB page")
  return base

def spinTableContract (root : ContractNode) :
    Result (Option SpinTableContract) := do
  if hasSpinTableCpu root = false then return none
  else
    let base ← ownedPage root
    let cpus ← cpuNodes root
    Run.ensure (cpus.keys = [0, 1, 2, 3]) (invalidData
      "spin-table v1 requires enabled CPU MPIDRs 0 through 3")
    let nodes := (← unwrapOrPanic (root.child nodeCpus)).children
    cpus.forM (checkLiveCpu nodes base)
    return some ⟨base⟩

def encodeCells (value count : Nat) : Result Bytes :=
  if count = 1 ∧ value < 2 ^ 32 then .ok (be32 value)
  else if count = 2 then .ok (Bytes.toBe 8 value)
  else invalid
    "spin-table physical address does not fit destination DTB cells"

/-- `start < end && contract.base < other_end`. -/
def overlapsPage (base stop : Nat) (range : Nat × Nat) : Bool :=
  range.1 < stop && base < range.2

/-- The ranges of a node; without `reg` it has none. -/
def nodeRanges (node : ContractNode) (addressCells sizeCells : Nat) :
    Result (List (Nat × Nat)) :=
  match node.get propReg with
  | some reg => decodeRegRanges reg addressCells sizeCells
  | none => .ok []

/-- One child of `/reserved-memory`: whether the page is reserved so far. -/
def checkReservation (name : Bytes) (base stop addressCells sizeCells : Nat)
    (alreadyReserved : Bool) (node : ContractNode) : Result Bool := do
  let ranges ← nodeRanges node addressCells sizeCells
  if ranges.any (overlapsPage base stop) || isContract node ||
      node.name = name then
    Run.ensure (ownsPage node ∧ ranges = [(base, stop)] ∧
      alreadyReserved = false) (invalidData
        "destination reserved-memory conflicts with the live spin-table page")
    return true
  else return alreadyReserved

/-- `spin-table@` and the address in hexadecimal. -/
def parkingName (base : Nat) : Bytes :=
  byteString "spin-table@" ++
    (Nat.toDigits 16 base).map fun letter => UInt8.ofNat letter.toNat

/-- A `/reserved-memory` node with the cells of the root. -/
def newReservedMemory (root : ContractNode) : Result ContractNode := do
  let reserved := (ContractNode.new nodeReservedMemory).set propAddressCells
    (be32 (← root.cells propAddressCells 2))
  let reserved := reserved.set propSizeCells
    (be32 (← root.cells propSizeCells 1))
  return reserved.set propRanges []

/-- The root, with a `/reserved-memory` node when it had none. -/
def withReservedMemory (root : ContractNode) : Result ContractNode :=
  if (root.child nodeReservedMemory).isNone then
    root.push <$> newReservedMemory root
  else .ok root

/-- The node of the page. -/
def parkingNode (name : Bytes) (base addressCells sizeCells : Nat) :
    Result ContractNode := do
  let node := (ContractNode.new name).set propCompatible
    (spinTableCompat ++ [0])
  let node := node.set propNoMap []
  let address ← encodeCells base addressCells
  let size ← encodeCells spinTableBytes sizeCells
  return node.set propReg (address ++ size)

def graftParkingReservation (root : ContractNode)
    (contract : SpinTableContract) : Result ContractNode := do
  let name := parkingName contract.base
  let root ← withReservedMemory root
  let reserved ← unwrapOrPanic (root.child nodeReservedMemory)
  let (addressCells, sizeCells) ← reservedCells root reserved
  let stop ← addOrPanic wordSize contract.base spinTableBytes
  let alreadyReserved ← reserved.children.foldlM
    (checkReservation name contract.base stop addressCells sizeCells) false
  if alreadyReserved then return root
  else
    let node ← parkingNode name contract.base addressCells sizeCells
    return root.changeChild nodeReservedMemory (·.push node)

/-- One range of the reserve map: whether the page is reserved so far. -/
def checkMapRange (base stop : Nat) (alreadyReserved : Bool)
    (range : Nat × Nat) : Result Bool := do
  if overlapsPage base stop range then
    Run.ensure (range = (base, stop))
      (invalidData "DTB reserve map overlaps the spin-table page")
    return true
  else return alreadyReserved

def validateParkingReserveMap (dtb : Bytes) (contract : SpinTableContract) :
    Result Bool := do
  let header ← headerParse dtb
  let stop ← addOrPanic wordSize contract.base spinTableBytes
  let ranges ← reserveMapRanges dtb header
  ranges.foldlM (checkMapRange contract.base stop) false

/-- What the loop over the target's CPUs does with one of them. -/
def graftCpu (contract : SpinTableContract)
    (providers : List PowerDomainProvider) (children : List ContractNode)
    (item : Nat × Nat) : Result (List ContractNode) := do
  let (mpidr, index) := item
  let cpu ← indexOrPanic children index
  let cpu := cpu.set propEnableMethod spinTableMethod
  let cpu := cpu.set propCpuReleaseAddr
    (Bytes.toBe 8 (← releaseAddr contract.base mpidr))
  let cpu := cpu.remove propCpuIdleStates
  let cpu ← removePsciCpuDomains cpu providers
  return children.set index cpu

/-- The target tree with its CPUs, PSCI nodes and reserved page changed. -/
def graftedTree (target : ContractNode) (targetCpus : CpuMap)
    (contract : SpinTableContract) : Result ContractNode := do
  let providers ← powerDomainProviders target
  let cpus ← unwrapOrPanic (target.child nodeCpus)
  let children ← targetCpus.foldlM (graftCpu contract providers) cpus.children
  let target := target.changeChild nodeCpus fun cpus => { cpus with children }
  graftParkingReservation (disablePsci target) contract

/-- The reserve map with an entry for the page. -/
def graftedReserveMap (dtb : Bytes) (contract : SpinTableContract) :
    Result Bytes := do
  let header ← headerParse dtb
  let reservations ← reserveMap dtb header
  let alreadyReserved ← validateParkingReserveMap dtb contract
  if alreadyReserved then return reservations
  else
    let kept ← subOrPanic reservations.length 16
    return reservations.take kept ++ (Bytes.toBe 8 contract.base ++
      (Bytes.toBe 8 spinTableBytes ++ List.replicate 16 0))

/-- Whether CPU 0 booted both trees. -/
def bootsFromZero (dtb liveDtb : Bytes) : Result Bool := do
  let liveHeader ← headerParse liveDtb
  if liveHeader.bootCpuidPhys = 0 then
    let header ← headerParse dtb
    return header.bootCpuidPhys = 0
  else return false

def graftSpinTable (dtb liveDtb : Bytes) : Result Bytes := do
  let live ← contractTree liveDtb
  match ← spinTableContract live with
  | none => return dtb
  | some contract => do
      let zero ← bootsFromZero dtb liveDtb
      Run.ensure zero
        (invalidData "spin-table v1 requires CPU0 as the boot CPU")
      let live ← graftParkingReservation live contract
      let _ ← validateParkingReserveMap liveDtb contract
      let target ← contractTree dtb
      let liveCpus ← cpuNodes live
      let targetCpus ← cpuNodes target
      Run.ensure (liveCpus.keys = targetCpus.keys) (invalidData
        "destination CPU MPIDRs do not match the live spin-table CPUs")
      let target ← graftedTree target targetCpus contract
      let reservations ← graftedReserveMap dtb contract
      buildContractTree dtb target reservations

end Pocketboot.Kexec
