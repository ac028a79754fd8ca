import Pocketboot.Kexec.Providers

/-!
# `graft_spin_table` returns

The index of a CPU comes from the children it is used on, the contract's base
is the start of a range that ends below `2 ^ 64`, and a reserve map always
ends in an empty entry.
-/

namespace Pocketboot.Kexec

open DeviceTree

/-! ## The CPUs -/

/-- Every CPU of the map is one of so many children. -/
def CpuMap.Inside (cpus : CpuMap) (count : Nat) : Prop :=
  ∀ cpu ∈ cpus, cpu.2 < count

theorem CpuMap.mem_insert {cpus : CpuMap} {key value : Nat}
    {cpu : Nat × Nat} :
    cpu ∈ cpus.insert key value ↔ cpu = (key, value) ∨ cpu ∈ cpus := by
  induction cpus with
  | nil => simp [CpuMap.insert]
  | cons first cpus induction =>
      obtain ⟨other, item⟩ := first
      rw [CpuMap.insert]
      split
      · simp
      · rw [List.mem_cons, induction, List.mem_cons]
        exact or_left_comm

theorem addCpu_returns {addressCells : Nat} (small : addressCells ≤ 2)
    (result : CpuMap) (item : ContractNode × Nat) :
    (addCpu addressCells result item).Returns := by
  unfold addCpu
  dsimp only
  split
  · exact Run.returns_ok _
  · refine (Run.returns_ofOption _ _).bind fun _ _ => ?_
    rw [mulOrPanic_of (by unfold wordSize; omega), Run.ok_bind]
    exact (Run.returns_ensure _ _).bind fun _ _ =>
      (Run.returns_ensure _ _).bind fun _ _ => Run.returns_pure _

theorem addCpu_inside {addressCells count : Nat} {cpus cpus' : CpuMap}
    {item : ContractNode × Nat} (inside : cpus.Inside count)
    (index : item.2 < count)
    (step : addCpu addressCells cpus item = .ok cpus') :
    cpus'.Inside count := by
  unfold addCpu at step
  dsimp only at step
  split at step
  · cases step
    exact inside
  · obtain ⟨_, _, step⟩ := Run.bind_eq_ok.mp step
    obtain ⟨_, _, step⟩ := Run.bind_eq_ok.mp step
    obtain ⟨_, _, step⟩ := Run.bind_eq_ok.mp step
    obtain ⟨_, _, step⟩ := Run.bind_eq_ok.mp step
    cases step
    intro cpu member
    rcases CpuMap.mem_insert.mp member with rfl | member
    · exact index
    · exact inside cpu member

theorem foldlM_addCpu_inside {addressCells count : Nat}
    {items : List (ContractNode × Nat)} {cpus cpus' : CpuMap}
    (indices : ∀ item ∈ items, item.2 < count) (inside : cpus.Inside count)
    (read : items.foldlM (addCpu addressCells) cpus = .ok cpus') :
    cpus'.Inside count := by
  induction items generalizing cpus with
  | nil =>
      cases read
      exact inside
  | cons item items induction =>
      rw [List.foldlM_cons] at read
      obtain ⟨next, step, read⟩ := Run.bind_eq_ok.mp read
      exact induction
        (fun item member => indices item (List.mem_cons_of_mem _ member))
        (addCpu_inside inside (indices item List.mem_cons_self) step) read

theorem cpuCellsSupported_returns (cpus : ContractNode) (addressCells : Nat) :
    (cpuCellsSupported cpus addressCells).Returns := by
  unfold cpuCellsSupported
  split
  · exact (cpus.cells_returns _ _).bind fun _ _ => Run.returns_pure _
  · exact Run.returns_ok _

theorem cpuCellsSupported_le {cpus : ContractNode} {addressCells : Nat}
    (supported : cpuCellsSupported cpus addressCells = .ok true) :
    addressCells ≤ 2 := by
  unfold cpuCellsSupported at supported
  split at supported
  · rename_i few
    exact few.2
  · cases supported

theorem cpuNodes_returns (root : ContractNode) : (cpuNodes root).Returns := by
  refine (Run.returns_ofOption _ _).bind fun cpus _ => ?_
  refine (cpus.cells_returns _ _).bind fun addressCells _ => ?_
  refine (cpuCellsSupported_returns _ _).bind fun supported few => ?_
  refine (Run.returns_ensure _ _).bind fun _ accepted => ?_
  rw [Run.ensure_eq_ok] at accepted
  subst accepted
  exact Run.Returns.foldlM (fun _ => True)
    (fun result item _ =>
      addCpu_returns (cpuCellsSupported_le few) result item)
    (fun _ _ _ _ _ => trivial) trivial

/-- What a map of CPUs was read from. -/
theorem cpuNodes_inside {root : ContractNode} {result : CpuMap}
    (read : cpuNodes root = .ok result) :
    ∃ cpus, root.child nodeCpus = some cpus ∧
      result.Inside cpus.children.length := by
  obtain ⟨cpus, found, read⟩ := Run.bind_eq_ok.mp read
  rw [Run.ofOption_eq_ok] at found
  obtain ⟨_, _, read⟩ := Run.bind_eq_ok.mp read
  obtain ⟨_, _, read⟩ := Run.bind_eq_ok.mp read
  obtain ⟨_, _, read⟩ := Run.bind_eq_ok.mp read
  refine ⟨cpus, found, foldlM_addCpu_inside ?_ ?_ read⟩
  · intro item member
    exact List.snd_lt_of_mem_zipIdx member
  · intro cpu member
    cases member

theorem indexOrPanic_of {α ε : Type} {items : List α} {index : Nat}
    (inside : index < items.length) :
    (indexOrPanic items index : Run ε α) =
      .ok (items.get ⟨index, inside⟩) := by
  unfold indexOrPanic
  rw [List.getElem?_eq_getElem inside]
  rfl

theorem releaseAddr_of {base mpidr : Nat} (page : base + 0x1000 < 2 ^ 64)
    (few : mpidr ≤ 3) : releaseAddr base mpidr =
      .ok (base + spinTableSlots + mpidr * spinTableStride) := by
  unfold releaseAddr spinTableSlots spinTableStride
  rw [addOrPanic_of (by unfold wordSize; omega), Run.ok_bind,
    mulOrPanic_of (by unfold wordSize; omega), Run.ok_bind,
    addOrPanic_of (by unfold wordSize; omega)]

/-! ## The contract -/

theorem reservedCellsConsistent_returns (root : ContractNode)
    (addressCells sizeCells : Nat) :
    (reservedCellsConsistent root addressCells sizeCells).Returns := by
  unfold reservedCellsConsistent
  split
  · refine (root.cells_returns _ _).bind fun _ _ => ?_
    split
    · exact (root.cells_returns _ _).bind fun _ _ => Run.returns_pure _
    · exact Run.returns_pure _
  · exact Run.returns_ok _

theorem reservedCells_returns (root reserved : ContractNode) :
    (reservedCells root reserved).Returns := by
  refine (Run.returns_ensure _ _).bind fun _ _ => ?_
  refine (reserved.cells_returns _ _).bind fun _ _ => ?_
  refine (reserved.cells_returns _ _).bind fun _ _ => ?_
  exact (reservedCellsConsistent_returns _ _ _).bind fun _ _ =>
    (Run.returns_ensure _ _).bind fun _ _ => Run.returns_pure _

theorem reservedCells_le {root reserved : ContractNode}
    {addressCells sizeCells : Nat}
    (read : reservedCells root reserved = .ok (addressCells, sizeCells)) :
    addressCells ≤ 2 ∧ sizeCells ≤ 2 := by
  obtain ⟨_, _, read⟩ := Run.bind_eq_ok.mp read
  obtain ⟨addressCells', _, read⟩ := Run.bind_eq_ok.mp read
  obtain ⟨sizeCells', _, read⟩ := Run.bind_eq_ok.mp read
  obtain ⟨consistent, checked, next⟩ := Run.bind_eq_ok.mp read
  obtain ⟨_, accepted, read⟩ := Run.bind_eq_ok.mp next
  rw [Run.ensure_eq_ok] at accepted
  subst accepted
  obtain ⟨rfl, rfl⟩ := Prod.mk.inj (Except.ok.inj read)
  unfold reservedCellsConsistent at checked
  split at checked
  · rename_i few
    exact ⟨few.1.2, few.2.2⟩
  · cases checked

/-- A range that was decoded ends below `2 ^ 64`. -/
theorem decodeTuple_range {addressCells : Nat} {tuple : Bytes}
    {range : Option (Nat × Nat)}
    (read : decodeTuple addressCells tuple = .ok range) :
    ∀ start stop, range = some (start, stop) →
      start ≤ stop ∧ stop < 2 ^ 64 := by
  obtain ⟨_, _, read⟩ := Run.bind_eq_ok.mp read
  obtain ⟨_, _, read⟩ := Run.bind_eq_ok.mp read
  obtain ⟨_, _, read⟩ := Run.bind_eq_ok.mp read
  dsimp only at read
  split at read
  · cases read
    intro start stop absurd
    cases absurd
  · obtain ⟨_, sum, read⟩ := Run.bind_eq_ok.mp read
    rw [Run.ofOption_eq_ok, checkedAdd_eq_some] at sum
    cases read
    rintro start stop ⟨rfl, rfl⟩
    unfold wordSize at sum
    omega

theorem mapM_range {addressCells : Nat} {tuples : List Bytes}
    {ranges : List (Option (Nat × Nat))}
    (read : tuples.mapM (decodeTuple addressCells) = .ok ranges) :
    ∀ start stop, some (start, stop) ∈ ranges →
      start ≤ stop ∧ stop < 2 ^ 64 := by
  induction tuples generalizing ranges with
  | nil =>
      cases read
      intro start stop absurd
      cases absurd
  | cons tuple tuples induction =>
      rw [List.mapM_cons] at read
      obtain ⟨range, first, read⟩ := Run.bind_eq_ok.mp read
      obtain ⟨rest, others, read⟩ := Run.bind_eq_ok.mp read
      cases read
      intro start stop member
      rcases List.mem_cons.mp member with same | member
      · exact decodeTuple_range first start stop same.symm
      · exact induction others start stop member

theorem decodeRegRanges_range {reg : Bytes} {addressCells sizeCells : Nat}
    {ranges : List (Nat × Nat)}
    (read : decodeRegRanges reg addressCells sizeCells = .ok ranges) :
    ∀ start stop, (start, stop) ∈ ranges → start ≤ stop ∧ stop < 2 ^ 64 := by
  obtain ⟨_, _, read⟩ := Run.bind_eq_ok.mp read
  obtain ⟨_, _, read⟩ := Run.bind_eq_ok.mp read
  obtain ⟨_, _, read⟩ := Run.bind_eq_ok.mp read
  obtain ⟨_, _, read⟩ := Run.bind_eq_ok.mp read
  obtain ⟨tuples, each, read⟩ := Run.bind_eq_ok.mp read
  cases read
  intro start stop member
  obtain ⟨range, member, rfl⟩ := List.mem_filterMap.mp member
  exact mapM_range each start stop member

theorem isSingleRange_returns {addressCells sizeCells : Nat}
    (few : addressCells ≤ 2 ∧ sizeCells ≤ 2) (reg : Bytes)
    (ranges : List (Nat × Nat)) :
    (isSingleRange reg ranges addressCells sizeCells).Returns := by
  unfold isSingleRange
  split
  · rw [addOrPanic_of (by omega), Run.ok_bind,
      mulOrPanic_of (by unfold wordSize; omega), Run.ok_bind]
    exact Run.returns_pure _
  · exact Run.returns_ok _

theorem isSingleRange_length {addressCells sizeCells : Nat} {reg : Bytes}
    {ranges : List (Nat × Nat)}
    (single : isSingleRange reg ranges addressCells sizeCells = .ok true) :
    ranges.length = 1 := by
  unfold isSingleRange at single
  split at single
  · assumption
  · cases single

theorem isAlignedPage_returns {base stop : Nat} (ordered : base ≤ stop) :
    (isAlignedPage base stop).Returns := by
  unfold isAlignedPage
  split
  · rw [subOrPanic_of ordered, Run.ok_bind]
    exact Run.returns_pure _
  · exact Run.returns_ok _

theorem isAlignedPage_stop {base stop : Nat} (ordered : base ≤ stop)
    (page : isAlignedPage base stop = .ok true) :
    stop = base + 0x1000 := by
  unfold isAlignedPage at page
  split at page
  · rw [subOrPanic_of ordered, Run.ok_bind] at page
    have size := of_decide_eq_true (Except.ok.inj page)
    unfold spinTableBytes at size
    omega
  · cases page

theorem child_of_reservations {root owned : ContractNode}
    (found : ((((root.child nodeReservedMemory).map
      (·.children)).getD []).filter isContract).head? = some owned) :
    ∃ reserved, root.child nodeReservedMemory = some reserved := by
  cases child : root.child nodeReservedMemory with
  | none =>
      rw [child] at found
      cases found
  | some reserved => exact ⟨reserved, rfl⟩

theorem ownedPage_returns (root : ContractNode) :
    (ownedPage root).Returns := by
  refine (Run.returns_ensure _ _).bind fun _ _ => ?_
  refine (Run.returns_ofOption _ _).bind fun owned found => ?_
  rw [Run.ofOption_eq_ok] at found
  obtain ⟨reserved, child⟩ := child_of_reservations found
  refine (Run.returns_ensure _ _).bind fun _ _ => ?_
  rw [child]
  refine (reservedCells_returns root reserved).bind fun cells read => ?_
  obtain ⟨addressCells, sizeCells⟩ := cells
  have few := reservedCells_le read
  refine (Run.returns_ofOption _ _).bind fun reg _ => ?_
  refine (decodeRegRanges_returns _ _ _).bind fun ranges decoded => ?_
  refine (isSingleRange_returns few _ _).bind fun single whole => ?_
  refine (Run.returns_ensure _ _).bind fun _ accepted => ?_
  rw [Run.ensure_eq_ok] at accepted
  subst accepted
  obtain ⟨range, rfl⟩ :=
    List.length_eq_one_iff.mp (isSingleRange_length whole)
  obtain ⟨base, stop⟩ := range
  have bounds := decodeRegRanges_range decoded base stop
    (List.mem_singleton.mpr rfl)
  refine Run.Returns.bind (Run.returns_ok _) fun range first => ?_
  cases first
  exact (isAlignedPage_returns bounds.1).bind fun _ _ =>
    (Run.returns_ensure _ _).bind fun _ _ => Run.returns_pure _

theorem ownedPage_lt {root : ContractNode} {base : Nat}
    (read : ownedPage root = .ok base) : base + 0x1000 < 2 ^ 64 := by
  obtain ⟨_, _, read⟩ := Run.bind_eq_ok.mp read
  obtain ⟨_, _, read⟩ := Run.bind_eq_ok.mp read
  obtain ⟨_, _, read⟩ := Run.bind_eq_ok.mp read
  obtain ⟨_, _, read⟩ := Run.bind_eq_ok.mp read
  obtain ⟨_, _, read⟩ := Run.bind_eq_ok.mp read
  obtain ⟨_, _, read⟩ := Run.bind_eq_ok.mp read
  obtain ⟨ranges, decoded, read⟩ := Run.bind_eq_ok.mp read
  obtain ⟨_, whole, next⟩ := Run.bind_eq_ok.mp read
  obtain ⟨_, accepted, read⟩ := Run.bind_eq_ok.mp next
  rw [Run.ensure_eq_ok] at accepted
  subst accepted
  obtain ⟨range, rfl⟩ :=
    List.length_eq_one_iff.mp (isSingleRange_length whole)
  obtain ⟨base', stop⟩ := range
  have bounds := decodeRegRanges_range decoded base' stop
    (List.mem_singleton.mpr rfl)
  obtain ⟨_, first, read⟩ := Run.bind_eq_ok.mp read
  cases first
  obtain ⟨_, page, next⟩ := Run.bind_eq_ok.mp read
  obtain ⟨_, accepted, read⟩ := Run.bind_eq_ok.mp next
  rw [Run.ensure_eq_ok] at accepted
  subst accepted
  cases read
  have size := isAlignedPage_stop bounds.1 page
  omega

theorem checkLiveCpu_returns {nodes : List ContractNode} {base : Nat}
    {item : Nat × Nat} (page : base + 0x1000 < 2 ^ 64) (few : item.1 ≤ 3)
    (inside : item.2 < nodes.length) :
    (checkLiveCpu nodes base item).Returns := by
  rw [checkLiveCpu, indexOrPanic_of inside, Run.ok_bind,
    releaseAddr_of page few, Run.ok_bind]
  exact Run.returns_ensure _ _

theorem forM_returns {α : Type} {check : α → Result Unit} {items : List α}
    (each : ∀ item ∈ items, (check item).Returns) :
    (items.forM check).Returns := by
  induction items with
  | nil => exact Run.returns_pure _
  | cons item items induction =>
      exact (each item List.mem_cons_self).bind fun _ _ =>
        induction fun item member => each item (List.mem_cons_of_mem _ member)

/-- A CPU of a map with the four keys has one of them. -/
theorem CpuMap.few_of_keys {cpus : CpuMap} (keys : cpus.keys = [0, 1, 2, 3]) :
    ∀ cpu ∈ cpus, cpu.1 ≤ 3 := by
  intro cpu member
  have key : cpu.1 ∈ cpus.keys := List.mem_map_of_mem member
  rw [keys] at key
  simp only [List.mem_cons, List.not_mem_nil, or_false] at key
  omega

theorem spinTableContract_returns (root : ContractNode) :
    (spinTableContract root).Returns := by
  unfold spinTableContract
  split
  · exact Run.returns_pure _
  · refine (ownedPage_returns root).bind fun base owned => ?_
    refine (cpuNodes_returns root).bind fun cpus read => ?_
    refine (Run.returns_ensure _ _).bind fun _ keys => ?_
    rw [Run.ensure_eq_ok] at keys
    obtain ⟨node, child, inside⟩ := cpuNodes_inside read
    rw [child]
    refine Run.Returns.bind (Run.returns_ok _) fun found same => ?_
    cases same
    refine (forM_returns fun cpu member => ?_).bind fun _ _ =>
      Run.returns_pure _
    exact checkLiveCpu_returns (ownedPage_lt owned)
      (CpuMap.few_of_keys keys cpu member) (inside cpu member)

/-- What holds of a contract that was found. -/
theorem spinTableContract_eq_some {root : ContractNode}
    {contract : SpinTableContract}
    (read : spinTableContract root = .ok (some contract)) :
    contract.base + 0x1000 < 2 ^ 64 ∧
      ∃ cpus, cpuNodes root = .ok cpus ∧ cpus.keys = [0, 1, 2, 3] := by
  unfold spinTableContract at read
  split at read
  · cases read
  · obtain ⟨base, owned, read⟩ := Run.bind_eq_ok.mp read
    obtain ⟨cpus, nodes, read⟩ := Run.bind_eq_ok.mp read
    obtain ⟨_, keys, read⟩ := Run.bind_eq_ok.mp read
    rw [Run.ensure_eq_ok] at keys
    obtain ⟨_, _, read⟩ := Run.bind_eq_ok.mp read
    obtain ⟨_, _, read⟩ := Run.bind_eq_ok.mp read
    cases read
    exact ⟨ownedPage_lt owned, cpus, nodes, keys⟩

/-! ## The reserved page -/

theorem nodeRanges_returns (node : ContractNode)
    (addressCells sizeCells : Nat) :
    (nodeRanges node addressCells sizeCells).Returns := by
  unfold nodeRanges
  split
  · exact decodeRegRanges_returns _ _ _
  · exact Run.returns_ok _

theorem checkReservation_returns (name : Bytes)
    (base stop addressCells sizeCells : Nat) (alreadyReserved : Bool)
    (node : ContractNode) : (checkReservation name base stop addressCells
      sizeCells alreadyReserved node).Returns := by
  refine (nodeRanges_returns _ _ _).bind fun _ _ => ?_
  split
  · exact (Run.returns_ensure _ _).bind fun _ _ => Run.returns_pure _
  · exact Run.returns_pure _

theorem newReservedMemory_returns (root : ContractNode) :
    (newReservedMemory root).Returns :=
  (root.cells_returns _ _).bind fun _ _ =>
    (root.cells_returns _ _).bind fun _ _ => Run.returns_pure _

theorem newReservedMemory_name {root reserved : ContractNode}
    (made : newReservedMemory root = .ok reserved) :
    reserved.name = nodeReservedMemory := by
  obtain ⟨_, _, made⟩ := Run.bind_eq_ok.mp made
  obtain ⟨_, _, made⟩ := Run.bind_eq_ok.mp made
  cases made
  rfl

theorem withReservedMemory_returns (root : ContractNode) :
    (withReservedMemory root).Returns := by
  unfold withReservedMemory
  split
  · exact (newReservedMemory_returns root).map _
  · exact Run.returns_ok _

/-- The root then has the node, and its other children are as before. -/
theorem withReservedMemory_child {root root' : ContractNode}
    (made : withReservedMemory root = .ok root') :
    (∃ reserved, root'.child nodeReservedMemory = some reserved) ∧
      ∀ other, other ≠ nodeReservedMemory →
        root'.child other = root.child other := by
  unfold withReservedMemory at made
  split at made
  · rename_i absent
    obtain ⟨reserved, new, rfl⟩ := Run.map_eq_ok.mp made
    have name := newReservedMemory_name new
    exact ⟨⟨reserved, ContractNode.child_push_of_none
        (Option.isNone_iff_eq_none.mp absent) name⟩,
      fun other different => ContractNode.child_push_of_ne
        (fun same => different (same.symm.trans name))⟩
  · rename_i present
    cases made
    exact ⟨Option.ne_none_iff_exists'.mp fun absent =>
      present (Option.isNone_iff_eq_none.mpr absent), fun _ _ => rfl⟩

theorem encodeCells_returns (value count : Nat) :
    (encodeCells value count).Returns := by
  unfold encodeCells
  split
  · exact Run.returns_ok _
  · split
    · exact Run.returns_ok _
    · exact Run.returns_fail _

theorem parkingNode_returns (name : Bytes)
    (base addressCells sizeCells : Nat) :
    (parkingNode name base addressCells sizeCells).Returns :=
  (encodeCells_returns _ _).bind fun _ _ =>
    (encodeCells_returns _ _).bind fun _ _ => Run.returns_pure _

theorem graftParkingReservation_returns (root : ContractNode)
    {contract : SpinTableContract}
    (page : contract.base + 0x1000 < 2 ^ 64) :
    (graftParkingReservation root contract).Returns := by
  refine (withReservedMemory_returns root).bind fun root' made => ?_
  obtain ⟨⟨reserved, child⟩, _⟩ := withReservedMemory_child made
  rw [child]
  refine (reservedCells_returns root' reserved).bind fun cells _ => ?_
  obtain ⟨addressCells, sizeCells⟩ := cells
  dsimp only
  rw [addOrPanic_of (by unfold wordSize spinTableBytes; omega), Run.ok_bind]
  refine (Run.Returns.foldlM (fun _ => True)
    (fun _ _ _ => checkReservation_returns _ _ _ _ _ _ _)
    (fun _ _ _ _ _ => trivial) trivial).bind fun alreadyReserved _ => ?_
  split
  · exact Run.returns_pure _
  · exact (parkingNode_returns _ _ _ _).bind fun _ _ => Run.returns_pure _

/-- The page changes only what is under `/reserved-memory`. -/
theorem graftParkingReservation_child {root root' : ContractNode}
    {contract : SpinTableContract}
    (grafted : graftParkingReservation root contract = .ok root')
    {other : Bytes} (different : other ≠ nodeReservedMemory) :
    root'.child other = root.child other := by
  obtain ⟨middle, made, grafted⟩ := Run.bind_eq_ok.mp grafted
  have same := (withReservedMemory_child made).2 other different
  obtain ⟨_, _, grafted⟩ := Run.bind_eq_ok.mp grafted
  obtain ⟨_, _, grafted⟩ := Run.bind_eq_ok.mp grafted
  obtain ⟨_, _, grafted⟩ := Run.bind_eq_ok.mp grafted
  obtain ⟨alreadyReserved, _, grafted⟩ := Run.bind_eq_ok.mp grafted
  split at grafted
  · cases grafted
    exact same
  · obtain ⟨node, _, grafted⟩ := Run.bind_eq_ok.mp grafted
    cases grafted
    exact (ContractNode.child_changeChild_of_ne
      (fun reserved => ContractNode.name_push reserved node)
      different).trans same

theorem cpuNodes_congr {root root' : ContractNode}
    (same : root'.child nodeCpus = root.child nodeCpus) :
    cpuNodes root' = cpuNodes root := by
  unfold cpuNodes
  rw [same]

theorem nodeCpus_ne : nodeCpus ≠ nodeReservedMemory := by decide

theorem checkMapRange_returns (base stop : Nat) (alreadyReserved : Bool)
    (range : Nat × Nat) :
    (checkMapRange base stop alreadyReserved range).Returns := by
  unfold checkMapRange
  split
  · exact (Run.returns_ensure _ _).bind fun _ _ => Run.returns_pure _
  · exact Run.returns_pure _

theorem validateParkingReserveMap_returns (dtb : Bytes)
    {contract : SpinTableContract}
    (page : contract.base + 0x1000 < 2 ^ 64) :
    (validateParkingReserveMap dtb contract).Returns := by
  refine (headerParse_returns dtb).bind fun header parsed => ?_
  obtain ⟨rfl, accepted⟩ := headerParse_eq_ok.mp parsed
  rw [addOrPanic_of (by unfold wordSize spinTableBytes; omega), Run.ok_bind]
  refine (reserveMapRanges_returns accepted).bind fun ranges _ => ?_
  exact Run.Returns.foldlM (fun _ => True)
    (fun _ _ _ => checkMapRange_returns _ _ _ _)
    (fun _ _ _ _ _ => trivial) trivial

/-! ## The target -/

theorem graftCpu_returns {contract : SpinTableContract}
    {providers : List PowerDomainProvider} {children : List ContractNode}
    {item : Nat × Nat} (page : contract.base + 0x1000 < 2 ^ 64)
    (small : SmallCells providers) (few : item.1 ≤ 3)
    (inside : item.2 < children.length) :
    (graftCpu contract providers children item).Returns := by
  rw [graftCpu, indexOrPanic_of inside, Run.ok_bind,
    releaseAddr_of page few, Run.ok_bind]
  exact (removePsciCpuDomains_returns _ small).bind fun _ _ =>
    Run.returns_pure _

theorem graftCpu_length {contract : SpinTableContract}
    {providers : List PowerDomainProvider}
    {children children' : List ContractNode} {item : Nat × Nat}
    (step : graftCpu contract providers children item = .ok children') :
    children'.length = children.length := by
  obtain ⟨_, _, step⟩ := Run.bind_eq_ok.mp step
  obtain ⟨_, _, step⟩ := Run.bind_eq_ok.mp step
  obtain ⟨_, _, step⟩ := Run.bind_eq_ok.mp step
  cases step
  exact List.length_set

theorem foldlM_graftCpu_returns {contract : SpinTableContract}
    {providers : List PowerDomainProvider}
    (page : contract.base + 0x1000 < 2 ^ 64) (small : SmallCells providers) :
    ∀ {cpus : CpuMap} {children : List ContractNode},
      (∀ cpu ∈ cpus, cpu.1 ≤ 3) → cpus.Inside children.length →
      (cpus.foldlM (graftCpu contract providers) children).Returns
  | [], children, _, _ => Run.returns_pure _
  | cpu :: cpus, children, few, inside => by
      rw [List.foldlM_cons]
      refine (graftCpu_returns page small (few cpu List.mem_cons_self)
        (inside cpu List.mem_cons_self)).bind fun children' step => ?_
      refine foldlM_graftCpu_returns page small
        (fun cpu member => few cpu (List.mem_cons_of_mem _ member)) ?_
      intro cpu member
      rw [graftCpu_length step]
      exact inside cpu (List.mem_cons_of_mem _ member)

theorem graftedTree_returns {target : ContractNode} {targetCpus : CpuMap}
    {contract : SpinTableContract} (page : contract.base + 0x1000 < 2 ^ 64)
    (read : cpuNodes target = .ok targetCpus)
    (keys : targetCpus.keys = [0, 1, 2, 3]) :
    (graftedTree target targetCpus contract).Returns := by
  refine (powerDomainProviders_returns target).bind fun providers found => ?_
  obtain ⟨cpus, child, inside⟩ := cpuNodes_inside read
  rw [child]
  refine Run.Returns.bind (Run.returns_ok _) fun _ same => ?_
  cases same
  refine (foldlM_graftCpu_returns page (powerDomainProviders_smallCells found)
    (CpuMap.few_of_keys keys) inside).bind fun children _ => ?_
  exact graftParkingReservation_returns _ page

theorem graftedReserveMap_returns (dtb : Bytes)
    {contract : SpinTableContract}
    (page : contract.base + 0x1000 < 2 ^ 64) :
    (graftedReserveMap dtb contract).Returns := by
  refine (headerParse_returns dtb).bind fun header parsed => ?_
  obtain ⟨rfl, accepted⟩ := headerParse_eq_ok.mp parsed
  refine (reserveMap_returns accepted).bind fun map read => ?_
  obtain ⟨entries, _, rfl⟩ := (reserveMap_eq_ok accepted).mp read
  refine (validateParkingReserveMap_returns dtb page).bind
    fun alreadyReserved _ => ?_
  split
  · exact Run.returns_pure _
  · have length := reserveMapBytes_length entries
    rw [subOrPanic_of (by omega), Run.ok_bind]
    exact Run.returns_pure _

/-- A new reserve map has whole entries. -/
theorem graftedReserveMap_aligned {dtb map : Bytes}
    {contract : SpinTableContract}
    (read : graftedReserveMap dtb contract = .ok map) :
    map.length % 4 = 0 := by
  obtain ⟨header, parsed, read⟩ := Run.bind_eq_ok.mp read
  obtain ⟨rfl, accepted⟩ := headerParse_eq_ok.mp parsed
  obtain ⟨kept, held, read⟩ := Run.bind_eq_ok.mp read
  obtain ⟨entries, _, rfl⟩ := (reserveMap_eq_ok accepted).mp held
  have length := reserveMapBytes_length entries
  obtain ⟨alreadyReserved, _, read⟩ := Run.bind_eq_ok.mp read
  split at read
  · cases read
    omega
  · rw [subOrPanic_of (by omega), Run.ok_bind] at read
    cases read
    simp only [List.length_append, List.length_take, Bytes.toBe_length,
      List.length_replicate]
    omega

theorem bootsFromZero_returns (dtb liveDtb : Bytes) :
    (bootsFromZero dtb liveDtb).Returns := by
  refine (headerParse_returns liveDtb).bind fun _ _ => ?_
  split
  · exact (headerParse_returns dtb).bind fun _ _ => Run.returns_pure _
  · exact Run.returns_pure _

theorem graftSpinTable_returns (dtb liveDtb : Bytes) :
    (graftSpinTable dtb liveDtb).Returns := by
  refine (contractTree_returns liveDtb).bind fun live _ => ?_
  refine (spinTableContract_returns live).bind fun found contracted => ?_
  cases found with
  | none => exact Run.returns_pure _
  | some contract =>
      obtain ⟨page, cpus, nodes, keys⟩ := spinTableContract_eq_some contracted
      refine (bootsFromZero_returns dtb liveDtb).bind fun _ _ => ?_
      refine (Run.returns_ensure _ _).bind fun _ _ => ?_
      refine (graftParkingReservation_returns live page).bind
        fun live' grafted => ?_
      refine (validateParkingReserveMap_returns liveDtb page).bind
        fun _ _ => ?_
      refine (contractTree_returns dtb).bind fun target _ => ?_
      rw [cpuNodes_congr (graftParkingReservation_child grafted nodeCpus_ne),
        nodes, Run.ok_bind]
      refine (cpuNodes_returns target).bind fun targetCpus read => ?_
      refine (Run.returns_ensure _ _).bind fun _ same => ?_
      rw [Run.ensure_eq_ok, keys] at same
      refine (graftedTree_returns page read same.symm).bind
        fun target' _ => ?_
      refine (graftedReserveMap_returns dtb page).bind fun map made => ?_
      exact buildContractTree_returns dtb target'
        (graftedReserveMap_aligned made)

/-- `patch_chosen`, `graft_spin_table` and `reserved_ranges` end in a value or
an error on every input. -/
theorem treeFunctions_return (dtb liveDtb : Bytes) (cmdline : Str)
    (initrd : Option (Nat × Nat)) :
    (patchChosen dtb cmdline initrd).Returns ∧
      (graftSpinTable dtb liveDtb).Returns ∧ (reservedRanges dtb).Returns :=
  ⟨patchChosen_returns dtb cmdline initrd,
    graftSpinTable_returns dtb liveDtb, reservedRanges_returns dtb⟩

end Pocketboot.Kexec
