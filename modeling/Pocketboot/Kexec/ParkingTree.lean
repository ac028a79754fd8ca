import Pocketboot.Kexec.ParkingPage

/-!
# The tree with the parking page

After `graft_parking_reservation` the root reserves the page.  A root that
reserves it already is not changed, and the nodes that are added are neither
PSCI nodes nor power-domain providers.
-/

namespace Pocketboot.Kexec

open DeviceTree

/-- The root reserves the page, with these numbers of cells. -/
structure Reserves (contract : SpinTableContract) (root : ContractNode)
    (reserved : ContractNode) (addressCells sizeCells : Nat) : Prop where
  child : root.child nodeReservedMemory = some reserved
  cells : reservedCells root reserved = .ok (addressCells, sizeCells)
  owned : OneOwns contract addressCells sizeCells reserved.children

section

variable {contract : SpinTableContract} {root root' : ContractNode}
  {reserved reserved' : ContractNode} {addressCells sizeCells : Nat}

/-- The cells are read from the properties of both nodes. -/
theorem reservedCells_congr (rootSame : root'.props = root.props)
    (same : reserved'.props = reserved.props) :
    reservedCells root' reserved' = reservedCells root reserved := by
  cases root
  cases root'
  cases reserved
  cases reserved'
  cases rootSame
  cases same
  rfl

/-- What a run did: the page was reserved already, or its node is new. -/
structure Parked (contract : SpinTableContract) (middle reserved : ContractNode)
    (addressCells sizeCells : Nat) (root' : ContractNode) : Prop where
  child : middle.child nodeReservedMemory = some reserved
  cells : reservedCells middle reserved = .ok (addressCells, sizeCells)
  result : OneOwns contract addressCells sizeCells reserved.children ∧
      root' = middle ∨
    (∀ node ∈ reserved.children,
        ClearOf contract addressCells sizeCells node) ∧
      ∃ node, parkingNode (parkingName contract.base) contract.base
          addressCells sizeCells = .ok node ∧
        root' = middle.changeChild nodeReservedMemory (·.push node)

theorem graftParkingReservation_eq_ok (page : contract.stop < 2 ^ 64) :
    graftParkingReservation root contract = .ok root' ↔
      ∃ middle reserved addressCells sizeCells,
        withReservedMemory root = .ok middle ∧
          Parked contract middle reserved addressCells sizeCells root' := by
  unfold SpinTableContract.stop at page
  have stop : (addOrPanic wordSize contract.base spinTableBytes :
      Result Nat) = .ok contract.stop :=
    addOrPanic_of (by unfold wordSize; omega)
  rw [graftParkingReservation, Run.bind_eq_ok]
  constructor
  · rintro ⟨middle, made, returns⟩
    obtain ⟨reserved, child, returns⟩ := Run.bind_eq_ok.mp returns
    obtain ⟨⟨addressCells, sizeCells⟩, cells, returns⟩ :=
      Run.bind_eq_ok.mp returns
    dsimp only at returns
    rw [stop, Run.ok_bind] at returns
    obtain ⟨already, checked, returns⟩ := Run.bind_eq_ok.mp returns
    have found : middle.child nodeReservedMemory = some reserved := by
      cases present : middle.child nodeReservedMemory with
      | none =>
          rw [present] at child
          cases child
      | some other =>
          rw [present] at child
          cases child
          rfl
    refine ⟨middle, reserved, addressCells, sizeCells, made, found, cells, ?_⟩
    obtain ⟨clear, rfl⟩ | ⟨owned, rfl⟩ := foldlM_checkReservation.mp checked
    · rw [if_neg (by decide)] at returns
      obtain ⟨node, new, same⟩ := Run.bind_eq_ok.mp returns
      cases same
      exact .inr ⟨clear, node, new, rfl⟩
    · rw [if_pos rfl] at returns
      cases returns
      exact .inl ⟨owned, rfl⟩
  · rintro ⟨middle, reserved, addressCells, sizeCells, made, parked⟩
    refine ⟨middle, made, ?_⟩
    rw [parked.child]
    change (Except.ok reserved >>= _) = _
    rw [Run.ok_bind, parked.cells, Run.ok_bind]
    dsimp only
    rw [stop, Run.ok_bind]
    obtain ⟨owned, rfl⟩ | ⟨clear, node, new, rfl⟩ := parked.result
    · rw [foldlM_checkReservation.mpr (.inr ⟨owned, rfl⟩), Run.ok_bind,
        if_pos rfl]
      rfl
    · rw [foldlM_checkReservation.mpr (.inl ⟨clear, rfl⟩), Run.ok_bind,
        if_neg (by decide), new, Run.ok_bind]
      rfl

/-- The root that is returned reserves the page. -/
theorem Parked.reserves (page : contract.stop < 2 ^ 64) {middle : ContractNode}
    (parked : Parked contract middle reserved addressCells sizeCells root') :
    ∃ reserved', Reserves contract root' reserved' addressCells sizeCells := by
  obtain ⟨owned, rfl⟩ | ⟨clear, node, new, rfl⟩ := parked.result
  · exact ⟨reserved, parked.child, parked.cells, owned⟩
  · refine ⟨reserved.push node, ?_, ?_, reserved.children, node, [], rfl,
      parkingNode_owns page new, by simpa using clear⟩
    · rw [ContractNode.child_changeChild_self
        (fun child => ContractNode.name_push child node), parked.child]
      rfl
    · rw [← parked.cells]
      exact reservedCells_congr rfl rfl

/-- A root that reserves the page is not changed. -/
theorem Reserves.fixed (page : contract.stop < 2 ^ 64)
    (reserves : Reserves contract root reserved addressCells sizeCells) :
    graftParkingReservation root contract = .ok root := by
  rw [graftParkingReservation_eq_ok page]
  refine ⟨root, reserved, addressCells, sizeCells, ?_, reserves.child,
    reserves.cells, .inl ⟨reserves.owned, rfl⟩⟩
  rw [withReservedMemory, reserves.child, if_neg (by simp)]

end

/-! ## A new `/reserved-memory` -/

section

variable {root reserved : ContractNode}

/-- The names of the properties of a new `/reserved-memory`. -/
def reservedKeys : List Bytes :=
  [propAddressCells, propSizeCells, propRanges]

theorem newReservedMemory_get
    (made : newReservedMemory root = .ok reserved) :
    reserved.children = [] ∧
      ∀ key ∉ reservedKeys, reserved.get key = none := by
  obtain ⟨_, _, made⟩ := Run.bind_eq_ok.mp made
  obtain ⟨_, _, made⟩ := Run.bind_eq_ok.mp made
  cases made
  refine ⟨rfl, fun key other => ?_⟩
  simp only [reservedKeys, List.mem_cons, List.not_mem_nil, or_false,
    not_or] at other
  rw [ContractNode.get_set_of_ne other.2.2,
    ContractNode.get_set_of_ne other.2.1, ContractNode.get_set_of_ne other.1]
  rfl

theorem newReservedMemory_canonical {room : Nat}
    (made : newReservedMemory root = .ok reserved) :
    reserved.Canonical (room + 1) := by
  obtain ⟨_, _, made⟩ := Run.bind_eq_ok.mp made
  obtain ⟨_, _, made⟩ := Run.bind_eq_ok.mp made
  cases made
  have empty : (ContractNode.new nodeReservedMemory).Canonical (room + 1) :=
    .mk (by decide) (by simp) (by simp) (by simp) (by simp)
  exact ((empty.set (by decide)).set (by decide)).set (by decide)

end

/-! ## What the new nodes leave alone -/

/-- A node without children that is no PSCI node and no provider. -/
structure Plain (node : ContractNode) : Prop where
  childless : node.children = []
  notPsci : isPsci node = false
  notIdle : isPsciIdleState node = false
  cells : node.get propPowerDomainCells = none

section

variable {contract : SpinTableContract} {node child : ContractNode}
  {addressCells sizeCells : Nat}

theorem isPsci_of_get (absent : node.get propCompatible = none) :
    isPsci node = false := by
  unfold isPsci
  rw [List.any_eq_false]
  intro value _
  unfold ContractNode.compatible
  change ¬ (node.get propCompatible).any _ = true
  rw [absent]
  simp

theorem parkingNode_plain {name : Bytes} {base : Nat}
    (made : parkingNode name base addressCells sizeCells = .ok node) :
    Plain node := by
  obtain ⟨compatible, noMap, others⟩ := parkingNode_get made
  refine ⟨?_, ?_, ?_, others _ (by decide)⟩
  · obtain ⟨_, _, made⟩ := Run.bind_eq_ok.mp made
    obtain ⟨_, _, made⟩ := Run.bind_eq_ok.mp made
    cases made
    rfl
  · unfold isPsci
    rw [List.any_eq_false]
    intro value psci
    unfold ContractNode.compatible
    change ¬ (node.get propCompatible).any _ = true
    rw [compatible]
    revert value
    decide
  · rw [isPsciIdleState, others _ (by decide), others _ (by decide)]
    rfl

theorem newReservedMemory_plain {root : ContractNode}
    (made : newReservedMemory root = .ok node) : Plain node := by
  obtain ⟨childless, others⟩ := newReservedMemory_get made
  refine ⟨childless, isPsci_of_get (others _ (by decide)), ?_,
    others _ (by decide)⟩
  rw [isPsciIdleState, others _ (by decide), others _ (by decide)]
  rfl

theorem Plain.settled (plain : Plain node) :
    isPsciIdleState node = false ∧ disablePsci node = node := by
  refine ⟨plain.notIdle, disablePsci_eq_self ?_ ?_⟩
  · intro psci
    rw [plain.notPsci] at psci
    cases psci
  · rw [plain.childless]
    simp

theorem Plain.providerKeys (plain : Plain node) (psci : Bool) :
    providerKeys psci node = [] := by
  rw [providerKeys_eq, plain.childless, List.flatMap_nil, List.append_nil]
  unfold providerKey
  dsimp only
  rw [plain.cells]
  rfl

/-- The children of a node that is not changed are not changed either. -/
theorem settled_children (settled : disablePsci node = node) :
    ∀ child ∈ node.children,
      isPsciIdleState child = false ∧ disablePsci child = child := by
  have list := congrArg ContractNode.children settled
  rw [disablePsci_children] at list
  have below := disablePsciAll_settled node.children
  rwa [list] at below

theorem settled_marked (settled : disablePsci node = node)
    (psci : isPsci node = true) : node.get propStatus = some disabledStatus := by
  rw [← settled] at psci ⊢
  exact disablePsci_marked psci

/-- Children that are not changed may be exchanged. -/
theorem settled_withChildren {children : List ContractNode}
    (settled : disablePsci node = node)
    (below : ∀ child ∈ children,
      isPsciIdleState child = false ∧ disablePsci child = child) :
    disablePsci { node with children } = { node with children } :=
  disablePsci_eq_self
    (fun psci => @settled_marked node settled
      ((@isPsci_congr { node with children } node rfl).trans psci)) below

theorem settled_push (settled : disablePsci node = node)
    (added : isPsciIdleState child = false ∧ disablePsci child = child) :
    disablePsci (node.push child) = node.push child := by
  refine settled_withChildren settled fun other member => ?_
  rcases List.mem_append.mp member with member | member
  · exact settled_children settled other member
  · exact List.mem_singleton.mp member ▸ added

/-- The providers of a node with one more child. -/
theorem providerKeys_push (plain : Plain child) (psci : Bool) :
    providerKeys psci (node.push child) = providerKeys psci node := by
  refine @providerKeys_congr node (node.push child) (fun _ _ => rfl)
    (fun psci => ?_) psci
  rw [ContractNode.push, List.flatMap_append, List.flatMap_singleton,
    plain.providerKeys, List.append_nil]

theorem flatMap_changeFirst {name : Bytes} {psci : Bool}
    {change : ContractNode → ContractNode} {nodes : List ContractNode}
    (same : ∀ child, nodes.find? (·.name = name) = some child →
      providerKeys psci (change child) = providerKeys psci child) :
    (ContractNode.changeFirst name change nodes).flatMap (providerKeys psci) =
      nodes.flatMap (providerKeys psci) := by
  induction nodes with
  | nil => rfl
  | cons first nodes induction =>
      rw [ContractNode.changeFirst]
      split
      · rename_i named
        rw [List.flatMap_cons, List.flatMap_cons,
          same first (by simp [named])]
      · rename_i other
        rw [List.flatMap_cons, List.flatMap_cons, induction]
        intro child found
        exact same child (by simpa [other] using found)

/-- The providers of a node with one child changed. -/
theorem providerKeys_changeChild {name : Bytes}
    {change : ContractNode → ContractNode}
    (same : ∀ psci child, node.child name = some child →
      providerKeys psci (change child) = providerKeys psci child)
    (psci : Bool) :
    providerKeys psci (node.changeChild name change) =
      providerKeys psci node :=
  @providerKeys_congr node (node.changeChild name change) (fun _ _ => rfl)
    (fun psci => flatMap_changeFirst (same psci)) psci

end

/-! ## The whole run -/

section

variable {contract : SpinTableContract} {root root' : ContractNode}

/-- What stays of the root around the reservation. -/
structure KeepsRoot (root root' : ContractNode) : Prop where
  name : root'.name = root.name
  props : root'.props = root.props
  providers : ∀ psci, providerKeys psci root' = providerKeys psci root
  settled : disablePsci root = root → disablePsci root' = root'
  canonical : ∀ room, root.Canonical (room + 3) → root'.Canonical (room + 3)

theorem withReservedMemory_keeps {middle : ContractNode}
    (made : withReservedMemory root = .ok middle) : KeepsRoot root middle := by
  unfold withReservedMemory at made
  split at made
  · rename_i absent
    obtain ⟨reserved, new, rfl⟩ := Run.map_eq_ok.mp made
    have plain := newReservedMemory_plain new
    refine ⟨rfl, rfl, providerKeys_push plain,
      fun settled => settled_push settled plain.settled,
      fun room canonical => ?_⟩
    refine canonical.push (newReservedMemory_canonical new) ?_
    rw [newReservedMemory_name new]
    exact ContractNode.child_isNone.mp absent
  · cases made
    exact ⟨rfl, rfl, fun _ => rfl, id, fun _ => id⟩

theorem Parked.keeps {middle reserved : ContractNode}
    {addressCells sizeCells : Nat}
    (parked : Parked contract middle reserved addressCells sizeCells root') :
    KeepsRoot middle root' := by
  obtain ⟨_, rfl⟩ | ⟨clear, node, new, rfl⟩ := parked.result
  · exact ⟨rfl, rfl, fun _ => rfl, id, fun _ => id⟩
  · have plain := parkingNode_plain new
    refine ⟨rfl, rfl, ?_, fun settled => ?_, fun room canonical => ?_⟩
    · exact providerKeys_changeChild fun psci _ _ =>
        providerKeys_push plain psci
    · refine settled_withChildren settled fun child member => ?_
      have before := settled_children settled
      rcases ContractNode.mem_changeFirst member with
        member | ⟨found, among, _, _, rfl⟩
      · exact before child member
      · exact ⟨(before found among).1,
          settled_push (before found among).2 plain.settled⟩
    · refine canonical.changeChild (fun child =>
        ContractNode.name_push child node) fun child found => ?_
      cases parked.child.symm.trans found
      refine (canonical.inner reserved
        (ContractNode.child_mem found)).push
          (parkingNode_canonical (parkingName_noNul _) new) ?_
      intro member
      obtain ⟨other, among, same⟩ := List.mem_map.mp member
      exact (clear other among).name (same.trans (parkingNode_name new))

theorem KeepsRoot.trans {middle : ContractNode}
    (first : KeepsRoot root middle) (later : KeepsRoot middle root') :
    KeepsRoot root root' where
  name := later.name.trans first.name
  props := later.props.trans first.props
  providers psci := (later.providers psci).trans (first.providers psci)
  settled := later.settled ∘ first.settled
  canonical room := later.canonical room ∘ first.canonical room

/-- The reservation of the page, and what it leaves alone. -/
theorem graftParkingReservation_reserves (page : contract.stop < 2 ^ 64)
    (grafted : graftParkingReservation root contract = .ok root') :
    KeepsRoot root root' ∧ ∃ reserved addressCells sizeCells,
      Reserves contract root' reserved addressCells sizeCells := by
  obtain ⟨middle, reserved, addressCells, sizeCells, made, parked⟩ :=
    (graftParkingReservation_eq_ok page).mp grafted
  obtain ⟨reserved', reserves⟩ := parked.reserves page
  exact ⟨(withReservedMemory_keeps made).trans parked.keeps, reserved',
    addressCells, sizeCells, reserves⟩

end

end Pocketboot.Kexec
