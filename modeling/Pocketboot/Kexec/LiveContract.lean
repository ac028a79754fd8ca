import Pocketboot.Kexec.Regraft

/-!
# The contract of a grafted tree

A tree that was loaded becomes the running one, and the next load reads its
contract.  It finds the page it was handed, as long as the node that owns the
page has one range in its `reg` and the enabled CPUs are still all four.
-/

namespace Pocketboot.Kexec

open DeviceTree

section

variable {contract : SpinTableContract} {root reserved live : ContractNode}
  {providers : List PowerDomainProvider} {addressCells sizeCells : Nat}

/-! ## The page -/

theorem isContract_of_ownsPage {node : ContractNode}
    (owns : ownsPage node = true) : isContract node = true := by
  simp only [ownsPage, Bool.and_eq_true] at owns
  have names : (node.get propCompatible).any (fun list =>
      (list.splitOn 0).any (· = spinTableCompat)) = true := owns.1.1.2
  unfold isContract
  cases present : node.get propCompatible with
  | none =>
      rw [present] at names
      cases names
  | some value =>
      rw [present, Option.any_some, List.any_eq_true] at names
      obtain ⟨item, member, same⟩ := names
      rw [Option.any_some, List.any_eq_true]
      exact ⟨item, member, of_decide_eq_true same ▸ by decide⟩

theorem ownedPage_aligned {base : Nat} (read : ownedPage root = .ok base) :
    base ≠ 0 ∧ base % spinTableBytes = 0 := by
  obtain ⟨_, _, read⟩ := Run.bind_eq_ok.mp read
  obtain ⟨_, _, read⟩ := Run.bind_eq_ok.mp read
  obtain ⟨_, _, read⟩ := Run.bind_eq_ok.mp read
  obtain ⟨_, _, read⟩ := Run.bind_eq_ok.mp read
  obtain ⟨_, _, read⟩ := Run.bind_eq_ok.mp read
  obtain ⟨_, _, read⟩ := Run.bind_eq_ok.mp read
  obtain ⟨ranges, _, read⟩ := Run.bind_eq_ok.mp read
  obtain ⟨_, _, next⟩ := Run.bind_eq_ok.mp read
  obtain ⟨_, _, read⟩ := Run.bind_eq_ok.mp next
  obtain ⟨range, _, read⟩ := Run.bind_eq_ok.mp read
  obtain ⟨_, page, next⟩ := Run.bind_eq_ok.mp read
  obtain ⟨_, accepted, read⟩ := Run.bind_eq_ok.mp next
  rw [Run.ensure_eq_ok] at accepted
  subst accepted
  cases read
  unfold isAlignedPage at page
  split at page
  · assumption
  · cases page

/-- The page of a contract is the one its node owns. -/
theorem ownedPage_of_contract
    (found : spinTableContract root = .ok (some contract)) :
    ownedPage root = .ok contract.base := by
  unfold spinTableContract at found
  split at found
  · cases found
  · obtain ⟨base, owned, found⟩ := Run.bind_eq_ok.mp found
    obtain ⟨_, _, found⟩ := Run.bind_eq_ok.mp found
    obtain ⟨_, _, found⟩ := Run.bind_eq_ok.mp found
    obtain ⟨_, _, found⟩ := Run.bind_eq_ok.mp found
    obtain ⟨_, _, found⟩ := Run.bind_eq_ok.mp found
    cases found
    exact owned

theorem isAlignedPage_of
    (aligned : contract.base ≠ 0 ∧ contract.base % spinTableBytes = 0) :
    isAlignedPage contract.base contract.stop = .ok true := by
  have ends : contract.stop - contract.base = spinTableBytes :=
    Nat.add_sub_cancel_left _ _
  have ordered : contract.base ≤ contract.stop := Nat.le_add_right _ _
  rw [isAlignedPage, if_pos aligned, subOrPanic_of ordered, Run.ok_bind, ends]
  rfl

theorem isSingleRange_one (reg : Bytes) (range : Nat × Nat)
    (address : addressCells ≤ 2) (size : sizeCells ≤ 2) :
    isSingleRange reg [range] addressCells sizeCells =
      .ok (reg.length = (addressCells + sizeCells) * 4) := by
  have cells : (addOrPanic (2 ^ 32) addressCells sizeCells : Result Nat) =
      .ok (addressCells + sizeCells) := addOrPanic_of (by omega)
  have bytes : (mulOrPanic wordSize (addressCells + sizeCells) 4 :
      Result Nat) = .ok ((addressCells + sizeCells) * 4) :=
    mulOrPanic_of (by unfold wordSize; omega)
  rw [isSingleRange, if_pos List.length_singleton, cells, Run.ok_bind, bytes]
  rfl

/-- The node that owns the page has the `reg` of one range. -/
def OneRange (reserved : ContractNode) (addressCells sizeCells : Nat) : Prop :=
  ∀ owner ∈ reserved.children, isContract owner = true →
    ∀ reg, owner.get propReg = some reg →
      reg.length = (addressCells + sizeCells) * 4

/-- The page is found again exactly where its node has one range. -/
theorem Reserves.ownedPage
    (aligned : contract.base ≠ 0 ∧ contract.base % spinTableBytes = 0)
    (reserves : Reserves contract root reserved addressCells sizeCells) :
    ownedPage root = .ok contract.base ↔
      OneRange reserved addressCells sizeCells := by
  obtain ⟨before, owner, after, children, owns, others⟩ := reserves.owned
  have small := reservedCells_le reserves.cells
  have claims := isContract_of_ownsPage owns.owner
  have alone : reserved.children.filter isContract = [owner] := by
    have clear : ∀ nodes : List ContractNode,
        (∀ node ∈ nodes, ClearOf contract addressCells sizeCells node) →
          nodes.filter isContract = [] := by
      intro nodes clear
      rw [List.filter_eq_nil_iff]
      intro node member
      simp [(clear node member).other]
    rw [children, List.filter_append, List.filter_cons_of_pos claims,
      clear before fun node member => others node
        (List.mem_append_left _ member),
      clear after fun node member => others node
        (List.mem_append_right _ member), List.nil_append]
  have only : OneRange reserved addressCells sizeCells ↔
      ∀ reg, owner.get propReg = some reg →
        reg.length = (addressCells + sizeCells) * 4 := by
    constructor
    · intro every
      exact every owner (children ▸ by simp) claims
    · intro one node member claims'
      obtain rfl : node = owner :=
        List.mem_singleton.mp (alone ▸ List.mem_filter.mpr ⟨member, claims'⟩)
      exact one
  have ranges := owns.ranges
  unfold nodeRanges at ranges
  cases present : owner.get propReg with
  | none =>
      rw [present] at ranges
      cases ranges
  | some reg =>
      rw [present] at ranges
      have single := isSingleRange_one reg (contract.base, contract.stop)
        small.1 small.2
      have paged := isAlignedPage_of aligned
      have first : (indexOrPanic [(contract.base, contract.stop)] 0 :
          Result (Nat × Nat)) = .ok (contract.base, contract.stop) := rfl
      rw [only, Kexec.ownedPage, reserves.child, Option.map_some,
        Option.getD_some, alone, Run.ensure_of (by simp), Run.ok_bind,
        List.head?_cons]
      simp only [Run.ofOption, Run.ok_bind, unwrapOrPanic,
        Run.ensure_of owns.owner, reserves.cells, present, ranges, single,
        first, paged]
      constructor
      · intro read reg' same
        obtain ⟨_, one, _⟩ := Run.bind_eq_ok.mp read
        rw [Run.ensure_eq_ok] at one
        cases same
        exact of_decide_eq_true one
      · intro one
        rw [Run.ensure_of (decide_eq_true (one reg rfl)), Run.ok_bind,
          Run.ensure_of trivial]
        rfl

/-! ## The CPUs -/

theorem forM_eq_ok {α : Type} {check : α → Result Unit} {items : List α}
    (each : ∀ item ∈ items, check item = .ok ()) :
    items.forM check = .ok () := by
  induction items with
  | nil => rfl
  | cons item items induction =>
      change (check item >>= fun _ => items.forM check) = .ok ()
      rw [each item List.mem_cons_self, Run.ok_bind]
      apply induction
      intro item member
      exact each item (List.mem_cons_of_mem _ member)

section

variable {cpus : ContractNode} {map : CpuMap}

/-- An entry of the map is an enabled CPU at its position. -/
theorem CpusOf.cpu_of_mem (of : CpusOf root cpus map) {item : Nat × Nat}
    (member : item ∈ map) : ∃ cpu, cpus.children[item.2]? = some cpu ∧
      isCpu cpu = true ∧ mpidrOf cpu = item.1 := by
  obtain ⟨⟨cpu, index⟩, placed, entry⟩ :=
    List.mem_filterMap.mp (of.entries.mem_iff.mp member)
  unfold cpuEntry at entry
  split at entry
  · rename_i enabled
    cases entry
    exact ⟨cpu, List.mem_zipIdx_iff_getElem?.mp placed, enabled, rfl⟩
  · cases entry

/-- CPUs that boot from the page pass the checks of the running tree. -/
theorem CpusOf.checked (of : CpusOf root cpus map)
    (boots : ∀ cpu ∈ cpus.children, isCpu cpu = true →
      BootsFrom contract providers cpu) :
    map.forM (checkLiveCpu cpus.children contract.base) = .ok () := by
  apply forM_eq_ok
  intro item member
  obtain ⟨cpu, placed, enabled, mpidr⟩ := of.cpu_of_mem member
  have from_page := boots cpu (List.mem_of_getElem? placed) enabled
  obtain ⟨address, released, stored⟩ := from_page.releaseAddress
  rw [mpidr] at released
  rw [checkLiveCpu, indexOrPanic, placed, Run.ok_bind, released, Run.ok_bind,
    Run.ensure_of ⟨from_page.enableMethod, stored⟩]

theorem CpusOf.hasSpinTableCpu (of : CpusOf root cpus map)
    (keys : map.keys = [0, 1, 2, 3])
    (boots : ∀ cpu ∈ cpus.children, isCpu cpu = true →
      BootsFrom contract providers cpu) : hasSpinTableCpu root = true := by
  cases map with
  | nil => cases keys
  | cons item map =>
      obtain ⟨cpu, placed, enabled, _⟩ := of.cpu_of_mem List.mem_cons_self
      have member := List.mem_of_getElem? placed
      have method := (boots cpu member enabled).enableMethod
      rw [isCpu, Bool.and_eq_true, decide_eq_true_eq] at enabled
      rw [Kexec.hasSpinTableCpu, of.child, Option.any_some,
        List.any_eq_true]
      exact ⟨cpu, member, by simp [enabled.1, enabled.2, method]⟩

end

/-- A tree that reserves the page, and whose CPUs boot from it, has the
contract exactly when its CPUs and its page can be read. -/
theorem Reserves.spinTableContract
    (aligned : contract.base ≠ 0 ∧ contract.base % spinTableBytes = 0)
    (reserves : Reserves contract root reserved addressCells sizeCells)
    (boots : ∀ cpus, root.child nodeCpus = some cpus →
      ∀ cpu ∈ cpus.children, isCpu cpu = true →
        BootsFrom contract providers cpu) :
    spinTableContract root = .ok (some contract) ↔
      (∃ map, cpuNodes root = .ok map ∧ map.keys = [0, 1, 2, 3]) ∧
        OneRange reserved addressCells sizeCells := by
  constructor
  · intro found
    refine ⟨(spinTableContract_eq_some found).2, ?_⟩
    rw [← reserves.ownedPage aligned]
    exact ownedPage_of_contract found
  · rintro ⟨⟨map, nodes, keys⟩, one⟩
    obtain ⟨cpus, of⟩ := cpuNodes_cpusOf nodes
    have boots := boots cpus of.child
    rw [Kexec.spinTableContract, of.hasSpinTableCpu keys boots, if_neg (by simp),
      (reserves.ownedPage aligned).mpr one, Run.ok_bind, nodes, Run.ok_bind,
      Run.ensure_of keys, Run.ok_bind, of.child, unwrapOrPanic, Run.ok_bind]
    change (map.forM (checkLiveCpu cpus.children contract.base) >>= _) = _
    rw [of.checked boots]
    rfl

end

/-- The blob of a run has the contract of the running tree itself, exactly when
its four CPUs are still enabled and the node of the page has one range. -/
theorem graftSpinTable_keepsContract (dtb liveDtb blob : Bytes)
    (live : ContractNode) (contract : SpinTableContract)
    (grafted : graftSpinTable dtb liveDtb = .ok blob)
    (held : contractTree liveDtb = .ok live)
    (found : spinTableContract live = .ok (some contract)) :
    ∃ root reserved addressCells sizeCells, contractTree blob = .ok root ∧
      Reserves contract root reserved addressCells sizeCells ∧
      (spinTableContract root = .ok (some contract) ↔
        (∃ map, cpuNodes root = .ok map ∧ map.keys = [0, 1, 2, 3]) ∧
          OneRange reserved addressCells sizeCells) := by
  have aligned := ownedPage_aligned (ownedPage_of_contract found)
  obtain ⟨target, root, entries, hands⟩ :=
    handsOver_of_contract grafted held found
  obtain ⟨providers, _, carries⟩ := hands.tree
  obtain ⟨reserved, addressCells, sizeCells, reserves⟩ := carries.page
  obtain ⟨map, nodes, _⟩ := hands.cpus
  obtain ⟨before, of⟩ := cpuNodes_cpusOf nodes
  have boots : ∀ cpus, root.child nodeCpus = some cpus →
      ∀ cpu ∈ cpus.children, isCpu cpu = true →
        BootsFrom contract providers cpu := by
    intro cpus child cpu member enabled
    exact carries.boots ⟨before, of.child⟩ child member enabled
  exact ⟨root, reserved, addressCells, sizeCells, hands.laid.tree,
    reserves, reserves.spinTableContract aligned boots⟩

theorem graftSpinTable_keepsContract_board :
    ∃ root reserved addressCells sizeCells,
      contractTree handedBlob = .ok root ∧
      Reserves ⟨0x8f000000⟩ root reserved addressCells sizeCells ∧
      (spinTableContract root = .ok (some ⟨0x8f000000⟩) ↔
        (∃ map, cpuNodes root = .ok map ∧ map.keys = [0, 1, 2, 3]) ∧
          OneRange reserved addressCells sizeCells) := by
  obtain ⟨live, held, found⟩ := Run.bind_eq_ok.mp boardTree_contract
  exact graftSpinTable_keepsContract _ _ _ live _ handedBlob_grafted held found

end Pocketboot.Kexec
