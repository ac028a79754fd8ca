import Pocketboot.Kexec.Pruned
import Pocketboot.Kexec.Ranges

/-!
# The node of the parking page

`graft_parking_reservation` leaves one child of `/reserved-memory` that owns
the page of the contract, and no other child that touches the page or claims a
contract of its own.
-/

namespace Pocketboot.Kexec

open DeviceTree

/-- The end of the page. -/
def SpinTableContract.stop (contract : SpinTableContract) : Nat :=
  contract.base + spinTableBytes

/-! ## One child of `/reserved-memory` -/

/-- The child has nothing to do with the page. -/
structure ClearOf (contract : SpinTableContract) (addressCells sizeCells : Nat)
    (node : ContractNode) : Prop where
  ranges : ∃ ranges, nodeRanges node addressCells sizeCells = .ok ranges ∧
    ∀ range ∈ ranges, ¬ (range.1 < contract.stop ∧ contract.base < range.2)
  other : isContract node = false
  name : node.name ≠ parkingName contract.base

/-- The child reserves the page and nothing else. -/
structure Owns (contract : SpinTableContract) (addressCells sizeCells : Nat)
    (node : ContractNode) : Prop where
  owner : ownsPage node = true
  ranges : nodeRanges node addressCells sizeCells =
    .ok [(contract.base, contract.stop)]

section

variable {contract : SpinTableContract} {addressCells sizeCells : Nat}
  {node : ContractNode} {nodes : List ContractNode}
  {reservedBefore result : Bool}

theorem overlapsPage_iff {base stop : Nat} {range : Nat × Nat} :
    overlapsPage base stop range = true ↔ range.1 < stop ∧ base < range.2 := by
  simp [overlapsPage]

theorem any_overlapsPage {base stop : Nat} {ranges : List (Nat × Nat)} :
    ranges.any (overlapsPage base stop) = false ↔
      ∀ range ∈ ranges, ¬ (range.1 < stop ∧ base < range.2) := by
  rw [List.any_eq_false]
  exact forall₂_congr fun range _ => not_congr overlapsPage_iff

/-- What one child does to the answer so far. -/
theorem checkReservation_eq_ok :
    checkReservation (parkingName contract.base) contract.base contract.stop
        addressCells sizeCells reservedBefore node = .ok result ↔
      ClearOf contract addressCells sizeCells node ∧
          result = reservedBefore ∨
        Owns contract addressCells sizeCells node ∧ reservedBefore = false ∧
          result = true := by
  rw [checkReservation, Run.bind_eq_ok]
  constructor
  · rintro ⟨ranges, read, returns⟩
    split at returns
    · obtain ⟨_, owned, same⟩ := Run.bind_eq_ok.mp returns
      rw [Run.ensure_eq_ok] at owned
      cases same
      exact .inr ⟨⟨owned.1, owned.2.1 ▸ read⟩, owned.2.2, rfl⟩
    · rename_i clear
      cases returns
      simp only [Bool.or_eq_true, decide_eq_true_eq, not_or,
        Bool.not_eq_true] at clear
      exact .inl ⟨⟨⟨ranges, read, any_overlapsPage.mp clear.1.1⟩, clear.1.2,
        clear.2⟩, rfl⟩
  · rintro (⟨clear, rfl⟩ | ⟨owns, rfl, rfl⟩)
    · obtain ⟨ranges, read, apart⟩ := clear.ranges
      refine ⟨ranges, read, ?_⟩
      rw [if_neg]
      · rfl
      · rw [any_overlapsPage.mpr apart, clear.other]
        simpa using clear.name
    · refine ⟨_, owns.ranges, ?_⟩
      have overlaps : overlapsPage contract.base contract.stop
          (contract.base, contract.stop) = true := by
        rw [overlapsPage_iff]
        simp [SpinTableContract.stop, spinTableBytes]
      rw [if_pos (by simp [overlaps]),
        Run.ensure_of ⟨owns.owner, rfl, rfl⟩]
      rfl

/-- Once the page is reserved, nothing else may touch it. -/
theorem foldlM_checkReservation_true :
    nodes.foldlM (checkReservation (parkingName contract.base) contract.base
        contract.stop addressCells sizeCells) true = .ok result ↔
      (∀ node ∈ nodes, ClearOf contract addressCells sizeCells node) ∧
        result = true := by
  induction nodes with
  | nil =>
      rw [List.foldlM_nil, Run.pure_eq_ok, Except.ok.injEq, eq_comm]
      simp
  | cons node nodes induction =>
      rw [List.foldlM_cons, Run.bind_eq_ok, List.forall_mem_cons]
      constructor
      · rintro ⟨_, first, later⟩
        obtain ⟨clear, rfl⟩ | ⟨_, absurd, _⟩ := checkReservation_eq_ok.mp first
        · obtain ⟨others, same⟩ := induction.mp later
          exact ⟨⟨clear, others⟩, same⟩
        · cases absurd
      · rintro ⟨⟨clear, others⟩, same⟩
        exact ⟨true, checkReservation_eq_ok.mpr (.inl ⟨clear, rfl⟩),
          induction.mpr ⟨others, same⟩⟩

/-- One of the children owns the page, and the others are clear of it. -/
def OneOwns (contract : SpinTableContract) (addressCells sizeCells : Nat)
    (nodes : List ContractNode) : Prop :=
  ∃ before owner after, nodes = before ++ owner :: after ∧
    Owns contract addressCells sizeCells owner ∧
    ∀ node ∈ before ++ after, ClearOf contract addressCells sizeCells node

/-- The loop over the children tells apart whether one of them owns the page or
none touches it. -/
theorem foldlM_checkReservation :
    nodes.foldlM (checkReservation (parkingName contract.base) contract.base
        contract.stop addressCells sizeCells) false = .ok result ↔
      (∀ node ∈ nodes, ClearOf contract addressCells sizeCells node) ∧
          result = false ∨
        OneOwns contract addressCells sizeCells nodes ∧ result = true := by
  induction nodes with
  | nil =>
      rw [List.foldlM_nil, Run.pure_eq_ok, Except.ok.injEq, eq_comm]
      simp [OneOwns]
  | cons node nodes induction =>
      rw [List.foldlM_cons, Run.bind_eq_ok, List.forall_mem_cons]
      constructor
      · rintro ⟨_, first, later⟩
        obtain ⟨clear, rfl⟩ | ⟨owns, _, rfl⟩ := checkReservation_eq_ok.mp first
        · obtain ⟨others, same⟩ |
              ⟨⟨before, owner, after, rfl, owns, others⟩, same⟩ :=
            induction.mp later
          · exact .inl ⟨⟨clear, others⟩, same⟩
          · refine .inr ⟨⟨node :: before, owner, after, rfl, owns, ?_⟩, same⟩
            exact List.forall_mem_cons.mpr ⟨clear, others⟩
        · obtain ⟨others, same⟩ := foldlM_checkReservation_true.mp later
          exact .inr ⟨⟨[], node, nodes, rfl, owns, others⟩, same⟩
      · rintro (⟨⟨clear, others⟩, same⟩ |
          ⟨⟨before, owner, after, split, owns, others⟩, same⟩)
        · exact ⟨false, checkReservation_eq_ok.mpr (.inl ⟨clear, rfl⟩),
            induction.mpr (.inl ⟨others, same⟩)⟩
        · cases before with
          | nil =>
              cases split
              exact ⟨true, checkReservation_eq_ok.mpr (.inr ⟨owns, rfl, rfl⟩),
                foldlM_checkReservation_true.mpr ⟨others, same⟩⟩
          | cons first before =>
              cases split
              obtain ⟨clear, others⟩ := List.forall_mem_cons.mp others
              exact ⟨false, checkReservation_eq_ok.mpr (.inl ⟨clear, rfl⟩),
                induction.mpr
                  (.inr ⟨⟨before, owner, after, rfl, owns, others⟩, same⟩)⟩

end

/-! ## The new node -/

theorem digitChar_nonzero {digit : Nat} (small : digit < 16) :
    UInt8.ofNat (Nat.digitChar digit).toNat ≠ 0 := by
  interval_cases digit <;> decide

theorem toDigits_nonzero (value : Nat) :
    ∀ letter ∈ Nat.toDigits 16 value, UInt8.ofNat letter.toNat ≠ 0 := by
  induction value using Nat.strong_induction_on with
  | _ value induction =>
      intro letter member
      by_cases small : value < 16
      · rw [Nat.toDigits_of_lt_base small, List.mem_singleton] at member
        exact member ▸ digitChar_nonzero small
      · have last : value % 16 < 16 := Nat.mod_lt _ (by decide)
        have split := Nat.toDigits_append_toDigits (b := 16) (by decide)
          (show 0 < value / 16 by omega) last
        rw [Nat.div_add_mod, Nat.toDigits_of_lt_base last] at split
        rw [← split, List.mem_append, List.mem_singleton] at member
        rcases member with front | rfl
        · exact induction (value / 16) (by omega) letter front
        · exact digitChar_nonzero last

theorem parkingName_noNul (base : Nat) : (0 : UInt8) ∉ parkingName base := by
  rw [parkingName, List.mem_append, List.mem_map]
  rintro (front | ⟨letter, member, zero⟩)
  · exact absurd front (by decide)
  · exact toDigits_nonzero base letter member zero

section

variable {value count : Nat} {bytes : Bytes}

theorem encodeCells_eq_ok (small : value < 2 ^ 64)
    (encoded : encodeCells value count = .ok bytes) :
    1 ≤ count ∧ count ≤ 2 ∧ bytes.length = count * 4 ∧
      Bytes.ofBe bytes = value := by
  unfold encodeCells at encoded
  split at encoded
  · rename_i one
    obtain ⟨rfl, bound⟩ := one
    cases encoded
    exact ⟨le_rfl, by omega, by simp, Bytes.ofBe_toBe_of_lt bound⟩
  · split at encoded
    · rename_i two
      cases two
      cases encoded
      exact ⟨by omega, le_rfl, by simp, Bytes.ofBe_toBe_of_lt small⟩
    · cases encoded

end

section

variable {contract : SpinTableContract} {addressCells sizeCells : Nat}
  {node : ContractNode}

/-- The node of the page is named after it. -/
theorem parkingNode_name {name : Bytes} {base : Nat}
    (made : parkingNode name base addressCells sizeCells = .ok node) :
    node.name = name := by
  obtain ⟨_, _, made⟩ := Run.bind_eq_ok.mp made
  obtain ⟨_, _, made⟩ := Run.bind_eq_ok.mp made
  cases made
  rfl

/-- The names of the properties of the node of the page. -/
def parkingKeys : List Bytes := [propCompatible, propNoMap, propReg]

theorem parkingNode_get {name : Bytes} {base : Nat}
    (made : parkingNode name base addressCells sizeCells = .ok node) :
    node.get propCompatible = some (spinTableCompat ++ [0]) ∧
      node.get propNoMap = some [] ∧
      ∀ key ∉ parkingKeys, node.get key = none := by
  obtain ⟨_, _, made⟩ := Run.bind_eq_ok.mp made
  obtain ⟨_, _, made⟩ := Run.bind_eq_ok.mp made
  cases made
  refine ⟨?_, ?_, fun key other => ?_⟩
  · rw [ContractNode.get_set_of_ne (by decide),
      ContractNode.get_set_of_ne (by decide), ContractNode.get_set_self]
  · rw [ContractNode.get_set_of_ne (by decide), ContractNode.get_set_self]
  · simp only [parkingKeys, List.mem_cons, List.not_mem_nil, or_false,
      not_or] at other
    rw [ContractNode.get_set_of_ne other.2.2,
      ContractNode.get_set_of_ne other.2.1, ContractNode.get_set_of_ne other.1]
    rfl

theorem parkingNode_ownsPage {name : Bytes} {base : Nat}
    (made : parkingNode name base addressCells sizeCells = .ok node) :
    ownsPage node = true := by
  obtain ⟨compatible, noMap, others⟩ := parkingNode_get made
  have named : node.compatible spinTableCompat = true := by
    unfold ContractNode.compatible
    change (node.get propCompatible).any _ = true
    rw [compatible]
    decide
  rw [ownsPage, ContractNode.enabled, others propStatus (by decide), named,
    noMap, others propReusable (by decide)]
  rfl

/-- The node of the page owns it. -/
theorem parkingNode_owns (page : contract.stop < 2 ^ 64)
    (made : parkingNode (parkingName contract.base) contract.base addressCells
      sizeCells = .ok node) : Owns contract addressCells sizeCells node := by
  refine ⟨parkingNode_ownsPage made, ?_⟩
  obtain ⟨address, encoded, made⟩ := Run.bind_eq_ok.mp made
  obtain ⟨size, encodedSize, made⟩ := Run.bind_eq_ok.mp made
  cases made
  unfold SpinTableContract.stop at page
  obtain ⟨positive, few, length, read⟩ :=
    encodeCells_eq_ok (by omega) encoded
  obtain ⟨positiveSize, fewSize, lengthSize, readSize⟩ :=
    encodeCells_eq_ok (by decide) encodedSize
  have total : (address ++ size).length = (addressCells + sizeCells) * 4 := by
    rw [List.length_append, length, lengthSize]
    omega
  have pairs : regPairs addressCells sizeCells (address ++ size) =
      [(contract.base, spinTableBytes)] := by
    rw [regPairs, chunksExact_single (by omega) total, List.map_singleton,
      ← length, List.take_left, List.drop_left, read, readSize]
  rw [nodeRanges, ContractNode.get_set_self]
  refine decodeRegRanges_eq_ok.mpr
    ⟨⟨⟨positive, few⟩, positiveSize, fewSize⟩, ?_, ?_, ?_⟩
  · rw [total, Nat.mod_self]
  · rw [pairs]
    rintro _ member _
    obtain rfl := List.mem_singleton.mp member
    exact page
  · rw [pairs]
    rfl

theorem parkingNode_canonical {name : Bytes} {base room : Nat}
    (noNul : (0 : UInt8) ∉ name)
    (made : parkingNode name base addressCells sizeCells = .ok node) :
    node.Canonical (room + 1) := by
  obtain ⟨_, _, made⟩ := Run.bind_eq_ok.mp made
  obtain ⟨_, _, made⟩ := Run.bind_eq_ok.mp made
  cases made
  have empty : (ContractNode.new name).Canonical (room + 1) :=
    .mk noNul (by simp) (by simp) (by simp) (by simp)
  exact ((empty.set (by decide)).set (by decide)).set (by decide)

end

end Pocketboot.Kexec
