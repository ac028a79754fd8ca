import Pocketboot.Kexec.TreeWrite
import Pocketboot.Kexec.Writing

/-!
# When an owned tree is written

A run of `write` that ends has appended as many bytes as the tree takes and has
added the names of the tree's properties, so `build_contract_tree` succeeds
exactly when the blob's size is a 32-bit number.
-/

namespace Pocketboot.Kexec

open DeviceTree

/-- The block of some names and one more. -/
theorem withString_pool {known : List Bytes} {name : Bytes}
    (noNul : ∀ other ∈ known, (0 : UInt8) ∉ other) :
    withString (pool known) name = pool (addName known name) := by
  rw [withString, findString_pool noNul, addName]
  by_cases member : name ∈ known
  · rw [if_pos member, if_pos member]
    rfl
  · rw [if_neg member, if_neg member, pool_append, pool_cons]
    rfl

theorem writeBeginNode_length {output : Bytes} (name : Bytes)
    (aligned : output.length % 4 = 0) : (writeBeginNode output name).length =
      output.length + (4 + align4 (name.length + 1)) := by
  have front : (writeBe32 output beginNodeToken).length % 4 = 0 := by
    rw [writeBe32, List.length_append, Bytes.toBe_length]
    omega
  rw [writeBeginNode, List.append_assoc, padTo_four front]
  simp only [writeBe32, List.length_append, Bytes.toBe_length,
    List.length_replicate, List.length_cons, List.length_nil]
  unfold align4
  omega

/-- An action has appended this many bytes and added these names. -/
structure Wrote (known names : List Bytes) (block : Bytes) (size : Nat)
    (result : Bytes × Bytes) : Prop where
  length : result.1.length = block.length + size
  whole : size % 4 = 0
  strings : result.2 = pool (addNames known names)

namespace ContractNode

theorem writeProps_wrote {props : List (Bytes × Bytes)} {block : Bytes}
    {known : List Bytes} {result : Bytes × Bytes}
    (aligned : block.length % 4 = 0)
    (knownNoNul : ∀ name ∈ known, (0 : UInt8) ∉ name)
    (noNul : ∀ name ∈ props.map Prod.fst, (0 : UInt8) ∉ name)
    (wrote : writeProps props block (pool known) = .ok result) :
    Wrote known (props.map Prod.fst) block (propsSize props) result := by
  induction props generalizing block known with
  | nil =>
      cases wrote
      exact ⟨rfl, rfl, rfl⟩
  | cons prop props induction =>
      obtain ⟨name, value⟩ := prop
      rw [List.map_cons, List.forall_mem_cons] at noNul
      obtain ⟨⟨strings, offset⟩, ensured, wrote⟩ := Run.bind_eq_ok.mp wrote
      obtain rfl := (ensureString_withString ensured).trans
        (withString_pool knownNoNul)
      have padded := propBytes_length_mod offset value
      have length := propBytes_length offset value
      dsimp only at wrote
      rw [writeProp_bytes _ _ aligned] at wrote
      have later := induction (by
          rw [List.length_append]
          omega)
        (addName_noNul knownNoNul noNul.1) noNul.2 wrote
      have size : propsSize ((name, value) :: props) =
          12 + align4 value.length + propsSize props := rfl
      have after := later.length
      have whole := later.whole
      rw [List.length_append] at after
      exact ⟨by omega, by omega, later.strings⟩

mutual

theorem write_wrote : ∀ (node : ContractNode) {block : Bytes}
    {known : List Bytes} {result : Bytes × Bytes}, block.length % 4 = 0 →
    (∀ name ∈ known, (0 : UInt8) ∉ name) →
    (∀ name ∈ node.keyNames, (0 : UInt8) ∉ name) →
    node.write block (pool known) = .ok result →
    Wrote known node.keyNames block node.blockSize result
  | ⟨name, props, children⟩, block, known, result, aligned, knownNoNul, noNul,
      wrote => by
      rw [keyNames, List.forall_mem_append] at noNul
      rw [write] at wrote
      obtain ⟨⟨front, strings⟩, wroteProps, wrote⟩ := Run.bind_eq_ok.mp wrote
      obtain ⟨⟨back, strings'⟩, wroteChildren, wrote⟩ := Run.bind_eq_ok.mp wrote
      cases wrote
      have begun := writeBeginNode_length name aligned
      have start : (writeBeginNode block name).length % 4 = 0 := by
        unfold align4 at begun
        omega
      have first := writeProps_wrote start knownNoNul noNul.1 wroteProps
      have firstLength := first.length
      have firstWhole := first.whole
      obtain rfl := first.strings
      dsimp only at firstLength
      have later := writeAll_wrote children (by omega)
        (addNames_noNul knownNoNul noNul.1) noNul.2 wroteChildren
      have laterLength := later.length
      have laterWhole := later.whole
      refine ⟨?_, ?_, ?_⟩
      · rw [blockSize, writeBe32, List.length_append, Bytes.toBe_length]
        dsimp only at laterLength ⊢
        omega
      · rw [blockSize]
        unfold align4
        omega
      · rw [keyNames, addNames_append]
        exact later.strings

theorem writeAll_wrote : ∀ (nodes : List ContractNode) {block : Bytes}
    {known : List Bytes} {result : Bytes × Bytes}, block.length % 4 = 0 →
    (∀ name ∈ known, (0 : UInt8) ∉ name) →
    (∀ name ∈ keyNamesAll nodes, (0 : UInt8) ∉ name) →
    writeAll nodes block (pool known) = .ok result →
    Wrote known (keyNamesAll nodes) block (blockSizeAll nodes) result
  | [], block, known, result, _, _, _, wrote => by
      rw [writeAll] at wrote
      cases wrote
      exact ⟨rfl, rfl, rfl⟩
  | node :: nodes, block, known, result, aligned, knownNoNul, noNul, wrote => by
      rw [keyNamesAll, List.forall_mem_append] at noNul
      rw [writeAll] at wrote
      obtain ⟨⟨front, strings⟩, wroteNode, wrote⟩ := Run.bind_eq_ok.mp wrote
      have first := write_wrote node aligned knownNoNul noNul.1 wroteNode
      have firstLength := first.length
      have firstWhole := first.whole
      obtain rfl := first.strings
      dsimp only at firstLength
      have later := writeAll_wrote nodes (by omega)
        (addNames_noNul knownNoNul noNul.1) noNul.2 wrote
      have laterLength := later.length
      have laterWhole := later.whole
      refine ⟨?_, ?_, ?_⟩
      · rw [blockSizeAll]
        omega
      · rw [blockSizeAll]
        omega
      · rw [keyNamesAll, addNames_append]
        exact later.strings

end

end ContractNode

section

variable {dtb map blob : Bytes} {root : ContractNode}

/-- A blob that was built has a 32-bit size. -/
theorem buildContractTree_small (aligned : map.length % 4 = 0)
    (canonical : root.Canonical 64)
    (built : buildContractTree dtb root map = .ok blob) :
    Accepted dtb ∧ root.blobSize map < 2 ^ 32 := by
  obtain ⟨header, parsed, built⟩ := Run.bind_eq_ok.mp built
  obtain ⟨rfl, accepted⟩ := headerParse_eq_ok.mp parsed
  obtain ⟨⟨block, strings⟩, wrote, built⟩ := Run.bind_eq_ok.mp built
  have sizes := @ContractNode.write_wrote root [] [] _ rfl (by simp)
    canonical.keyNames_noNul wrote
  have length := sizes.length
  obtain rfl := sizes.strings
  dsimp only at built length
  rw [buildDtb_eq _ _ _ aligned] at built
  split at built
  · rename_i small
    rw [writeBe32, List.length_append, Bytes.toBe_length, length,
      List.length_nil] at small
    refine ⟨accepted, ?_⟩
    unfold ContractNode.blobSize ContractNode.stringsBlock
    omega
  · cases built

/-- What `build_contract_tree` returns is laid out as such. -/
theorem buildContractTree_laid {entries : List Reservation}
    (proper : ∀ entry ∈ entries, Reservation.Proper entry)
    (unnamed : root.name = []) (canonical : root.Canonical 64)
    (built : buildContractTree dtb root (reserveMapBytes entries) =
      .ok blob) : BlobOf dtb root entries blob := by
  have aligned := reserveMapBytes_aligned entries
  obtain ⟨accepted, small⟩ := buildContractTree_small aligned canonical built
  obtain ⟨blob', built', laid⟩ :=
    buildContractTree_blobOf accepted proper unnamed canonical small
  cases built.symm.trans built'
  exact laid

/-- Only three words of the old header are kept. -/
theorem buildDtb_congr {first second : Header}
    (version : first.version = second.version)
    (lastCompVersion : first.lastCompVersion = second.lastCompVersion)
    (bootCpuidPhys : first.bootCpuidPhys = second.bootCpuidPhys) :
    buildDtb first = buildDtb second := by
  unfold buildDtb
  rw [version, lastCompVersion, bootCpuidPhys]

/-- The tree laid out over the blob gives what it gave over the old one. -/
theorem BlobOf.rebuild {entries : List Reservation}
    (laid : BlobOf dtb root entries blob) (accepted : Accepted dtb) :
    buildContractTree blob root map = buildContractTree dtb root map := by
  rw [buildContractTree, buildContractTree,
    headerParse_eq_ok.mpr ⟨rfl, laid.accepted⟩,
    headerParse_eq_ok.mpr ⟨rfl, accepted⟩, Run.ok_bind, Run.ok_bind,
    buildDtb_congr laid.version laid.lastCompVersion laid.bootCpuidPhys]

end

end Pocketboot.Kexec
