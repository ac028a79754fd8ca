import Pocketboot.Kexec.Chosen
import Pocketboot.Kexec.SpinTableGraft

/-!
# The loader's functions return

Whatever bytes they are given, `patch_chosen`, `reserved_ranges` and
`graft_spin_table` end in a value or an error: no slice leaves its data, no
addition overflows and no token loop runs on.
-/

namespace Pocketboot.Kexec

open DeviceTree

/-! ## Laying out a blob -/

theorem reserveMapBytes_aligned (entries : List Reservation) :
    (reserveMapBytes entries).length % 4 = 0 := by
  rw [reserveMapBytes_length]
  omega

theorem buildDtb_returns (header : Header) {map : Bytes}
    (block strings : Bytes) (aligned : map.length % 4 = 0) :
    (buildDtb header map block strings).Returns := by
  rw [buildDtb_eq header block strings aligned]
  split
  · exact Run.returns_ok _
  · exact Run.returns_fail _

/-! ## `patch_chosen` -/

section

variable {structBlock strings : Bytes} {offsets : ChosenOffsets}
  {cmdline : Str} {initrd : Option (Nat × Nat)}

theorem appendChosenProps_returns (output : Bytes) :
    (appendChosenProps output offsets cmdline initrd).Returns := by
  have length := cmdline.length_lt
  refine Run.Returns.bind ?_ fun _ _ => Run.returns_pure _
  unfold appendBootargs
  split
  · exact Run.returns_ok _
  · rw [addOrPanic_of (by unfold wordSize; omega)]
    exact Run.returns_ok _

theorem enterNode_returns (state : PatchState) :
    (enterNode offsets cmdline initrd state).Returns := by
  unfold enterNode
  split
  · exact (appendChosenProps_returns _).bind fun _ _ => Run.returns_pure _
  · exact Run.returns_ok _

theorem ensureChosen_returns (state : PatchState) :
    (ensureChosen offsets cmdline initrd state).Returns := by
  unfold ensureChosen
  split
  · exact (appendChosenProps_returns _).bind fun _ _ => Run.returns_pure _
  · exact Run.returns_ok _

theorem patchBody_steady :
    Steady structBlock
      (patchBody structBlock strings offsets cmdline initrd) := by
  refine Steady.of_next ?_
  intro state cursor token next state' cursor' step
  cases token with
  | beginNode name =>
      obtain ⟨_, _, step⟩ := Run.bind_eq_ok.mp step
      obtain ⟨_, _, step⟩ := Run.bind_eq_ok.mp step
      cases step
      rfl
  | endNode =>
      obtain ⟨_, _, step⟩ := Run.bind_eq_ok.mp step
      obtain ⟨_, _, step⟩ := Run.bind_eq_ok.mp step
      cases step
      rfl
  | prop nameoff value =>
      simp only [patchBody] at step
      split at step
      · cases step
        rfl
      · obtain ⟨_, _, step⟩ := Run.bind_eq_ok.mp step
        cases step
        rfl
  | nop =>
      obtain ⟨_, _, step⟩ := Run.bind_eq_ok.mp step
      cases step
      rfl
  | fin =>
      obtain ⟨_, _, step⟩ := Run.bind_eq_ok.mp step
      obtain ⟨_, _, step⟩ := Run.bind_eq_ok.mp step
      cases step

theorem patchBody_returns {state : PatchState} {cursor next : Nat}
    {token : Token} (reads : ReadsToken structBlock cursor token next) :
    (patchBody structBlock strings offsets cmdline initrd state cursor token
      next).Returns := by
  have forward := reads.forward
  cases token with
  | beginNode name =>
      exact (Run.returns_ensure _ _).bind fun _ _ =>
        (enterNode_returns _).bind fun _ _ => Run.returns_pure _
  | endNode =>
      exact (ensureChosen_returns _).bind fun _ _ =>
        (Run.returns_ensure _ _).bind fun _ _ => Run.returns_pure _
  | prop nameoff value =>
      have inside := reads.fits_of_ne (by simp)
      simp only [patchBody]
      split
      · exact Run.returns_ok _
      · rw [sliceOrPanic_of (by omega) inside]
        exact Run.returns_ok _
  | nop =>
      have inside := reads.fits_of_ne (by simp)
      simp only [patchBody]
      rw [sliceOrPanic_of (by omega) inside]
      exact Run.returns_ok _
  | fin =>
      exact (Run.returns_ensure _ _).bind fun _ _ =>
        (Run.returns_ensure _ _).bind fun _ _ => Run.returns_pure _

theorem patchStructureBlock_returns (short : structBlock.length < 2 ^ 32) :
    (patchStructureBlock structBlock strings offsets cmdline
      initrd).Returns := by
  have length := cmdline.length_lt
  rw [patchStructureBlock, addOrPanic_of (by unfold wordSize; omega),
    Run.ok_bind, addOrPanic_of (by unfold wordSize; omega), Run.ok_bind]
  exact loop_returns short patchBody_steady (fun _ _ => True)
    (fun _ _ _ _ _ reads => patchBody_returns reads)
    (fun _ _ _ _ _ _ _ _ _ => trivial) Cursor.zero trivial

theorem patchedBlocks_returns {dtb : Bytes} (accepted : Accepted dtb) :
    (patchedBlocks dtb (headerOf dtb) cmdline initrd).Returns := by
  rw [patchedBlocks, checkedSlice_struct accepted, Run.ok_bind,
    checkedSlice_strings accepted, Run.ok_bind]
  iterate 4 refine (ensureString_returns _ _).bind fun _ _ => ?_
  exact (patchStructureBlock_returns
    (structBlock_short accepted.toWellPlaced)).bind fun _ _ =>
      Run.returns_pure _

end

theorem patchChosen_returns (dtb : Bytes) (cmdline : Str)
    (initrd : Option (Nat × Nat)) :
    (patchChosen dtb cmdline initrd).Returns := by
  refine (headerParse_returns dtb).bind fun header parsed => ?_
  obtain ⟨rfl, accepted⟩ := headerParse_eq_ok.mp parsed
  refine (reserveMap_returns accepted).bind fun map read => ?_
  obtain ⟨entries, _, rfl⟩ := (reserveMap_eq_ok accepted).mp read
  refine (patchedBlocks_returns accepted).bind fun blocks _ => ?_
  exact buildDtb_returns _ _ _ (reserveMapBytes_aligned entries)

/-! ## `reserved_ranges` -/

theorem propertyU32_eq_ok {value name : Bytes} {cells : Nat} :
    propertyU32 value name = .ok cells ↔
      value.length = 4 ∧ cells = Bytes.ofBe value := by
  rw [propertyU32, Run.bind_eq_ok]
  constructor
  · rintro ⟨_, one, same⟩
    cases same
    exact ⟨Run.ensure_eq_ok.mp one, rfl⟩
  · rintro ⟨one, rfl⟩
    exact ⟨(), Run.ensure_of one _, rfl⟩

theorem propertyU32_returns (value name : Bytes) :
    (propertyU32 value name).Returns :=
  (Run.returns_ensure _ _).bind fun _ _ => Run.returns_pure _

theorem propertyU32_lt {value name : Bytes} {cells : Nat}
    (read : propertyU32 value name = .ok cells) : cells < 2 ^ 32 := by
  obtain ⟨_, one, same⟩ := Run.bind_eq_ok.mp read
  rw [Run.ensure_eq_ok] at one
  have bound := Bytes.ofBe_lt value
  rw [one] at bound
  cases same
  omega

theorem mem_chunksExact {size : Nat} {data piece : Bytes}
    (member : piece ∈ chunksExact size data) : piece.length = size := by
  obtain ⟨index, inside, rfl⟩ := List.mem_map.mp member
  rw [List.mem_range] at inside
  have whole : index * size + size ≤ data.length := by
    calc index * size + size = (index + 1) * size := by ring
      _ ≤ data.length / size * size := Nat.mul_le_mul_right size inside
      _ ≤ data.length := Nat.div_mul_le_self data.length size
  rw [Bytes.slice_length_of_le whole]
  omega

theorem decodeTuple_returns {addressCells : Nat} {tuple : Bytes}
    (small : addressCells ≤ 2) (inside : addressCells * 4 ≤ tuple.length) :
    (decodeTuple addressCells tuple).Returns := by
  rw [decodeTuple, mulOrPanic_of (by unfold wordSize; omega), Run.ok_bind,
    sliceOrPanic_of (by omega) inside, Run.ok_bind,
    sliceOrPanic_of inside le_rfl, Run.ok_bind]
  dsimp only
  split
  · exact Run.returns_pure _
  · exact (Run.returns_ofOption _ _).bind fun _ _ => Run.returns_pure _

theorem decodeRegRanges_returns (reg : Bytes) (addressCells sizeCells : Nat) :
    (decodeRegRanges reg addressCells sizeCells).Returns := by
  refine (Run.returns_ofOption _ _).bind fun tupleCells sum => ?_
  refine (Run.returns_ensure _ _).bind fun _ supported => ?_
  rw [Run.ensure_eq_ok] at supported
  rw [Run.ofOption_eq_ok, checkedAddU32] at sum
  have cells : tupleCells = addressCells + sizeCells := by
    split at sum
    · cases sum
      rfl
    · cases sum
  refine (Run.returns_ofOption _ _).bind fun tupleBytes product => ?_
  obtain ⟨_, rfl⟩ := checkedMul_eq_some.mp (Run.ofOption_eq_ok.mp product)
  refine (Run.returns_ensure _ _).bind fun _ _ => ?_
  refine (Run.Returns.mapM fun tuple member => ?_).bind fun _ _ =>
    Run.returns_pure _
  have length := mem_chunksExact member
  exact decodeTuple_returns supported.1.2 (by omega)

theorem rootProp_returns (state : ReservedState) (name value : Bytes) :
    (rootProp state name value).Returns := by
  unfold rootProp
  split
  · exact (propertyU32_returns _ _).bind fun _ _ => Run.returns_pure _
  · split
    · exact (propertyU32_returns _ _).bind fun _ _ => Run.returns_pure _
    · exact Run.returns_pure _

theorem reservedProp_returns (state : ReservedState) (name value : Bytes) :
    (reservedProp state name value).Returns := by
  unfold reservedProp
  split
  · exact (propertyU32_returns _ _).bind fun _ _ => Run.returns_pure _
  · split
    · exact (propertyU32_returns _ _).bind fun _ _ => Run.returns_pure _
    · exact Run.returns_pure _

theorem reservedChildProp_returns (state : ReservedState)
    (name value : Bytes) : (reservedChildProp state name value).Returns := by
  refine (Run.returns_ofOption _ _).bind fun _ _ => ?_
  split
  · exact Run.returns_pure _
  · split
    · exact Run.returns_pure _
    · exact Run.returns_pure _

theorem storeProp_returns (state : ReservedState) (name value : Bytes) :
    (storeProp state name value).Returns := by
  unfold storeProp
  split
  · exact rootProp_returns state name value
  · split
    · exact reservedProp_returns state name value
    · split
      · exact reservedChildProp_returns state name value
      · exact Run.returns_ok _

theorem closeNode_returns (state : ReservedState) :
    (closeNode state).Returns := by
  unfold closeNode
  split
  · refine (Run.returns_ofOption _ _).bind fun child _ => ?_
    simp only
    split
    · exact (decodeRegRanges_returns _ _ _).bind fun _ _ =>
        Run.returns_pure _
    · exact Run.returns_pure _
  · exact Run.returns_ok _

theorem reservedBody_steady {structBlock strings : Bytes} :
    Steady structBlock (reservedBody strings) := by
  refine Steady.of_next ?_
  intro state cursor token next state' cursor' step
  cases token with
  | beginNode name =>
      cases step
      rfl
  | endNode =>
      obtain ⟨_, _, step⟩ := Run.bind_eq_ok.mp step
      obtain ⟨_, _, step⟩ := Run.bind_eq_ok.mp step
      cases step
      rfl
  | prop nameoff value =>
      obtain ⟨_, _, step⟩ := Run.bind_eq_ok.mp step
      obtain ⟨_, _, step⟩ := Run.bind_eq_ok.mp step
      cases step
      rfl
  | nop =>
      cases step
      rfl
  | fin =>
      obtain ⟨_, _, step⟩ := Run.bind_eq_ok.mp step
      cases step

theorem reservedBody_returns (strings : Bytes) (state : ReservedState)
    (cursor : Nat) (token : Token) (next : Nat) :
    (reservedBody strings state cursor token next).Returns := by
  cases token with
  | beginNode name => exact Run.returns_pure _
  | endNode =>
      exact (closeNode_returns _).bind fun _ _ =>
        (Run.returns_ensure _ _).bind fun _ _ => Run.returns_pure _
  | prop nameoff value =>
      exact (Run.returns_ofOption _ _).bind fun _ _ =>
        (storeProp_returns _ _ _).bind fun _ _ => Run.returns_pure _
  | nop => exact Run.returns_pure _
  | fin => exact (Run.returns_ensure _ _).bind fun _ _ => Run.returns_pure _

theorem reservedMemoryNodeRanges_returns {structBlock : Bytes}
    (strings : Bytes) (short : structBlock.length < 2 ^ 32) :
    (reservedMemoryNodeRanges structBlock strings).Returns :=
  loop_returns short reservedBody_steady (fun _ _ => True)
    (fun _ _ _ _ _ _ => reservedBody_returns _ _ _ _ _)
    (fun _ _ _ _ _ _ _ _ _ => trivial) Cursor.zero trivial

theorem reservedRanges_returns (dtb : Bytes) :
    (reservedRanges dtb).Returns := by
  refine (headerParse_returns dtb).bind fun header parsed => ?_
  obtain ⟨rfl, accepted⟩ := headerParse_eq_ok.mp parsed
  refine (reserveMapRanges_returns accepted).bind fun ranges _ => ?_
  rw [checkedSlice_struct accepted, Run.ok_bind,
    checkedSlice_strings accepted, Run.ok_bind]
  exact (reservedMemoryNodeRanges_returns _
    (structBlock_short accepted.toWellPlaced)).bind fun _ _ =>
      Run.returns_pure _

/-! ## Owned trees -/

namespace ContractNode

theorem cells_returns (node : ContractNode) (name : Bytes) (default : Nat) :
    (node.cells name default).Returns := by
  unfold cells
  split
  · exact propertyU32_returns _ _
  · exact Run.returns_ok _

theorem writeProps_returns : ∀ (props : List (Bytes × Bytes))
    (block strings : Bytes), (writeProps props block strings).Returns
  | [], _, _ => Run.returns_ok _
  | _ :: props, _, _ =>
      (ensureString_returns _ _).bind fun _ _ => writeProps_returns props _ _

mutual

theorem write_returns : ∀ (node : ContractNode) (block strings : Bytes),
    (node.write block strings).Returns
  | ⟨name, props, children⟩, block, strings => by
      rw [write]
      refine (writeProps_returns props _ _).bind fun _ _ => ?_
      exact (writeAll_returns children _ _).bind fun _ _ => Run.returns_pure _

theorem writeAll_returns : ∀ (nodes : List ContractNode)
    (block strings : Bytes), (writeAll nodes block strings).Returns
  | [], block, strings => by
      rw [writeAll]
      exact Run.returns_ok _
  | node :: nodes, block, strings => by
      rw [writeAll]
      exact (write_returns node _ _).bind fun _ _ =>
        writeAll_returns nodes _ _

end

end ContractNode

theorem treeBody_steady {structBlock strings : Bytes} :
    Steady structBlock (treeBody strings) := by
  refine Steady.of_next ?_
  intro state cursor token next state' cursor' step
  cases token with
  | beginNode name =>
      obtain ⟨_, _, step⟩ := Run.bind_eq_ok.mp step
      obtain ⟨_, _, step⟩ := Run.bind_eq_ok.mp step
      cases step
      rfl
  | endNode =>
      simp only [treeBody] at step
      split at step
      · cases step
      · cases step
        rfl
      · obtain ⟨_, _, step⟩ := Run.bind_eq_ok.mp step
        cases step
        rfl
  | prop nameoff value =>
      obtain ⟨_, _, step⟩ := Run.bind_eq_ok.mp step
      split at step
      · cases step
      · obtain ⟨_, _, step⟩ := Run.bind_eq_ok.mp step
        cases step
        rfl
  | nop =>
      cases step
      rfl
  | fin =>
      simp only [treeBody] at step
      split at step
      · obtain ⟨_, _, step⟩ := Run.bind_eq_ok.mp step
        cases step
      · cases step

theorem treeBody_returns (strings : Bytes) (state : TreeState)
    (cursor : Nat) (token : Token) (next : Nat) :
    (treeBody strings state cursor token next).Returns := by
  cases token with
  | beginNode name =>
      exact (Run.returns_ensure _ _).bind fun _ _ =>
        (Run.returns_ensure _ _).bind fun _ _ => Run.returns_pure _
  | endNode =>
      simp only [treeBody]
      split
      · exact Run.returns_fail _
      · exact Run.returns_pure _
      · exact (Run.returns_ensure _ _).bind fun _ _ => Run.returns_pure _
  | prop nameoff value =>
      refine (Run.returns_ofOption _ _).bind fun _ _ => ?_
      split
      · exact Run.returns_fail _
      · exact (Run.returns_ensure _ _).bind fun _ _ => Run.returns_pure _
  | nop => exact Run.returns_pure _
  | fin =>
      simp only [treeBody]
      split
      · exact (Run.returns_ofOption _ _).bind fun _ _ => Run.returns_pure _
      · exact Run.returns_fail _

theorem contractTree_returns (dtb : Bytes) : (contractTree dtb).Returns := by
  refine (headerParse_returns dtb).bind fun header parsed => ?_
  obtain ⟨rfl, accepted⟩ := headerParse_eq_ok.mp parsed
  rw [checkedSlice_struct accepted, Run.ok_bind,
    checkedSlice_strings accepted, Run.ok_bind]
  exact loop_returns (structBlock_short accepted.toWellPlaced)
    treeBody_steady (fun _ _ => True)
    (fun _ _ _ _ _ _ => treeBody_returns _ _ _ _ _)
    (fun _ _ _ _ _ _ _ _ _ => trivial) Cursor.zero trivial

theorem buildContractTree_returns (dtb : Bytes) (root : ContractNode)
    {map : Bytes} (aligned : map.length % 4 = 0) :
    (buildContractTree dtb root map).Returns :=
  (headerParse_returns dtb).bind fun _ _ =>
    (root.write_returns _ _).bind fun _ _ => buildDtb_returns _ _ _ aligned

end Pocketboot.Kexec
