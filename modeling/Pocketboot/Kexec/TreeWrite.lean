import Pocketboot.Kexec.TreeParse

/-!
# Writing an owned tree

`write` appends a forest that holds the tree to the structure block, and to the
strings block the property names that are not there yet.  `contract_tree` reads
the tree back from the blob these blocks are laid out in.
-/

namespace Pocketboot

namespace DeviceTree

theorem mem_addName {names : List Bytes} {name other : Bytes} :
    other ∈ addName names name ↔ other ∈ names ∨ other = name := by
  unfold addName
  split
  · rename_i known
    constructor
    · exact .inl
    · rintro (member | rfl)
      · exact member
      · exact known
  · rw [List.mem_append, List.mem_singleton]

/-- The names without a zero byte stay so. -/
theorem addName_noNul {names : List Bytes} {name : Bytes}
    (noNul : ∀ other ∈ names, (0 : UInt8) ∉ other)
    (nameNoNul : (0 : UInt8) ∉ name) :
    ∀ other ∈ addName names name, (0 : UInt8) ∉ other := by
  intro other member
  rcases mem_addName.mp member with member | rfl
  · exact noNul other member
  · exact nameNoNul

theorem addNames_noNul {names more : List Bytes}
    (noNul : ∀ other ∈ names, (0 : UInt8) ∉ other)
    (moreNoNul : ∀ other ∈ more, (0 : UInt8) ∉ other) :
    ∀ other ∈ addNames names more, (0 : UInt8) ∉ other := by
  induction more generalizing names with
  | nil => exact noNul
  | cons name more induction =>
      exact induction
        (addName_noNul noNul (moreNoNul name List.mem_cons_self))
        fun other member => moreNoNul other (List.mem_cons_of_mem _ member)

end DeviceTree

namespace Kexec

open DeviceTree

/-- The name gets an offset in the block of the names so far and itself. -/
theorem ensureString_pool {known : List Bytes} {name : Bytes}
    (noNul : ∀ other ∈ known, (0 : UInt8) ∉ other)
    (nameNoNul : (0 : UInt8) ∉ name)
    (short : (pool (addName known name)).length < 2 ^ 32) :
    ∃ offset, offset < 2 ^ 32 ∧
      ensureString (pool known) name =
        .ok (pool (addName known name), offset) ∧
      ∀ more, DeviceTree.stringAt (pool (addName known name) ++ more) offset =
        some name := by
  have ensured : ∃ offset, ensureString (pool known) name =
      .ok (pool (addName known name), offset) := by
    rw [ensureString, findString_pool noNul, Run.ok_bind]
    by_cases member : name ∈ known
    · have front := congrArg (List.length ∘ pool)
        (List.takeWhile_append_dropWhile (p := fun other : Bytes =>
          decide (other ≠ name)) (l := known))
      have same : addName known name = known := if_pos member
      rw [same] at short ⊢
      simp only [Function.comp_apply, pool_append, List.length_append] at front
      have fits : totalsizeU32
          (pool (known.takeWhile (· ≠ name))).length "DTB string offset" =
            .ok (pool (known.takeWhile (· ≠ name))).length :=
        totalsizeU32_eq_ok.mpr ⟨by omega, rfl⟩
      rw [if_pos member]
      simp only [fits, Run.ok_bind, Run.pure_eq_ok]
      exact ⟨_, rfl⟩
    · have same : addName known name = known ++ [name] := if_neg member
      have longer : pool (known ++ [name]) = pool known ++ (name ++ [0]) := by
        rw [pool_append, pool_cons]
        rfl
      rw [same, longer] at short ⊢
      rw [List.length_append] at short
      have fits : totalsizeU32 (pool known).length "DTB string offset" =
          .ok (pool known).length :=
        totalsizeU32_eq_ok.mpr ⟨by omega, rfl⟩
      rw [if_neg member]
      simp only [fits, Run.ok_bind, Run.pure_eq_ok]
      exact ⟨_, rfl⟩
  obtain ⟨offset, ensured⟩ := ensured
  obtain ⟨small, named, _⟩ := ensureString_eq_ok nameNoNul ensured
  exact ⟨offset, small, ensured, fun more => stringAt_append named more⟩

/-- An action of the writer appends a forest of this content and size, and
adds the names to those of the strings block. -/
def Writes (action : Bytes → Bytes → Result (Bytes × Bytes))
    (names : List Bytes) (content : Content) (size : Nat) : Prop :=
  ∀ (block : Bytes) (known : List Bytes), block.length % 4 = 0 →
    (∀ name ∈ known, (0 : UInt8) ∉ name) →
    (pool (addNames known names)).length < 2 ^ 32 →
    ∃ forest : Forest,
      action block (pool known) =
        .ok (block ++ forest.bytes, pool (addNames known names)) ∧
      (∀ more, forest.content (pool (addNames known names) ++ more) =
        content) ∧
      forest.bytes.length = size

/-- One action after another. -/
theorem Writes.append
    {first second : Bytes → Bytes → Result (Bytes × Bytes)}
    {firstNames secondNames : List Bytes}
    {firstContent secondContent : Content} {firstSize secondSize : Nat}
    (noNul : ∀ name ∈ firstNames, (0 : UInt8) ∉ name)
    (front : Writes first firstNames firstContent firstSize)
    (back : Writes second secondNames secondContent secondSize) :
    Writes (fun block strings =>
        first block strings >>= fun wrote => second wrote.1 wrote.2)
      (firstNames ++ secondNames) (firstContent.append secondContent)
      (firstSize + secondSize) := by
  intro block known aligned knownNoNul short
  rw [addNames_append] at short ⊢
  obtain ⟨extra, longer⟩ := pool_addNames (addNames known firstNames)
    secondNames
  have shortFront : (pool (addNames known firstNames)).length < 2 ^ 32 := by
    rw [longer, List.length_append] at short
    omega
  obtain ⟨forest, wrote, content, size⟩ :=
    front block known aligned knownNoNul shortFront
  have whole := forest.bytes_length_mod
  obtain ⟨forest', wrote', content', size'⟩ :=
    back (block ++ forest.bytes) (addNames known firstNames)
      (by
        rw [List.length_append]
        omega)
      (addNames_noNul knownNoNul noNul) short
  refine ⟨forest.append forest', ?_, fun more => ?_, ?_⟩
  · dsimp only
    rw [wrote, Run.ok_bind, wrote', Forest.bytes_append, List.append_assoc]
  · rw [Forest.content_append, content' more, longer, List.append_assoc,
      content]
  · rw [Forest.bytes_append, List.length_append, size, size']

/-- The action inside of a new node. -/
theorem Writes.node {action : Bytes → Bytes → Result (Bytes × Bytes)}
    {names : List Bytes} {content : Content} {size : Nat} {name : Bytes}
    (nameNoNul : (0 : UInt8) ∉ name)
    (inside : Writes action names content size) :
    Writes (fun block strings =>
        action (writeBeginNode block name) strings >>= fun wrote =>
          pure (writeBe32 wrote.1 endNodeToken, wrote.2))
      names (.node name content .nil)
      (4 + align4 (name.length + 1) + size + 4) := by
  intro block known aligned knownNoNul short
  have begun := writeBeginNode_eq nameNoNul aligned
  have whole := (Lexeme.beginNode (.plain name nameNoNul)).bytes_length_mod
  simp only [Lexeme.bytes] at whole
  obtain ⟨forest, wrote, held, length⟩ :=
    inside (writeBeginNode block name) known
      (by
        rw [begun, List.length_append]
        omega)
      knownNoNul short
  refine ⟨.node (.plain name nameNoNul) forest .nil, ?_, fun more => ?_, ?_⟩
  · dsimp only
    rw [wrote, Run.ok_bind, begun]
    simp [writeBe32, Forest.bytes]
  · rw [Forest.content, held]
    rfl
  · simp only [Forest.bytes, NodeName.bytes, NodeName.plain,
      List.length_append, List.length_cons, List.length_nil, Bytes.toBe_length,
      List.length_replicate, length]
    unfold align4
    omega

namespace ContractNode

mutual

/-- The names of the properties in the order they are written. -/
def keyNames : ContractNode → List Bytes
  | ⟨_, props, children⟩ => props.map Prod.fst ++ keyNamesAll children

def keyNamesAll : List ContractNode → List Bytes
  | [] => []
  | node :: nodes => node.keyNames ++ keyNamesAll nodes

end

def propsSize (props : List (Bytes × Bytes)) : Nat :=
  (props.map fun prop => 12 + align4 prop.2.length).sum

mutual

/-- The length of a node in a structure block. -/
def blockSize : ContractNode → Nat
  | ⟨name, props, children⟩ =>
      4 + align4 (name.length + 1) +
        (propsSize props + blockSizeAll children) + 4

def blockSizeAll : List ContractNode → Nat
  | [] => 0
  | node :: nodes => node.blockSize + blockSizeAll nodes

end

/-- The strings block of a tree: each property name once. -/
def stringsBlock (root : ContractNode) : Bytes :=
  pool (addNames [] root.keyNames)

theorem writeProps_writes {props : List (Bytes × Bytes)}
    (noNul : ∀ prop ∈ props, (0 : UInt8) ∉ prop.1)
    (small : propsSize props < 2 ^ 32) :
    Writes (writeProps props) (props.map Prod.fst) (propsContent props .nil)
      (propsSize props) := by
  induction props with
  | nil =>
      intro block known _ _ _
      exact ⟨.nil, by simp [writeProps, Forest.bytes, addNames],
        fun _ => rfl, rfl⟩
  | cons prop props induction =>
      obtain ⟨name, value⟩ := prop
      have nameNoNul : (0 : UInt8) ∉ name :=
        noNul (name, value) List.mem_cons_self
      have size : propsSize ((name, value) :: props) =
          12 + align4 value.length + propsSize props := rfl
      have padded : value.length ≤ align4 value.length := by
        unfold align4
        omega
      intro block known aligned knownNoNul short
      have split : addNames known (((name, value) :: props).map Prod.fst) =
          addNames (addName known name) (props.map Prod.fst) := rfl
      rw [split] at short ⊢
      obtain ⟨extra, longer⟩ := pool_addNames (addName known name)
        (props.map Prod.fst)
      have shortFront : (pool (addName known name)).length < 2 ^ 32 := by
        rw [longer, List.length_append] at short
        omega
      obtain ⟨offset, offsetSmall, ensured, named⟩ :=
        ensureString_pool knownNoNul nameNoNul shortFront
      have valueSmall : value.length < 2 ^ 32 := by omega
      have wrote := writeProp_eq offsetSmall valueSmall aligned
      have whole := (Lexeme.prop (.plain offset value offsetSmall
        valueSmall)).bytes_length_mod
      simp only [Lexeme.bytes] at whole
      obtain ⟨forest, later, content, length⟩ :=
        induction
          (fun other member => noNul other (List.mem_cons_of_mem _ member))
          (by omega) (writeProp block offset value) (addName known name)
          (by
            rw [wrote, List.length_append]
            omega)
          (addName_noNul knownNoNul nameNoNul) short
      refine ⟨.prop (.plain offset value offsetSmall valueSmall) forest, ?_,
        fun more => ?_, ?_⟩
      · rw [writeProps, ensured, Run.ok_bind]
        dsimp only
        rw [later, wrote, Forest.bytes, List.append_assoc]
      · rw [Forest.content, content, longer, List.append_assoc]
        dsimp only [Property.plain]
        rw [named]
        rfl
      · rw [Forest.bytes, List.length_append, length, size]
        simp only [Property.bytes, Property.plain,
          List.length_append, Bytes.toBe_length, List.length_replicate]
        omega

theorem propsContent_append (props : List (Bytes × Bytes))
    (content : Content) :
    (propsContent props .nil).append content = propsContent props content := by
  induction props with
  | nil => rfl
  | cons prop props induction =>
      rw [propsContent, Content.append, induction, propsContent]

theorem Canonical.keyNames_noNul {room : Nat} {tree : ContractNode}
    (canonical : tree.Canonical room) :
    ∀ name ∈ tree.keyNames, (0 : UInt8) ∉ name := by
  induction canonical with
  | mk nameNoNul keysNoNul keys names below induction =>
      rename_i props children
      intro name member
      rw [keyNames, List.mem_append] at member
      rcases member with member | member
      · obtain ⟨prop, among, rfl⟩ := List.mem_map.mp member
        exact keysNoNul prop among
      · clear names below
        induction children with
        | nil => cases member
        | cons child children inner =>
            rw [keyNamesAll, List.mem_append] at member
            rcases member with member | member
            · exact induction child List.mem_cons_self name member
            · exact inner (fun other among =>
                induction other (List.mem_cons_of_mem _ among)) member

theorem writeAll_writes {nodes : List ContractNode}
    (noNul : ∀ node ∈ nodes, ∀ name ∈ node.keyNames, (0 : UInt8) ∉ name)
    (each : ∀ node ∈ nodes, Writes node.write node.keyNames
      (.node node.name node.body .nil) node.blockSize) :
    Writes (writeAll nodes) (keyNamesAll nodes) (siblings nodes)
      (blockSizeAll nodes) := by
  induction nodes with
  | nil =>
      intro block known _ _ _
      exact ⟨.nil, by simp [writeAll, Forest.bytes, addNames, keyNamesAll],
        fun _ => rfl, rfl⟩
  | cons node nodes induction =>
      have first := each node List.mem_cons_self
      have later := induction
        (fun other member => noNul other (List.mem_cons_of_mem _ member))
        (fun other member => each other (List.mem_cons_of_mem _ member))
      have both := first.append (noNul node List.mem_cons_self) later
      intro block known aligned knownNoNul short
      rw [writeAll]
      exact both block known aligned knownNoNul short

/-- `write` appends the node and its property names. -/
theorem Canonical.writes {room : Nat} {tree : ContractNode}
    (canonical : tree.Canonical room) (small : tree.blockSize < 2 ^ 32) :
    Writes tree.write tree.keyNames (.node tree.name tree.body .nil)
      tree.blockSize := by
  induction canonical with
  | mk nameNoNul keysNoNul keys names below induction =>
      rename_i room name props children
      rw [blockSize] at small
      have childSmall : ∀ nodes : List ContractNode,
          ∀ child ∈ nodes, child.blockSize ≤ blockSizeAll nodes := by
        intro nodes
        induction nodes with
        | nil => exact fun child absurd => nomatch absurd
        | cons node nodes inner =>
            intro child member
            rw [blockSizeAll]
            rcases List.mem_cons.mp member with rfl | member
            · omega
            · have := inner child member
              omega
      have front := writeProps_writes keysNoNul (by omega)
      have back := writeAll_writes
        (fun child member => (below child member).keyNames_noNul)
        (fun child member => induction child member (by
          have := childSmall children child member
          omega))
      have noNul : ∀ key ∈ props.map Prod.fst, (0 : UInt8) ∉ key := by
        intro key member
        obtain ⟨prop, among, rfl⟩ := List.mem_map.mp member
        exact keysNoNul prop among
      have inside := (front.append noNul back).node nameNoNul
      rw [propsContent_append] at inside
      intro block known aligned knownNoNul short
      obtain ⟨forest, wrote, content, length⟩ :=
        inside block known aligned knownNoNul short
      refine ⟨forest, ?_, content, length⟩
      rw [keyNames, ← wrote, write]
      dsimp only
      rw [bind_assoc]

/-- The length of the blob of a tree and a reserve map. -/
def blobSize (root : ContractNode) (map : Bytes) : Nat :=
  40 + map.length + (root.blockSize + 4) + root.stringsBlock.length

end ContractNode

/-! ## Whole blobs -/

/-- A reserve map that ends in its only empty entry. -/
def Terminated (map : Bytes) : Prop :=
  ∃ entries, (∀ entry ∈ entries, Reservation.Proper entry) ∧
    map = reserveMapBytes entries

section

variable {dtb map : Bytes} {root : ContractNode}

/-- The blob of a tree: the header of the old one, the reserve map, a block
that holds the tree, and the names of its properties. -/
theorem buildContractTree_eq (accepted : Accepted dtb)
    (aligned : map.length % 4 = 0) (unnamed : root.name = [])
    (canonical : root.Canonical 64) (small : root.blobSize map < 2 ^ 32) :
    ∃ forest : Forest, HoldsTree root.stringsBlock forest root ∧
      forest.bytes.length = root.blockSize ∧
      buildContractTree dtb root map = .ok (assemble (headerOf dtb) map
        (forest.bytes ++ be32 endToken) root.stringsBlock) := by
  unfold ContractNode.blobSize at small
  have short : (pool (addNames [] root.keyNames)).length < 2 ^ 32 := by
    change root.stringsBlock.length < 2 ^ 32
    omega
  obtain ⟨forest, wrote, content, length⟩ :=
    canonical.writes (by omega) [] [] rfl (by simp) short
  have wrote : root.write [] [] = .ok (forest.bytes, root.stringsBlock) := wrote
  refine ⟨forest, ⟨?_, unnamed, canonical⟩, length, ?_⟩
  · have held := content []
    rw [List.append_nil, unnamed] at held
    exact held
  · have fits : 40 + map.length + (writeBe32 forest.bytes endToken).length +
        root.stringsBlock.length < 2 ^ 32 := by
      rw [writeBe32, List.length_append, Bytes.toBe_length, length]
      exact small
    rw [buildContractTree, headerParse_eq_ok.mpr ⟨rfl, accepted⟩, Run.ok_bind,
      wrote, Run.ok_bind]
    dsimp only
    rw [buildDtb_eq _ _ _ aligned, if_pos fits]
    rfl

theorem accepted_assemble {header : Header} {block strings : Bytes}
    (fits : header.Fits)
    (small : 40 + map.length + block.length + strings.length < 2 ^ 32)
    (nonempty : 0 < block.length) :
    Accepted (assemble header map block strings) := by
  refine ⟨wellPlaced_assemble fits small, ?_⟩
  rw [headerOf_assemble fits small]
  simp only [Header.layout]
  omega

/-- A blob with a tree, a reserve map, and header words of another one. -/
structure BlobOf (dtb : Bytes) (root : ContractNode)
    (entries : List Reservation) (blob : Bytes) : Prop where
  accepted : Accepted blob
  tree : contractTree blob = .ok root
  reserved : reservations blob = some entries
  version : (headerOf blob).version = (headerOf dtb).version
  lastCompVersion :
    (headerOf blob).lastCompVersion = (headerOf dtb).lastCompVersion
  bootCpuidPhys : (headerOf blob).bootCpuidPhys = (headerOf dtb).bootCpuidPhys

/-- What `build_contract_tree` lays out is read back. -/
theorem buildContractTree_blobOf {entries : List Reservation}
    (accepted : Accepted dtb)
    (proper : ∀ entry ∈ entries, Reservation.Proper entry)
    (unnamed : root.name = []) (canonical : root.Canonical 64)
    (small : root.blobSize (reserveMapBytes entries) < 2 ^ 32) :
    ∃ blob, buildContractTree dtb root (reserveMapBytes entries) = .ok blob ∧
      BlobOf dtb root entries blob := by
  have mapLength := reserveMapBytes_length entries
  obtain ⟨forest, holds, length, built⟩ :=
    buildContractTree_eq accepted (by omega) unnamed canonical small
  have fits := headerOf_fits dtb
  have blockLength : (forest.bytes ++ be32 endToken).length =
      root.blockSize + 4 := by
    rw [List.length_append, Bytes.toBe_length, length]
  have whole : 40 + (reserveMapBytes entries).length +
      (forest.bytes ++ be32 endToken).length + root.stringsBlock.length <
        2 ^ 32 := by
    rw [blockLength]
    exact small
  have header := headerOf_assemble fits whole
  have accepted' := accepted_assemble fits whole (by omega)
  have block := (structBlock_assemble fits whole).trans
    (congrArg (forest.bytes ++ ·) (List.append_nil (be32 endToken)).symm)
  refine ⟨_, built, accepted', ?_, reservations_assemble fits whole proper,
    ?_, ?_, ?_⟩
  · rw [contractTree_forest accepted' block, stringsBlock_assemble fits whole]
    exact holds
  all_goals
    rw [header]
    rfl

/-- `contract_tree` reads back what `build_contract_tree` lays out, and so
does `reserve_map`. -/
theorem contractTree_buildContractTree (accepted : Accepted dtb)
    (terminated : Terminated map) (unnamed : root.name = [])
    (canonical : root.Canonical 64) (small : root.blobSize map < 2 ^ 32) :
    ∃ blob, buildContractTree dtb root map = .ok blob ∧
      contractTree blob = .ok root ∧
      (headerParse blob >>= reserveMap blob) = .ok map := by
  obtain ⟨entries, proper, rfl⟩ := terminated
  obtain ⟨blob, built, laid⟩ :=
    buildContractTree_blobOf accepted proper unnamed canonical small
  refine ⟨blob, built, laid.tree, ?_⟩
  rw [headerParse_eq_ok.mpr ⟨rfl, laid.accepted⟩, Run.ok_bind,
    reserveMap_eq_ok laid.accepted]
  exact ⟨entries, laid.reserved, rfl⟩

/-- A tree of two nodes that share a property name, written over a blob with an
empty tree. -/
theorem contractTree_buildContractTree_pair :
    let dtb := assemble ⟨0, 0, 0, 0, 17, 16, 0, 0, 0⟩ (reserveMapBytes [])
      (be32 endToken) []
    let root : ContractNode := ⟨[], [(propReg, [1, 2, 3])],
      [⟨nodeCpus, [(propReg, []), (propStatus, [0])], []⟩]⟩
    let map := reserveMapBytes [(0x1000, 0x10)]
    ∃ blob, buildContractTree dtb root map = .ok blob ∧
      contractTree blob = .ok root ∧
      (headerParse blob >>= reserveMap blob) = .ok map := by
  refine contractTree_buildContractTree ?_ ?_ rfl ?_ ?_
  · decide +kernel
  · exact ⟨[(0x1000, 0x10)], by
      simp only [List.forall_mem_singleton]
      exact ⟨by decide, by decide, by decide⟩, rfl⟩
  · refine .mk (by decide) (by decide) (by decide) (by decide) ?_
    simp only [List.forall_mem_singleton]
    exact .mk (by decide) (by decide) (by decide) (by decide) (by simp)
  · decide +kernel

end

end Kexec

end Pocketboot
