import Pocketboot.Kexec.TreeContent
import Pocketboot.Kexec.Totality

/-!
# What `contract_tree` accepts

The loop of `contract_tree` reads the tokens of a node as `absorb` takes in
the content of the node, so it returns a tree exactly when the blob holds it.
-/

namespace Pocketboot.Kexec

open DeviceTree ContractNode

section

variable {block strings : Bytes} {cursor : Nat} {rest : Bytes}
  {node : ContractNode} {stack : List ContractNode}
  {root : Option ContractNode} {result : ContractNode}

/-- The loop at a place of the block. -/
abbrev treeLoop (block strings : Bytes) (state : TreeState) (cursor : Nat) :
    Result ContractNode :=
  loop blockReader block (treeBody strings) state cursor

theorem treeLoop_nop (place : At block cursor (be32 nopToken ++ rest))
    (state : TreeState) :
    treeLoop block strings state cursor =
      treeLoop block strings state (cursor + 4) := by
  rw [treeLoop, loop_nop treeBody_steady place]
  rfl

theorem treeLoop_prop {property : Property}
    (place : At block cursor (property.bytes ++ rest)) :
    treeLoop block strings ⟨node :: stack, root⟩ cursor = .ok result ↔
      ∃ name, DeviceTree.stringAt strings property.nameoff = some name ∧
        ((node.get name).isNone = true ∧ node.children.isEmpty = true) ∧
        treeLoop block strings ⟨node.set name property.value :: stack, root⟩
          (cursor + property.bytes.length) = .ok result := by
  rw [treeLoop, loop_prop treeBody_steady place, Run.bind_eq_ok]
  simp only [treeBody, Run.bind_eq_ok, Run.ofOption_eq_ok, stringAt_eq]
  constructor
  · rintro ⟨_, ⟨name, named, _, accepted, same⟩, later⟩
    rw [Run.ensure_eq_ok] at accepted
    cases same
    exact ⟨name, named, accepted, later⟩
  · rintro ⟨name, named, accepted, later⟩
    exact ⟨_, ⟨name, named, (), Run.ensure_of accepted _, rfl⟩, later⟩

theorem treeLoop_beginNode {name : NodeName}
    (place : At block cursor (name.bytes ++ rest)) :
    treeLoop block strings ⟨node :: stack, root⟩ cursor = .ok result ↔
      stack.length + 1 < 64 ∧
        treeLoop block strings ⟨.new name.text :: node :: stack, root⟩
          (cursor + name.bytes.length) = .ok result := by
  rw [treeLoop, loop_beginNode treeBody_steady place, Run.bind_eq_ok]
  simp only [treeBody, Run.bind_eq_ok]
  constructor
  · rintro ⟨_, ⟨_, _, _, shallow, same⟩, later⟩
    rw [Run.ensure_eq_ok] at shallow
    cases same
    exact ⟨shallow, later⟩
  · rintro ⟨shallow, later⟩
    exact ⟨_, ⟨(), Run.ensure_of (by simp) _, (), Run.ensure_of shallow _, rfl⟩,
      later⟩

theorem treeLoop_endNode {parent : ContractNode}
    (place : At block cursor (be32 endNodeToken ++ rest)) :
    treeLoop block strings ⟨node :: parent :: stack, root⟩ cursor =
        .ok result ↔
      (parent.child node.name).isNone = true ∧
        treeLoop block strings ⟨parent.push node :: stack, root⟩
          (cursor + 4) = .ok result := by
  rw [treeLoop, loop_endNode treeBody_steady place, Run.bind_eq_ok]
  simp only [treeBody, Run.bind_eq_ok]
  constructor
  · rintro ⟨_, ⟨_, fresh, same⟩, later⟩
    rw [Run.ensure_eq_ok] at fresh
    cases same
    exact ⟨fresh, later⟩
  · rintro ⟨fresh, later⟩
    exact ⟨_, ⟨(), Run.ensure_of fresh _, rfl⟩, later⟩

/-- The loop takes in a forest in a node as `absorb` does. -/
theorem treeLoop_forest (forest : Forest) {room : Nat}
    (depth : stack.length + 1 + room = 64)
    (place : At block cursor (forest.bytes ++ rest)) :
    treeLoop block strings ⟨node :: stack, root⟩ cursor = .ok result ↔
      ∃ node', absorb room (forest.content strings) node = some node' ∧
        treeLoop block strings ⟨node' :: stack, root⟩
          (cursor + forest.bytes.length) = .ok result := by
  induction forest generalizing room node stack cursor rest with
  | nil => simp [Forest.content, absorb, Forest.bytes]
  | nop more induction =>
      rw [Forest.bytes, List.append_assoc] at place
      rw [treeLoop_nop place, induction depth place.nop_rest, Forest.content,
        Forest.bytes, List.length_append, Bytes.toBe_length, Nat.add_assoc]
  | prop property more induction =>
      rw [Forest.bytes, List.append_assoc] at place
      rw [treeLoop_prop place, Forest.content, Forest.bytes, List.length_append,
        ← Nat.add_assoc]
      simp only [absorb, Option.bind_eq_bind, Option.bind_eq_some_iff]
      constructor
      · rintro ⟨name, named, accepted, later⟩
        obtain ⟨node', read, later⟩ :=
          (induction depth place.prop_rest).mp later
        exact ⟨node', ⟨name, named, by rw [if_pos accepted, read]⟩, later⟩
      · rintro ⟨node', ⟨name, named, read⟩, later⟩
        split at read
        · rename_i accepted
          exact ⟨name, named, accepted,
            (induction depth place.prop_rest).mpr ⟨node', read, later⟩⟩
        · cases read
  | node name inner more innerInduction moreInduction =>
      have named : At block cursor (name.bytes ++ (inner.bytes ++
          (be32 endNodeToken ++ (more.bytes ++ rest)))) := by
        simpa [Forest.bytes] using place
      have inside := named.name_rest
      have closing := inside.forest_rest
      have behind := closing.skip_be32
      have length : cursor + (Forest.node name inner more).bytes.length =
          cursor + name.bytes.length + inner.bytes.length + 4 +
            more.bytes.length := by
        simp only [Forest.bytes, List.length_append, Bytes.toBe_length]
        omega
      rw [treeLoop_beginNode named, length, Forest.content]
      cases room with
      | zero =>
          simp only [absorb, reduceCtorEq, false_and, exists_false, iff_false]
          omega
      | succ room =>
          have deeper : (node :: stack).length + 1 + room = 64 := by
            rw [List.length_cons]
            omega
          rw [innerInduction deeper inside]
          simp only [absorb, Option.bind_eq_bind, Option.bind_eq_some_iff]
          constructor
          · rintro ⟨_, child, read, later⟩
            have same : child.name = name.text := absorb_name read
            obtain ⟨fresh, later⟩ := (treeLoop_endNode closing).mp later
            obtain ⟨node', read', later⟩ :=
              (moreInduction depth behind).mp later
            rw [same] at fresh
            exact ⟨node', ⟨child, read, by rw [if_pos fresh, read']⟩, later⟩
          · rintro ⟨node', ⟨child, read, read'⟩, later⟩
            have same : child.name = name.text := absorb_name read
            split at read'
            · rename_i fresh
              refine ⟨by omega, child, read,
                (treeLoop_endNode closing).mpr ⟨?_, ?_⟩⟩
              · rw [same]
                exact fresh
              · exact (moreInduction depth behind).mpr ⟨node', read', later⟩
            · cases read'

/-! ## Outside of every node -/

theorem treeLoop_root {name : NodeName}
    (place : At block cursor (name.bytes ++ rest)) :
    treeLoop block strings ⟨[], root⟩ cursor = .ok result ↔
      (root = none ∧ name.text = []) ∧
        treeLoop block strings ⟨[.new name.text], root⟩
          (cursor + name.bytes.length) = .ok result := by
  rw [treeLoop, loop_beginNode treeBody_steady place, Run.bind_eq_ok]
  simp only [treeBody, Run.bind_eq_ok]
  constructor
  · rintro ⟨_, ⟨_, single, _, shallow, same⟩, later⟩
    rw [Run.ensure_eq_ok] at single
    cases same
    exact ⟨by simpa using single, later⟩
  · rintro ⟨single, later⟩
    exact ⟨_, ⟨(), Run.ensure_of (by simpa using single) _, (),
      Run.ensure_of (by simp) _, rfl⟩, later⟩

theorem treeLoop_endRoot
    (place : At block cursor (be32 endNodeToken ++ rest)) :
    treeLoop block strings ⟨[node], root⟩ cursor =
      treeLoop block strings ⟨[], some node⟩ (cursor + 4) := by
  rw [treeLoop, loop_endNode treeBody_steady place]
  rfl

theorem treeLoop_fin (place : At block cursor (be32 endToken ++ rest)) :
    treeLoop block strings ⟨[], root⟩ cursor = .ok result ↔
      root = some result := by
  rw [treeLoop, loop_fin treeBody_steady place, Run.bind_eq_ok]
  simp only [treeBody, Run.bind_eq_ok, Run.ofOption_eq_ok]
  constructor
  · rintro ⟨_, ⟨tree, found, same⟩, later⟩
    cases same
    cases later
    exact found
  · intro found
    exact ⟨_, ⟨result, found, rfl⟩, rfl⟩

theorem treeLoop_outside {property : Property}
    (place : At block cursor (property.bytes ++ rest)) :
    treeLoop block strings ⟨[], root⟩ cursor ≠ .ok result := by
  rw [treeLoop, loop_prop treeBody_steady place]
  intro returns
  obtain ⟨_, step, _⟩ := Run.bind_eq_ok.mp returns
  obtain ⟨_, _, step⟩ := Run.bind_eq_ok.mp step
  exact Run.fail_ne_ok _ _ step

/-- The whole block, from before or after its root. -/
theorem treeLoop_ground (forest : Forest)
    (place : At block cursor (forest.bytes ++ (be32 endToken ++ rest))) :
    treeLoop block strings ⟨[], root⟩ cursor = .ok result ↔
      (forest.content strings = .nil ∧ root = some result) ∨
        (root = none ∧ ∃ body, forest.content strings = .node [] body .nil ∧
          absorb 63 body (.new []) = some result) := by
  induction forest generalizing root cursor with
  | nil => simp [treeLoop_fin place, Forest.content]
  | nop more induction =>
      rw [Forest.bytes, List.append_assoc] at place
      rw [treeLoop_nop place, induction place.nop_rest, Forest.content]
  | prop property more _ =>
      rw [Forest.bytes, List.append_assoc] at place
      simp [treeLoop_outside place, Forest.content]
  | node name inner more _ moreInduction =>
      have named : At block cursor (name.bytes ++ (inner.bytes ++
          (be32 endNodeToken ++ (more.bytes ++ (be32 endToken ++ rest))))) := by
        simpa [Forest.bytes] using place
      have inside := named.name_rest
      have closing := inside.forest_rest
      have behind := closing.skip_be32
      have shallow : ([] : List ContractNode).length + 1 + 63 = 64 := rfl
      rw [treeLoop_root named, treeLoop_forest inner shallow inside]
      simp only [treeLoop_endRoot closing, moreInduction behind,
        Forest.content]
      constructor
      · rintro ⟨⟨rfl, unnamed⟩, tree, read, ⟨last, same⟩ | ⟨absurd, _⟩⟩
        · cases same
          exact .inr ⟨rfl, _, by rw [last, unnamed], unnamed ▸ read⟩
        · cases absurd
      · rintro (⟨absurd, _⟩ | ⟨rfl, body, same, read⟩)
        · cases absurd
        · obtain ⟨unnamed, rfl, last⟩ := Content.node.inj same
          exact ⟨⟨rfl, unnamed⟩, result, unnamed ▸ read, .inl ⟨last, rfl⟩⟩

end

/-! ## Whole blobs -/

theorem treeBody_tracks (block strings : Bytes) :
    Tracks block (treeBody strings) (fun state => state.stack.length) True
      (fun _ => WholeBlock) where
  beginNode := by
    intro state cursor name next outcome _ step
    obtain ⟨_, _, step⟩ := Run.bind_eq_ok.mp step
    obtain ⟨_, _, step⟩ := Run.bind_eq_ok.mp step
    cases step
    exact .inl ⟨_, rfl, rfl⟩
  endNode := by
    intro state cursor next outcome step
    obtain ⟨stack, root⟩ := state
    rcases stack with _ | ⟨node, _ | ⟨parent, stack⟩⟩
    · cases step
    · cases step
      exact .inl ⟨_, rfl, rfl, .inl trivial⟩
    · obtain ⟨_, _, step⟩ := Run.bind_eq_ok.mp step
      cases step
      exact .inl ⟨_, rfl, rfl, .inl trivial⟩
  prop := by
    intro state cursor nameoff value next outcome step
    obtain ⟨stack, root⟩ := state
    obtain ⟨_, _, step⟩ := Run.bind_eq_ok.mp step
    cases stack with
    | nil => cases step
    | cons node stack =>
        obtain ⟨_, _, step⟩ := Run.bind_eq_ok.mp step
        cases step
        exact ⟨_, rfl, rfl⟩
  nop := by
    intro state cursor next outcome step
    cases step
    exact ⟨_, rfl, rfl⟩
  fin := by
    intro state cursor next outcome step
    obtain ⟨stack, root⟩ := state
    cases stack with
    | nil =>
        obtain ⟨_, _, step⟩ := Run.bind_eq_ok.mp step
        cases step
        exact ⟨_, rfl, rfl, fun data => ⟨.nil, data, rfl⟩⟩
    | cons node stack => cases step

/-- The loop over a structure block is what `contract_tree` does with an
accepted blob. -/
theorem contractTree_eq {dtb : Bytes} (accepted : Accepted dtb) :
    contractTree dtb =
      treeLoop (structBlock dtb) (stringsBlock dtb) ⟨[], none⟩ 0 := by
  rw [contractTree, headerParse_eq_ok.mpr ⟨rfl, accepted⟩, Run.ok_bind,
    checkedSlice_struct accepted, Run.ok_bind,
    checkedSlice_strings accepted, Run.ok_bind]

/-- A forest of one unnamed root that holds a tree. -/
structure HoldsTree (strings : Bytes) (forest : Forest)
    (tree : ContractNode) : Prop where
  content : forest.content strings = .node [] tree.body .nil
  unnamed : tree.name = []
  canonical : tree.Canonical 64

theorem contractTree_forest {dtb trailing : Bytes} {forest : Forest}
    (accepted : Accepted dtb)
    (block : structBlock dtb = forest.bytes ++ (be32 endToken ++ trailing))
    {tree : ContractNode} :
    contractTree dtb = .ok tree ↔
      HoldsTree (stringsBlock dtb) forest tree := by
  have place : At (structBlock dtb) 0
      (forest.bytes ++ (be32 endToken ++ trailing)) :=
    ⟨block, rfl, Nat.zero_le _, structBlock_short accepted.toWellPlaced⟩
  have noNul := forest.content_noNul (stringsBlock dtb)
  rw [contractTree_eq accepted, treeLoop_ground forest place]
  constructor
  · rintro (⟨_, absurd⟩ | ⟨_, body, content, read⟩)
    · cases absurd
    · rw [content] at noNul
      obtain ⟨unnamed, rfl, canonical⟩ :=
        (absorb_eq_some noNul.2.1 noNul.1).mp read
      exact ⟨content, unnamed, canonical⟩
  · intro holds
    rw [holds.content] at noNul
    exact .inr ⟨rfl, _, holds.content, (absorb_eq_some noNul.2.1 noNul.1).mpr
      ⟨holds.unnamed, rfl, holds.canonical⟩⟩

/-- `contract_tree` returns a tree exactly when the blob holds it. -/
theorem contractTree_eq_ok {dtb : Bytes} {tree : ContractNode} :
    contractTree dtb = .ok tree ↔ Accepted dtb ∧ ∃ forest trailing,
      structBlock dtb = forest.bytes ++ (be32 endToken ++ trailing) ∧
        HoldsTree (stringsBlock dtb) forest tree := by
  constructor
  · intro returns
    obtain ⟨header, parsed, _⟩ := Run.bind_eq_ok.mp returns
    obtain ⟨rfl, accepted⟩ := headerParse_eq_ok.mp parsed
    have looped := contractTree_eq accepted ▸ returns
    obtain ⟨_, forest, trailing, block⟩ := loop_closes
      (structBlock_short accepted.toWellPlaced) treeBody_steady
      (treeBody_tracks _ _) (fun _ _ => WholeBlock.absorbs) Cursor.zero
      (.inl trivial) looped
    exact ⟨accepted, forest, trailing, block,
      (contractTree_forest accepted block).mp returns⟩
  · rintro ⟨accepted, forest, trailing, block, holds⟩
    exact (contractTree_forest accepted block).mpr holds

end Pocketboot.Kexec
