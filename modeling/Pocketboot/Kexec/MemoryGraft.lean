import Pocketboot.Kexec.ChosenPatch
import Pocketboot.Kexec.MemoryTree
import Pocketboot.Kexec.Ranges

/-!
# `graft_memory` as an edit of the tree

The blob that `graft_memory` returns decodes to the target with the memory
nodes of the live tree in place of its own.
-/

namespace Pocketboot.Kexec

open DeviceTree

/-! ## The forest that is written -/

/-- A forest without its memory nodes. -/
def leftForest : Forest → Forest
  | .nil => .nil
  | .nop rest => .nop (leftForest rest)
  | .prop property rest => .prop property (leftForest rest)
  | .node name inner rest =>
      if isMemoryNodeName name.text then leftForest rest
      else .node name inner (leftForest rest)

/-- Nodes in front of the first node, or at the end. -/
def beforeForest (new : Forest) : Forest → Forest
  | .nil => new
  | .nop rest => .nop (beforeForest new rest)
  | .prop property rest => .prop property (beforeForest new rest)
  | .node name inner rest => new.append (.node name inner rest)

section

variable {strings : Bytes}

theorem leftForest_content (forest : Forest) :
    (leftForest forest).content strings =
      withoutMemory (forest.content strings) := by
  induction forest with
  | nil => rfl
  | nop rest induction => exact induction
  | prop property rest induction =>
      rw [leftForest, Forest.content, Forest.content, withoutMemory, induction]
  | node name inner rest _ induction =>
      rw [leftForest, Forest.content, withoutMemory]
      split
      · exact induction
      · rw [Forest.content, induction]

theorem beforeForest_content (new forest : Forest) :
    (beforeForest new forest).content strings =
      beforeNodes (new.content strings) (forest.content strings) := by
  induction forest with
  | nil => rfl
  | nop rest induction => exact induction
  | prop property rest induction =>
      rw [beforeForest, Forest.content, Forest.content, beforeNodes, induction]
  | node name inner rest _ _ =>
      rw [beforeForest, Forest.content_append]
      rfl

theorem beforeForest_length (new forest : Forest) :
    (beforeForest new forest).bytes.length =
      new.bytes.length + forest.bytes.length := by
  induction forest with
  | nil => rfl
  | nop rest induction =>
      simp only [beforeForest, Forest.bytes, List.length_append, induction]
      omega
  | prop property rest induction =>
      simp only [beforeForest, Forest.bytes, List.length_append, induction]
      omega
  | node name inner rest _ _ =>
      rw [beforeForest, Forest.bytes_append, List.length_append]

end

/-! ## The pass over the target -/

section

variable {memory : List MemoryFragment} {copied : Forest}

/-- Below a child of the root all is copied. -/
theorem graftWalk_deep {forest : Forest} {state : GraftState}
    (deep : 2 ≤ state.depth)
    (shallow : state.depth + forest.bytes.length < wordSize) :
    (graftWalk memory).run forest state =
      .ok { state with output := state.output ++ forest.bytes } := by
  induction forest generalizing state with
  | nil =>
      rw [Forest.bytes, List.append_nil]
      rfl
  | nop rest induction =>
      rw [Forest.bytes, List.length_append] at shallow
      have next := @induction
        { state with output := state.output ++ be32 nopToken } deep
        (by dsimp only; omega)
      rw [Walk.run, Forest.bytes, ← List.append_assoc]
      exact next
  | prop property rest induction =>
      rw [Forest.bytes, List.length_append] at shallow
      have next := @induction
        { state with output := state.output ++ property.bytes } deep
        (by dsimp only; omega)
      rw [Walk.run, Forest.bytes, ← List.append_assoc]
      exact next
  | node name inner rest innerInduction restInduction =>
      simp only [Forest.bytes, List.length_append, Bytes.toBe_length]
        at shallow
      have wide : 4 ≤ name.bytes.length :=
        (Lexeme.beginNode name).four_le_bytes_length
      have keeps : ∀ depth output, 2 ≤ depth → insertMemory memory
          { state with depth, output } = { state with depth, output } := by
        intro depth output below
        simp only [insertMemory]
        rw [decide_eq_false (by omega), Bool.false_and,
          if_neg (by decide)]
      have entered : (graftWalk memory).enter state name inner = .ok
          ({ state with
            depth := state.depth + 1
            output := state.output ++ name.bytes }, false) := by
        have other :
            (state.depth = 1 && isMemoryNodeName name.text) = false := by
          rw [decide_eq_false (by omega), Bool.false_and]
        simp only [graftWalk]
        rw [if_neg (by omega), if_neg (by rw [other]; decide),
          keeps state.depth state.output deep]
        dsimp only
        rw [addOrPanic_of (by omega)]
        rfl
      have left : ∀ output, (graftWalk memory).leave
          { state with depth := state.depth + 1, output } = .ok
          { state with output := output ++ be32 endNodeToken } := by
        intro output
        change (leaveDepth (state.depth + 1) >>= _) = _
        rw [leaveDepth_succ, Run.ok_bind]
        dsimp only
        rw [keeps _ _ (by omega)]
        rfl
      have inside := @innerInduction
        { state with
          depth := state.depth + 1
          output := state.output ++ name.bytes } (by dsimp only; omega)
        (by dsimp only; omega)
      have next := @restInduction
        { state with
          output := state.output ++ name.bytes ++ inner.bytes ++
            be32 endNodeToken } deep (by dsimp only; omega)
      rw [Walk.run, entered, Run.ok_bind]
      dsimp only
      rw [if_neg (by decide), inside, Run.ok_bind, left, Run.ok_bind, next]
      simp [Forest.bytes]

/-- A node below the root that is not a memory node is copied whole. -/
theorem graftWalk_node {name : NodeName} {inner rest : Forest}
    {state : GraftState} (root : state.depth = 1)
    (other : isMemoryNodeName name.text ≠ true)
    (shallow : 2 + inner.bytes.length < wordSize) :
    (graftWalk memory).run (.node name inner rest) state =
      (graftWalk memory).run rest
        { insertMemory memory state with
          output := (insertMemory memory state).output ++
            (Forest.node name inner .nil).bytes } := by
  have entered : (graftWalk memory).enter state name inner = .ok
      ({ insertMemory memory state with
        depth := 2
        output := (insertMemory memory state).output ++ name.bytes },
        false) := by
    have unknown : (state.depth = 1 && isMemoryNodeName name.text) ≠ true := by
      rw [decide_eq_true root, Bool.true_and]
      exact other
    simp only [graftWalk]
    rw [if_neg (by omega), if_neg unknown, insertMemory_depth, root,
      addOrPanic_of (by decide)]
    rfl
  have depth : (insertMemory memory state).depth = 1 :=
    (insertMemory_depth memory state).trans root
  have left : ∀ output, (graftWalk memory).leave
      { insertMemory memory state with depth := 2, output } = .ok
      { insertMemory memory state with
        output := output ++ be32 endNodeToken } := by
    intro output
    change (leaveDepth (1 + 1) >>= _) = _
    rw [leaveDepth_succ, Run.ok_bind]
    rw [← depth]
    rfl
  rw [Walk.run, entered, Run.ok_bind]
  dsimp only
  rw [if_neg (by decide), graftWalk_deep le_rfl (by dsimp only; omega),
    Run.ok_bind, left, Run.ok_bind]
  simp [Forest.bytes]

theorem insertMemory_inserted {state : GraftState}
    (inserted : state.insertedMemory = true) :
    insertMemory memory state = state := by
  simp only [insertMemory]
  rw [inserted, Bool.not_true, Bool.and_false, if_neg (by decide)]

theorem appendMemoryFragments_eq (output : Bytes) :
    appendMemoryFragments output memory =
      output ++ memory.flatMap (·.data) := by
  unfold appendMemoryFragments
  induction memory generalizing output with
  | nil => simp
  | cons fragment memory induction =>
      rw [List.foldl_cons, induction, List.flatMap_cons, List.append_assoc]

/-- The root once the memory nodes are in it. -/
theorem graftWalk_inserted {forest : Forest} {state : GraftState}
    (root : state.depth = 1) (inserted : state.insertedMemory = true)
    (shallow : 2 + forest.bytes.length < wordSize) :
    (graftWalk memory).run forest state =
      .ok { state with
        output := state.output ++ (leftForest forest).bytes } := by
  induction forest generalizing state with
  | nil =>
      rw [leftForest, Forest.bytes, List.append_nil]
      rfl
  | nop rest induction =>
      rw [Forest.bytes, List.length_append] at shallow
      have next := @induction
        { state with output := state.output ++ be32 nopToken } root inserted
        (by omega)
      rw [Walk.run, leftForest, Forest.bytes, ← List.append_assoc]
      exact next
  | prop property rest induction =>
      rw [Forest.bytes, List.length_append] at shallow
      have next := @induction
        { state with output := state.output ++ property.bytes } root inserted
        (by omega)
      rw [Walk.run, leftForest, Forest.bytes, ← List.append_assoc]
      exact next
  | node name inner rest _ induction =>
      simp only [Forest.bytes, List.length_append] at shallow
      by_cases known : isMemoryNodeName name.text = true
      · have entered : (graftWalk memory).enter state name inner =
            .ok (state, true) := by
          have both :
              (state.depth = 1 && isMemoryNodeName name.text) = true := by
            rw [decide_eq_true root, known]
            rfl
          simp only [graftWalk]
          rw [if_neg (by omega), if_pos both]
        rw [Walk.run, entered, Run.ok_bind, leftForest, if_pos known]
        exact induction root inserted (by omega)
      · have next := @induction
          { state with
            output := state.output ++ (Forest.node name inner .nil).bytes }
          root inserted (by omega)
        rw [graftWalk_node root known (by omega),
          insertMemory_inserted inserted, leftForest, if_neg known]
        refine next.trans ?_
        simp [Forest.bytes]

/-- The root up to its end, when the memory nodes are still to come. -/
theorem graftWalk_root (same : memory.flatMap (·.data) = copied.bytes)
    {forest : Forest} {state : GraftState} (root : state.depth = 1)
    (fresh : state.insertedMemory = false)
    (shallow : 2 + forest.bytes.length < wordSize) :
    ((graftWalk memory).run forest state >>= (graftWalk memory).leave) =
      .ok ⟨0, state.sawRoot, true, state.output ++
        ((beforeForest copied (leftForest forest)).bytes ++
          be32 endNodeToken)⟩ := by
  have inserts : ∀ output, insertMemory memory { state with output } =
      ⟨1, state.sawRoot, true, output ++ copied.bytes⟩ := by
    intro output
    simp only [insertMemory]
    rw [decide_eq_true root, fresh, Bool.not_false, Bool.and_true, if_pos rfl,
      appendMemoryFragments_eq, same, root]
  have leaves : ∀ output, (graftWalk memory).leave
      ⟨1, state.sawRoot, true, output⟩ =
      .ok ⟨0, state.sawRoot, true, output ++ be32 endNodeToken⟩ := by
    intro output
    change (leaveDepth (0 + 1) >>= _) = _
    rw [leaveDepth_succ, Run.ok_bind]
    dsimp only
    rw [insertMemory_inserted rfl]
    rfl
  induction forest generalizing state with
  | nil =>
      have inserted := inserts state.output
      change (leaveDepth state.depth >>= _) = _
      rw [root, leaveDepth_succ, Run.ok_bind]
      dsimp only
      rw [inserted, leftForest, beforeForest, List.append_assoc]
      rfl
  | nop rest induction =>
      rw [Forest.bytes, List.length_append] at shallow
      have next := @induction
        { state with output := state.output ++ be32 nopToken } root fresh
        (by omega) inserts leaves
      rw [Walk.run, leftForest, beforeForest, Forest.bytes]
      refine next.trans ?_
      simp
  | prop property rest induction =>
      rw [Forest.bytes, List.length_append] at shallow
      have next := @induction
        { state with output := state.output ++ property.bytes } root fresh
        (by omega) inserts leaves
      rw [Walk.run, leftForest, beforeForest, Forest.bytes]
      refine next.trans ?_
      simp
  | node name inner rest _ induction =>
      simp only [Forest.bytes, List.length_append] at shallow
      by_cases known : isMemoryNodeName name.text = true
      · have entered : (graftWalk memory).enter state name inner =
            .ok (state, true) := by
          have both :
              (state.depth = 1 && isMemoryNodeName name.text) = true := by
            rw [decide_eq_true root, known]
            rfl
          simp only [graftWalk]
          rw [if_neg (by omega), if_pos both]
        rw [Walk.run, entered, Run.ok_bind, leftForest, if_pos known]
        exact induction root fresh (by omega) inserts leaves
      · have inserted := inserts state.output
        rw [graftWalk_node root known (by omega), inserted, leftForest,
          if_neg known, graftWalk_inserted rfl rfl (by omega), Run.ok_bind,
          beforeForest, leaves]
        simp [Forest.bytes]

/-- The target's forest with other memory nodes in its root. -/
def graftedForest (new : Forest) : Forest → Forest
  | .nil => .nil
  | .nop rest => .nop (graftedForest new rest)
  | .prop property rest => .prop property (graftedForest new rest)
  | .node name inner rest =>
      .node name (beforeForest new (leftForest inner)) rest

theorem graftedForest_single (new : Forest) (before : Nat) (name : NodeName)
    (inner rest : Forest) :
    graftedForest new ((Forest.nops before).append (.node name inner rest)) =
      (Forest.nops before).append
        (.node name (beforeForest new (leftForest inner)) rest) := by
  induction before with
  | zero => rfl
  | succ before induction => exact congrArg Forest.nop induction

theorem graftedForest_length {new new' : Forest}
    (same : new.bytes.length = new'.bytes.length) (forest : Forest) :
    (graftedForest new forest).bytes.length =
      (graftedForest new' forest).bytes.length := by
  induction forest with
  | nil => rfl
  | nop rest induction =>
      simp only [graftedForest, Forest.bytes, List.length_append, induction]
  | prop property rest induction =>
      simp only [graftedForest, Forest.bytes, List.length_append, induction]
  | node name inner rest _ _ =>
      simp only [graftedForest, Forest.bytes, List.length_append,
        beforeForest_length, same]

theorem nops_content (strings : Bytes) (count : Nat) (rest : Forest) :
    ((Forest.nops count).append rest).content strings =
      rest.content strings := by
  induction count with
  | zero => rfl
  | succ count induction => exact induction

theorem graftedForest_content {strings : Bytes} {forest : Forest}
    {body : Content} (new : Forest)
    (content : forest.content strings = .node [] body .nil) :
    (graftedForest new forest).content strings =
      .node [] (withMemory (new.content strings) body) .nil := by
  obtain ⟨before, after, name, inner, rfl, unnamed, rfl⟩ :=
    Forest.exists_single content
  rw [nops_content, Forest.content] at content
  obtain ⟨_, _, blank⟩ := Content.node.inj content
  rw [graftedForest_single, nops_content, Forest.content, unnamed, blank,
    beforeForest_content, leftForest_content]
  rfl

theorem graftWalk_nops (count : Nat) (state : GraftState) :
    (graftWalk memory).run (.nops count) state =
      .ok { state with
        output := state.output ++ (Forest.nops count).bytes } := by
  induction count generalizing state with
  | zero =>
      rw [Forest.nops, Forest.bytes, List.append_nil]
      rfl
  | succ count induction =>
      have next := induction
        { state with output := state.output ++ be32 nopToken }
      refine next.trans ?_
      simp [Forest.nops, Forest.bytes]

theorem sumOrPanic_eq {items : List Nat} (small : items.sum < wordSize) :
    sumOrPanic items = .ok items.sum := by
  have from_total : ∀ (items : List Nat) (total : Nat),
      total + items.sum < wordSize →
      items.foldlM (fun total item => (addOrPanic wordSize total item :
        Result Nat)) total = .ok (total + items.sum) := by
    intro items
    induction items with
    | nil => exact fun total _ => rfl
    | cons item items induction =>
        intro total bounded
        rw [List.sum_cons] at bounded ⊢
        rw [List.foldlM_cons, addOrPanic_of (by omega), Run.ok_bind,
          induction _ (by omega), Nat.add_assoc]
  have summed := from_total items 0 (by omega)
  rwa [Nat.zero_add] at summed

variable {block trailing strings : Bytes} {forest : Forest} {body : Content}

theorem graftMemoryStructure_eq (short : block.length < 2 ^ 32)
    (holds : block = forest.bytes ++ (be32 endToken ++ trailing))
    (content : forest.content strings = .node [] body .nil)
    (same : memory.flatMap (·.data) = copied.bytes)
    (small : copied.bytes.length < 2 ^ 32) :
    graftMemoryStructure block memory =
      .ok ((graftedForest copied forest).bytes ++ be32 endToken) := by
  have place : At block 0 (forest.bytes ++ (be32 endToken ++ trailing)) :=
    ⟨holds, rfl, Nat.zero_le _, short⟩
  have copiedEnd := @At.copied IoError _ _ _ _ place.forest_rest
  rw [Bytes.toBe_length] at copiedEnd
  have total : (memory.map (·.data.length)).sum = copied.bytes.length := by
    rw [← same, List.length_flatMap]
  have length := congrArg List.length holds
  simp only [List.length_append] at length
  obtain ⟨before, after, name, inner, rfl, unnamed, rfl⟩ :=
    Forest.exists_single content
  have inside : inner.bytes.length + 4 ≤ block.length := by
    rw [Forest.bytes_append, Forest.bytes] at length
    simp only [List.length_append, Bytes.toBe_length] at length
    omega
  have entered : ∀ output, (graftWalk memory).enter ⟨0, false, false, output⟩
      name inner = .ok (⟨1, true, false, output ++ name.bytes⟩, false) := by
    intro output
    simp only [graftWalk, checkRoot]
    rw [unnamed]
    rfl
  have middle := @graftWalk_root memory copied same inner
    ⟨1, true, false, [] ++ (Forest.nops before).bytes ++ name.bytes⟩ rfl rfl
    (by unfold wordSize; omega)
  rw [graftMemoryStructure, sumOrPanic_eq (by unfold wordSize; omega),
    Run.ok_bind, total, addOrPanic_of (by unfold wordSize; omega), Run.ok_bind,
    loop_forest (graftBody_steady short) (graftWalk_follows block memory) _
      place, Walk.run_append, graftWalk_nops, Run.ok_bind, Walk.run, entered,
    Run.ok_bind]
  dsimp only
  rw [if_neg (by decide), ← bind_assoc, middle, Run.ok_bind, graftWalk_nops,
    Run.ok_bind, loop_fin (graftBody_steady short) place.forest_rest]
  change ((sliceOrPanic block _ _ >>= _) >>= _) = _
  rw [copiedEnd, Run.ok_bind]
  dsimp only
  rw [checkEnd, Run.ensure_of rfl, Run.ok_bind, Run.ensure_of rfl,
    graftedForest_single]
  simp [Forest.bytes, Run.ok_bind]
  rfl

end

/-! ## What the edit leaves alone -/

section

variable {new body : Content}

theorem isMemoryNodeName_ne {name : Bytes}
    (memory : isMemoryNodeName name = true) : name ≠ nodeReservedMemory := by
  rintro rfl
  exact absurd memory (by decide)

theorem run_memoryNodes (body : Content) {state : ReservedState}
    (root : state.stack = [[]]) :
    reservedVisit.run (memoryNodes body) state = .ok state := by
  induction body with
  | nil => rfl
  | prop name value rest induction => exact induction
  | node name inner rest _ induction =>
      rw [memoryNodes]
      split
      · rename_i memory
        rw [run_node_quiet root (isMemoryNodeName_ne memory)]
        exact induction
      · exact induction

theorem run_withoutMemory (body : Content) {state : ReservedState}
    (root : state.stack = [[]]) :
    reservedVisit.run (withoutMemory body) state =
      reservedVisit.run body state := by
  induction body generalizing state with
  | nil => rfl
  | prop name value rest induction =>
      cases name with
      | none => exact induction root
      | some name =>
          rw [withoutMemory, Visit.run, Visit.run]
          cases stored : reservedVisit.prop state name value with
          | error fault => rfl
          | ok next => exact induction ((storeProp_stack stored).trans root)
  | node name inner rest _ induction =>
      rw [withoutMemory]
      split
      · rename_i memory
        rw [run_node_quiet root (isMemoryNodeName_ne memory)]
        exact induction root
      · have split : ∀ rest, Content.node name inner rest =
            (Content.node name inner .nil).append rest := fun _ => rfl
        rw [split, split rest, Visit.run_append, Visit.run_append]
        cases visited : reservedVisit.run (.node name inner .nil) state with
        | error fault => rfl
        | ok next => exact induction ((run_stack visited).trans root)

theorem run_beforeNodes
    (quiet : ∀ state : ReservedState, state.stack = [[]] →
      reservedVisit.run new state = .ok state)
    (body : Content) {state : ReservedState} (root : state.stack = [[]]) :
    reservedVisit.run (beforeNodes new body) state =
      reservedVisit.run body state := by
  induction body generalizing state with
  | nil => exact quiet state root
  | prop name value rest induction =>
      cases name with
      | none => exact induction root
      | some name =>
          rw [beforeNodes, Visit.run, Visit.run]
          cases stored : reservedVisit.prop state name value with
          | error fault => rfl
          | ok next => exact induction ((storeProp_stack stored).trans root)
  | node name inner rest _ _ =>
      rw [beforeNodes, Visit.run_append, quiet state root, Run.ok_bind]

/-- The loop over the reserved nodes does not see the memory nodes. -/
theorem run_withMemory (live body : Content) {state : ReservedState}
    (root : state.stack = [[]]) :
    reservedVisit.run (withMemory (memoryNodes live) body) state =
      reservedVisit.run body state := by
  rw [withMemory, run_beforeNodes (fun _ root => run_memoryNodes live root) _
    root, run_withoutMemory body root]

theorem named_memoryNodes (named : body.Named) : (memoryNodes body).Named := by
  induction body with
  | nil => exact named
  | prop name value rest induction => exact induction named.2
  | node name inner rest _ induction =>
      rw [memoryNodes]
      split
      · exact ⟨named.1, induction named.2⟩
      · exact induction named.2

theorem named_withMemory (fresh : new.Named) (named : body.Named) :
    (withMemory new body).Named := by
  have left : (withoutMemory body).Named := by
    induction body with
    | nil => exact named
    | prop name value rest induction => exact ⟨named.1, induction named.2⟩
    | node name inner rest _ induction =>
        rw [withoutMemory]
        split
        · exact induction named.2
        · exact ⟨named.1, induction named.2⟩
  unfold withMemory
  generalize withoutMemory body = rest at left
  induction rest with
  | nil => exact fresh
  | prop name value rest induction => exact ⟨left.1, induction left.2⟩
  | node name inner rest _ _ => exact named_append fresh left

end

/-! ## The memory that a tree describes -/

/-- The cells of addresses and sizes in the root, by its last properties. -/
def rootCells (body : Content) : Nat × Nat :=
  (((body.values propAddressCells).getLast?.map Bytes.ofBe).getD 2,
    ((body.values propSizeCells).getLast?.map Bytes.ofBe).getD 1)

/-- The pairs of an address and a size in the memory nodes. -/
def memoryPairs (cells : Nat × Nat) (body : Content) : List (Nat × Nat) :=
  (memoryNodes body).children.flatMap fun node =>
    (node.2.values propReg).flatMap (regPairs cells.1 cells.2)

theorem memoryNodes_idem (body : Content) :
    memoryNodes (memoryNodes body) = memoryNodes body := by
  induction body with
  | nil => rfl
  | prop name value rest induction => exact induction
  | node name inner rest _ induction =>
      rw [memoryNodes]
      split
      · rename_i memory
        rw [memoryNodes, if_pos memory, induction]
      · exact induction

theorem memoryNodes_append (first second : Content) :
    memoryNodes (first.append second) =
      (memoryNodes first).append (memoryNodes second) := by
  induction first with
  | nil => rfl
  | prop name value rest induction => exact induction
  | node name inner rest _ induction =>
      rw [Content.append, memoryNodes, memoryNodes, induction]
      split
      · rfl
      · rfl

theorem memoryNodes_withoutMemory (body : Content) :
    memoryNodes (withoutMemory body) = .nil := by
  induction body with
  | nil => rfl
  | prop name value rest induction => exact induction
  | node name inner rest _ induction =>
      rw [withoutMemory]
      split
      · exact induction
      · rename_i other
        rw [memoryNodes, if_neg other]
        exact induction

/-- The memory nodes of the new tree are those of the live one. -/
theorem memoryNodes_withMemory (live body : Content) :
    memoryNodes (withMemory (memoryNodes live) body) = memoryNodes live := by
  have none := memoryNodes_withoutMemory body
  unfold withMemory
  generalize withoutMemory body = rest at none
  induction rest with
  | nil => exact memoryNodes_idem live
  | prop name value rest induction => exact induction none
  | node name inner rest _ _ =>
      rw [beforeNodes, memoryNodes_append, none, memoryNodes_idem,
        Content.append_nil]

theorem props_append (first second : Content) :
    (first.append second).props = first.props ++ second.props := by
  induction first with
  | nil => rfl
  | prop name value rest induction =>
      rw [Content.append, Content.props, Content.props, induction]
      rfl
  | node name inner rest _ induction => exact induction

theorem props_memoryNodes (body : Content) : (memoryNodes body).props = [] := by
  induction body with
  | nil => rfl
  | prop name value rest induction => exact induction
  | node name inner rest _ induction =>
      rw [memoryNodes]
      split
      · exact induction
      · exact induction

/-- The root keeps its properties. -/
theorem props_withMemory (live body : Content) :
    (withMemory (memoryNodes live) body).props = body.props := by
  have left : (withoutMemory body).props = body.props := by
    induction body with
    | nil => rfl
    | prop name value rest induction =>
        rw [withoutMemory, Content.props, Content.props, induction]
    | node name inner rest _ induction =>
        rw [withoutMemory, Content.props]
        split
        · exact induction
        · exact induction
  rw [← left, withMemory]
  generalize withoutMemory body = rest
  induction rest with
  | nil => exact props_memoryNodes live
  | prop name value rest induction =>
      rw [beforeNodes, Content.props, Content.props, induction]
  | node name inner rest _ _ =>
      rw [beforeNodes, props_append, props_memoryNodes, List.nil_append]

theorem rootCells_withMemory (live body : Content) :
    rootCells (withMemory (memoryNodes live) body) = rootCells body := by
  simp only [rootCells, Content.values, props_withMemory]

/-! ## Whole blobs -/

section

variable {dtb liveDtb blob : Bytes} {forest liveForest : Forest}
  {body liveBody : Content} {entries : List Reservation}

/-- How long the blob with the live memory nodes becomes. -/
def graftedSize (dtb : Bytes) (forest liveForest : Forest)
    (liveBody : Content) (entries : List Reservation) : Nat :=
  40 + (reserveMapBytes entries).length +
    ((graftedForest (rootMemory liveForest) forest).bytes ++
      be32 endToken).length +
    (withNames (stringsBlock dtb) (memoryNodes liveBody)).length

/-- The fragments of a live tree, and the strings block with their names. -/
theorem extractMemoryFragments_root (live : HoldsRoot liveDtb liveForest liveBody)
    (outputStrings : Bytes) :
    ((withNames outputStrings (memoryNodes liveBody)).length < 2 ^ 32 →
      ∃ result, extractMemoryFragments (structBlock liveDtb)
        (stringsBlock liveDtb) outputStrings = .ok result) ∧
    (extractMemoryFragments (structBlock liveDtb) (stringsBlock liveDtb)
      outputStrings).Returns ∧
    ∀ fragments strings', extractMemoryFragments (structBlock liveDtb)
        (stringsBlock liveDtb) outputStrings = .ok (fragments, strings') →
      strings' = withNames outputStrings (memoryNodes liveBody) ∧
      (fragments = [] ↔ memoryNodes liveBody = .nil) ∧
      ∃ copied : Forest, fragments.flatMap (·.data) = copied.bytes ∧
        copied.content strings' = memoryNodes liveBody ∧
        copied.bytes.length = (rootMemory liveForest).bytes.length ∧
        copied.bytes.length < 2 ^ 32 := by
  obtain ⟨trailing, block⟩ := live.block
  have short := structBlock_short live.accepted.toWellPlaced
  obtain ⟨inner, rfl, inside, memory, same⟩ :=
    @extractMemoryFragments_eq (stringsBlock liveDtb) _ outputStrings _ _ _
      short block live.content
  have shallow : 2 + inner.bytes.length < wordSize := by
    unfold wordSize
    omega
  have ends := @extractWalk_ends (stringsBlock liveDtb) inner
    ⟨1, true, [], outputStrings⟩ live.named rfl shallow
  rw [same]
  cases walked : (extractWalk (stringsBlock liveDtb)).run inner
      ⟨1, true, [], outputStrings⟩ with
  | error fault =>
      refine ⟨fun fits => ?_, ends.1.error walked, fun _ _ absurd => ?_⟩
      · obtain ⟨_, run⟩ := ends.2 fits
        cases walked.symm.trans run
      · cases absurd
  | ok state =>
      obtain ⟨depth, sawRoot, names, fragments, copied, collects, collected⟩ :=
        extractWalk_eq_ok rfl shallow walked
      have finishes : (do
          let depth ← leaveDepth state.depth
          checkEnd state.sawRoot depth
          return (state.memory, state.outputStrings)) =
            (.ok (fragments, state.outputStrings) : Result _) := by
        rw [depth, leaveDepth_succ, Run.ok_bind, sawRoot, collects, checkEnd,
          Run.ensure_of rfl, Run.ok_bind, Run.ensure_of rfl]
        rfl
      rw [Run.ok_bind, finishes]
      refine ⟨fun _ => ⟨_, rfl⟩, Run.returns_ok _, ?_⟩
      rintro _ _ ⟨⟩
      have length := collected.length
      have bound := memoryForest_length_le inner
      exact ⟨names, collected.empty, copied, collected.bytes, collected.content,
        length.trans (congrArg (fun forest : Forest => forest.bytes.length)
          memory.symm), by omega⟩

/-- What `graft_memory` does once the fragments are there. -/
theorem graftMemory_eq (decodes : DecodesTo dtb forest body entries)
    (live : HoldsRoot liveDtb liveForest liveBody) :
    graftMemory dtb liveDtb = (do
      let (memory, strings) ← extractMemoryFragments (structBlock liveDtb)
        (stringsBlock liveDtb) (stringsBlock dtb)
      Run.ensure (memory ≠ []) (invalidData "live DTB has no root memory nodes")
      let newStruct ← graftMemoryStructure (structBlock dtb) memory
      buildDtb (headerOf dtb) (reserveMapBytes entries) newStruct strings) := by
  have accepted := decodes.accepted
  have map : reserveMap dtb (headerOf dtb) = .ok (reserveMapBytes entries) :=
    (reserveMap_eq_ok accepted).mpr ⟨entries, decodes.reserved, rfl⟩
  rw [graftMemory, headerParse_eq_ok.mpr ⟨rfl, accepted⟩, Run.ok_bind, map,
    Run.ok_bind, checkedSlice_struct accepted, Run.ok_bind,
    checkedSlice_strings accepted, Run.ok_bind,
    headerParse_eq_ok.mpr ⟨rfl, live.accepted⟩, Run.ok_bind,
    checkedSlice_struct live.accepted, Run.ok_bind,
    checkedSlice_strings live.accepted, Run.ok_bind]

theorem graftMemory_outcome (decodes : DecodesTo dtb forest body entries)
    (live : HoldsRoot liveDtb liveForest liveBody) :
    (memoryNodes liveBody = .nil ∨
        2 ^ 32 ≤ graftedSize dtb forest liveForest liveBody entries →
      ∃ error, graftMemory dtb liveDtb = Run.fail error) ∧
    (memoryNodes liveBody ≠ .nil →
      graftedSize dtb forest liveForest liveBody entries < 2 ^ 32 →
      ∃ blob forest', graftMemory dtb liveDtb = .ok blob ∧
        DecodesTo blob forest' (withMemory (memoryNodes liveBody) body)
          entries ∧
        (headerOf blob).version = (headerOf dtb).version ∧
        (headerOf blob).lastCompVersion = (headerOf dtb).lastCompVersion ∧
        (headerOf blob).bootCpuidPhys = (headerOf dtb).bootCpuidPhys) := by
  have accepted := decodes.accepted
  have aligned := reserveMapBytes_aligned entries
  have fits := headerOf_fits dtb
  obtain ⟨trailing, block⟩ := decodes.block
  have short := structBlock_short accepted.toWellPlaced
  obtain ⟨shortOk, returns, extracts⟩ :=
    extractMemoryFragments_root live (stringsBlock dtb)
  rw [graftMemory_eq decodes live]
  cases extracted : extractMemoryFragments (structBlock liveDtb)
      (stringsBlock liveDtb) (stringsBlock dtb) with
  | error fault =>
      obtain ⟨error, rfl⟩ := returns fault extracted
      refine ⟨fun _ => ⟨error, rfl⟩, fun _ small => ?_⟩
      obtain ⟨_, fragments⟩ := shortOk (by
        unfold graftedSize at small
        omega)
      cases extracted.symm.trans fragments
  | ok result =>
      obtain ⟨fragments, strings'⟩ := result
      obtain ⟨rfl, empty, copied, same, content, length, bound⟩ :=
        extracts fragments strings' extracted
      rw [Run.ok_bind]
      dsimp only
      by_cases none : memoryNodes liveBody = .nil
      · rw [Run.ensure_of_not (not_not.mpr (empty.mpr none))]
        exact ⟨fun _ => ⟨_, rfl⟩, fun some => absurd none some⟩
      · have structure' := graftMemoryStructure_eq short block decodes.content
          same bound
        have size : graftedSize dtb forest liveForest liveBody entries =
            40 + (reserveMapBytes entries).length +
              ((graftedForest copied forest).bytes ++ be32 endToken).length +
              (withNames (stringsBlock dtb) (memoryNodes liveBody)).length := by
          rw [graftedSize, List.length_append, List.length_append,
            graftedForest_length length]
        rw [Run.ensure_of (mt empty.mp none), Run.ok_bind, structure',
          Run.ok_bind, buildDtb_eq _ _ _ aligned, ← size]
        constructor
        · rintro (absurd | large)
          · exact (none absurd).elim
          · rw [if_neg (by omega)]
            exact ⟨_, rfl⟩
        · intro _ small
          rw [if_pos small]
          rw [size] at small
          obtain ⟨more, grown⟩ := withNames_grown (stringsBlock dtb)
            (memoryNodes liveBody)
          have named : (forest.content (stringsBlock dtb)).Named := by
            rw [decodes.content]
            exact ⟨decodes.named, trivial⟩
          have kept : forest.content (withNames (stringsBlock dtb)
              (memoryNodes liveBody)) = .node [] body .nil := by
            rw [grown, Forest.content_grown more named, decodes.content]
          refine ⟨_, graftedForest copied forest, rfl,
            ⟨⟨accepted_assemble fits small (by simp), ⟨[], ?_⟩, ?_, ?_⟩, ?_⟩,
            ?_, ?_, ?_⟩
          · rw [structBlock_assemble fits small, List.append_nil]
          · rw [stringsBlock_assemble fits small,
              graftedForest_content copied kept, content]
          · exact named_withMemory (named_memoryNodes live.named) decodes.named
          · exact reservations_assemble fits small
              (reservations_eq_some.mp decodes.reserved).2
          all_goals rw [headerOf_assemble fits small]; rfl

end

/-- `graft_memory` puts the memory nodes of the live tree in place of those of
the target, and keeps all else: the reserved ranges, the reserve map and the
words of the header. The pairs in the new nodes are read in the cells of the
target. It fails exactly when there are no live memory nodes or the new blob
does not fit its header. -/
theorem graftMemory_edits (dtb liveDtb : Bytes) (forest liveForest : Forest)
    (body liveBody : Content) (entries : List Reservation)
    (decodes : DecodesTo dtb forest body entries)
    (live : HoldsRoot liveDtb liveForest liveBody) :
    ((∃ error, graftMemory dtb liveDtb = Run.fail error) ↔
      memoryNodes liveBody = .nil ∨
        2 ^ 32 ≤ graftedSize dtb forest liveForest liveBody entries) ∧
    (memoryNodes liveBody ≠ .nil →
      graftedSize dtb forest liveForest liveBody entries < 2 ^ 32 →
      ∃ blob output, graftMemory dtb liveDtb = .ok blob ∧
        output = withMemory (memoryNodes liveBody) body ∧
        DeviceTree.decode blob = some (.node [] output .nil) ∧
        reservations blob = some entries ∧
        reservedRanges blob = reservedRanges dtb ∧
        (headerOf blob).version = (headerOf dtb).version ∧
        (headerOf blob).lastCompVersion = (headerOf dtb).lastCompVersion ∧
        (headerOf blob).bootCpuidPhys = (headerOf dtb).bootCpuidPhys ∧
        memoryNodes output = memoryNodes liveBody ∧
        memoryPairs (rootCells output) output =
          memoryPairs (rootCells body) liveBody) := by
  obtain ⟨fails, grafts⟩ := graftMemory_outcome decodes live
  refine ⟨⟨?_, fails⟩, ?_⟩
  · rintro ⟨error, failed⟩
    by_contra fine
    rw [not_or, not_le] at fine
    obtain ⟨_, _, grafted, _⟩ := grafts fine.1 fine.2
    rw [failed] at grafted
    exact Run.fail_ne_ok _ _ grafted
  · intro some small
    obtain ⟨blob, forest', grafted, after, version, lastCompVersion,
      bootCpuidPhys⟩ := grafts some small
    refine ⟨blob, _, grafted, rfl, after.decode, after.reserved,
      reservedRanges_congr decodes after fun _ root =>
        run_withMemory liveBody body root, version, lastCompVersion,
      bootCpuidPhys, memoryNodes_withMemory _ _, ?_⟩
    rw [rootCells_withMemory]
    unfold memoryPairs
    rw [memoryNodes_withMemory]

/-- A root with one memory node. -/
def memoryName : NodeName := .plain (byteString "memory@0") (by decide)

def oneMemory : Forest :=
  .node (.plain [] nil_noNul)
    (.node memoryName
      (.prop (.plain 0 (Bytes.toBe 8 0x80000000 ++ Bytes.toBe 4 0x10000000)
        zero_lt (by decide)) .nil) .nil) .nil

def oneMemoryBlob : Bytes :=
  assemble ⟨0, 0, 0, 0, 17, 16, 0, 0, 0⟩ (reserveMapBytes [])
    (oneMemory.bytes ++ (be32 endToken ++ [])) (propReg ++ [0])

def oneMemoryBody : Content :=
  .node (byteString "memory@0") (.prop (some propReg)
    (Bytes.toBe 8 0x80000000 ++ Bytes.toBe 4 0x10000000) .nil) .nil

theorem oneMemoryBlob_holdsRoot :
    HoldsRoot oneMemoryBlob oneMemory oneMemoryBody := by
  have fits : Header.Fits ⟨0, 0, 0, 0, 17, 16, 0, 0, 0⟩ :=
    ⟨by decide, by decide, by decide⟩
  have small : 40 + (reserveMapBytes []).length +
      (oneMemory.bytes ++ (be32 endToken ++ [])).length +
        (propReg ++ [0]).length < 2 ^ 32 := by decide +kernel
  refine ⟨accepted_assemble fits small (by decide +kernel), ⟨[], ?_⟩, ?_,
    ⟨rfl, trivial⟩, trivial⟩
  · exact structBlock_assemble fits small
  · rw [oneMemoryBlob, stringsBlock_assemble fits small]
    decide +kernel

theorem graftMemory_edits_oneMemory : ∃ blob,
    graftMemory quietBlob oneMemoryBlob = .ok blob ∧
    DeviceTree.decode blob = some (.node [] (.node (byteString "memory@0")
      (.prop (some propReg)
        (Bytes.toBe 8 0x80000000 ++ Bytes.toBe 4 0x10000000) .nil)
      (.node nodeChosen (.prop (some propBootargs)
        (byteString "quiet" ++ [0]) .nil) .nil)) .nil) := by
  obtain ⟨blob, output, grafted, rfl, decoded, _⟩ :=
    (graftMemory_edits quietBlob oneMemoryBlob quietForest oneMemory _ _ []
      quietBlob_decodesTo oneMemoryBlob_holdsRoot).2 (by decide)
      (by decide +kernel)
  exact ⟨blob, grafted, decoded⟩

end Pocketboot.Kexec
