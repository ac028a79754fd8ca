import Pocketboot.Kexec.Memory
import Pocketboot.Kexec.Writing

/-!
# The walks of `graft_memory`

One pass copies the memory nodes of the live tree with their names interned
anew, another copies the target with those nodes in place of its own.
-/

namespace Pocketboot.Kexec

open DeviceTree

section

variable {block rest : Bytes} {cursor : Nat} {name : NodeName}
  {inner : Forest}

theorem At.name_of_node
    (place : At block cursor ((Forest.node name inner .nil).bytes ++ rest)) :
    At block cursor
      (name.bytes ++ (inner.bytes ++ (be32 endNodeToken ++ rest))) := by
  simpa [Forest.bytes] using place

theorem node_bytes_length (name : NodeName) (inner : Forest) :
    (Forest.node name inner .nil).bytes.length =
      name.bytes.length + inner.bytes.length + 4 := by
  simp [Forest.bytes, Nat.add_assoc]

end

/-! ## Passing over a node -/

def skipWalk : Walk IoError Nat where
  nop := .ok
  prop depth _ := .ok depth
  enter depth _ _ := (addOrPanic wordSize depth 1).map (·, false)
  leave depth := do
    Run.ensure (depth ≠ 0)
      (invalidData "DTB structure has too many END_NODE tokens")
    subOrPanic depth 1

theorem skipBody_steady {block : Bytes} : Steady block skipBody := by
  refine Steady.of_next ?_
  intro depth cursor token next depth' cursor' step
  cases token with
  | beginNode name =>
      obtain ⟨_, _, same⟩ := Run.bind_eq_ok.mp step
      cases same
      rfl
  | endNode =>
      obtain ⟨_, _, step⟩ := Run.bind_eq_ok.mp step
      obtain ⟨_, _, step⟩ := Run.bind_eq_ok.mp step
      split at step
      · cases step
      · cases step
        rfl
  | prop nameoff value =>
      cases step
      rfl
  | nop =>
      cases step
      rfl
  | fin => cases step

theorem skipWalk_follows (block : Bytes) :
    FollowsWithin (fun level depth => depth = level + 1) block skipBody
      skipWalk where
  nop := fun _ _ => rfl
  prop := fun _ _ => rfl
  endNode := by
    intro level depth cursor rest inside _
    subst inside
    change (Run.ensure (level + 1 + 1 ≠ 0) _ >>= _) =
      Except.map _ (Run.ensure (level + 1 + 1 ≠ 0) _ >>= _)
    rw [Run.ensure_of (by omega), Run.ok_bind, Run.ok_bind,
      subOrPanic_of (by omega), Run.ok_bind, if_neg (by omega)]
    rfl
  beginNode := by
    intro level depth cursor name inner rest _ _
    change (addOrPanic wordSize depth 1 >>= _) =
      Except.map _ (Except.map _ (addOrPanic wordSize depth 1))
    cases (addOrPanic wordSize depth 1 : Result Nat) <;> rfl
  keepsNop := by
    rintro level depth depth' inside ⟨⟩
    exact inside
  keepsProp := by
    rintro level depth property depth' inside ⟨⟩
    exact inside
  enters := by
    intro level depth name inner depth' passed inside entered
    obtain ⟨sum, added, same⟩ := Run.map_eq_ok.mp entered
    cases same
    obtain ⟨_, rfl⟩ := addOrPanic_eq_ok.mp added
    rw [if_neg (by decide), inside]
  leaves := by
    intro level depth depth' inside left
    obtain ⟨_, _, left⟩ := Run.bind_eq_ok.mp left
    rw [subOrPanic_of (by omega)] at left
    cases left
    omega

theorem skipWalk_run {forest : Forest} {depth : Nat}
    (shallow : depth + forest.bytes.length < wordSize) :
    skipWalk.run forest depth = .ok depth := by
  induction forest generalizing depth with
  | nil => rfl
  | nop more induction =>
      rw [Forest.bytes, List.length_append] at shallow
      exact induction (by omega)
  | prop property more induction =>
      rw [Forest.bytes, List.length_append] at shallow
      exact induction (by omega)
  | node name inner more innerInduction moreInduction =>
      simp only [Forest.bytes, List.length_append] at shallow
      have wide : 0 < name.bytes.length := by simp [NodeName.bytes]
      have entered : skipWalk.enter depth name inner =
          .ok (depth + 1, false) := by
        change Except.map _ (addOrPanic wordSize depth 1) = _
        rw [addOrPanic_of (by omega)]
        rfl
      have left : skipWalk.leave (depth + 1) = .ok depth := by
        change (Run.ensure (depth + 1 ≠ 0) _ >>= _) = _
        rw [Run.ensure_of (by omega), Run.ok_bind, subOrPanic_of (by omega)]
        rfl
      rw [Walk.run, entered, Run.ok_bind]
      dsimp only
      rw [if_neg (by decide), innerInduction (by omega), Run.ok_bind, left,
        Run.ok_bind]
      exact moreInduction (by omega)

/-- Passing over a node ends behind it. -/
theorem skipNodeSubtree_eq {block rest : Bytes} {cursor : Nat}
    {name : NodeName} {inner : Forest}
    (place : At block cursor ((Forest.node name inner .nil).bytes ++ rest)) :
    skipNodeSubtree block cursor =
      .ok (cursor + (Forest.node name inner .nil).bytes.length) := by
  have named := At.name_of_node place
  have short := place.short
  have length := place.length_eq
  have size := node_bytes_length name inner
  simp only [List.length_append] at length
  have below := named.name_rest
  have closing := below.forest_rest
  rw [skipNodeSubtree, loop_beginNode skipBody_steady named]
  change ((addOrPanic wordSize 0 1 >>= _) >>= _) = _
  rw [addOrPanic_of (by decide), Run.ok_bind]
  change loop blockReader block skipBody (0 + 1) _ = _
  rw [@loop_forest_within _ _ _ _ _ _ skipBody_steady _ _
    (skipWalk_follows block) inner 0 _ _ _ rfl below,
    skipWalk_run (by unfold wordSize; omega), Run.ok_bind,
    loop_endNode skipBody_steady closing]
  change ((Run.ensure (0 + 1 ≠ 0) _ >>= _) >>= _) = _
  rw [Run.ensure_of (by decide), Run.ok_bind, subOrPanic_of (by decide),
    Run.ok_bind, if_pos rfl]
  change (Except.ok _ : Result Nat) = _
  rw [size]
  congr 1
  omega

/-! ## Copying a node -/

def copyWalk (strings : Bytes) : Walk IoError CopyState where
  nop state := .ok { state with output := state.output ++ be32 nopToken }
  prop state property := do
    let name ← Run.ofOption
      (invalidData
        s!"DTB property name offset {property.nameoff} is out of range")
      (stringAt strings property.nameoff)
    let (outputStrings, nameoff) ← ensureString state.outputStrings name
    let output := writeProp state.output nameoff property.value
    return { state with output, outputStrings }
  enter state name _ := do
    let depth ← addOrPanic wordSize state.depth 1
    return ({ state with depth, output := state.output ++ name.bytes }, false)
  leave state := do
    Run.ensure (state.depth ≠ 0)
      (invalidData "DTB structure has too many END_NODE tokens")
    let depth ← subOrPanic state.depth 1
    return { state with
      depth, output := state.output ++ be32 endNodeToken }

theorem copyBody_steady {block strings : Bytes} :
    Steady block (copyBody block strings) := by
  refine Steady.of_next ?_
  intro state cursor token next state' cursor' step
  cases token with
  | beginNode name =>
      obtain ⟨_, _, step⟩ := Run.bind_eq_ok.mp step
      obtain ⟨_, _, same⟩ := Run.bind_eq_ok.mp step
      cases same
      rfl
  | endNode =>
      obtain ⟨_, _, step⟩ := Run.bind_eq_ok.mp step
      obtain ⟨_, _, step⟩ := Run.bind_eq_ok.mp step
      obtain ⟨_, _, step⟩ := Run.bind_eq_ok.mp step
      split at step
      · cases step
      · cases step
        rfl
  | prop nameoff value =>
      obtain ⟨_, _, step⟩ := Run.bind_eq_ok.mp step
      obtain ⟨_, _, same⟩ := Run.bind_eq_ok.mp step
      cases same
      rfl
  | nop =>
      obtain ⟨_, _, same⟩ := Run.bind_eq_ok.mp step
      cases same
      rfl
  | fin => cases step

theorem copyWalk_follows (block strings : Bytes) :
    FollowsWithin (fun level state => state.depth = level + 1) block
      (copyBody block strings) (copyWalk strings) where
  nop := by
    intro level state cursor rest _ place
    have copied := @At.copied IoError _ _ _ _ place
    rw [Bytes.toBe_length] at copied
    change (sliceOrPanic block cursor (cursor + 4) >>= _) = _
    rw [copied]
    rfl
  prop := by
    intro level state cursor property rest _ _
    change (Run.ofOption _ (stringAt strings property.nameoff) >>= _) =
      Except.map _ (Run.ofOption _ (stringAt strings property.nameoff) >>= _)
    cases stringAt strings property.nameoff with
    | none => rfl
    | some name =>
        simp only [Run.ofOption, Run.ok_bind]
        cases ensureString state.outputStrings name <;> rfl
  endNode := by
    intro level state cursor rest inside place
    have copied := @At.copied IoError _ _ _ _ place
    rw [Bytes.toBe_length] at copied
    change (Run.ensure (state.depth ≠ 0) _ >>= _) =
      Except.map _ (Run.ensure (state.depth ≠ 0) _ >>= _)
    rw [Run.ensure_of (by omega), Run.ok_bind, Run.ok_bind, copied,
      Run.ok_bind]
    dsimp only
    rw [subOrPanic_of (by omega), Run.ok_bind, if_neg (by omega)]
    rfl
  beginNode := by
    intro level state cursor name inner rest _ place
    have copied := @At.copied IoError _ _ _ _ (At.name_of_node place)
    change (sliceOrPanic block cursor (cursor + name.bytes.length) >>= _) =
      Except.map _ (addOrPanic wordSize state.depth 1 >>= _)
    rw [copied, Run.ok_bind]
    cases (addOrPanic wordSize state.depth 1 : Result Nat) <;> rfl
  keepsNop := by
    rintro level state state' inside ⟨⟩
    exact inside
  keepsProp := by
    intro level state property state' inside stored
    obtain ⟨_, _, stored⟩ := Run.bind_eq_ok.mp stored
    obtain ⟨_, _, same⟩ := Run.bind_eq_ok.mp stored
    cases same
    exact inside
  enters := by
    intro level state name inner state' passed inside entered
    obtain ⟨sum, added, same⟩ := Run.bind_eq_ok.mp entered
    cases same
    obtain ⟨_, rfl⟩ := addOrPanic_eq_ok.mp added
    rw [if_neg (by decide), inside]
  leaves := by
    intro level state state' inside left
    obtain ⟨_, _, left⟩ := Run.bind_eq_ok.mp left
    rw [subOrPanic_of (by omega)] at left
    cases left
    change state.depth - 1 = level + 1
    omega

/-- Copying a node is copying what is in it. -/
theorem copyNodeSubtree_eq {block strings rest outputStrings : Bytes}
    {cursor : Nat} {name : NodeName} {inner : Forest}
    (place : At block cursor ((Forest.node name inner .nil).bytes ++ rest)) :
    copyNodeSubtree block strings cursor outputStrings = (do
      let state ← (copyWalk strings).run inner ⟨1, name.bytes, outputStrings⟩
      return (state.output ++ be32 endNodeToken,
        cursor + (Forest.node name inner .nil).bytes.length,
        state.outputStrings)) := by
  have named := At.name_of_node place
  have below := named.name_rest
  have closing := below.forest_rest
  have copiedName := @At.copied IoError _ _ _ _ named
  have copiedEnd := @At.copied IoError _ _ _ _ closing
  have follows := copyWalk_follows block strings
  rw [Bytes.toBe_length] at copiedEnd
  rw [copyNodeSubtree, loop_beginNode copyBody_steady named]
  change ((sliceOrPanic block cursor (cursor + name.bytes.length) >>= _) >>=
    _) = _
  rw [copiedName, Run.ok_bind]
  dsimp only
  rw [addOrPanic_of (by decide), Run.ok_bind]
  change loop blockReader block (copyBody block strings)
    ⟨0 + 1, [] ++ name.bytes, outputStrings⟩ _ = _
  rw [@loop_forest_within _ _ _ _ _ _ copyBody_steady _ _ follows inner 0 _ _ _
    rfl below, List.nil_append]
  cases walked : (copyWalk strings).run inner
      ⟨0 + 1, name.bytes, outputStrings⟩ with
  | error fault => rfl
  | ok state =>
      have depth : state.depth = 1 := @FollowsWithin.run_within _ _ _ _ _ _ _
        follows inner 0 _ _ rfl walked
      rw [Run.ok_bind, Run.ok_bind, loop_endNode copyBody_steady closing]
      change ((Run.ensure (state.depth ≠ 0) _ >>= _) >>= _) = _
      rw [Run.ensure_of (by omega), Run.ok_bind, copiedEnd, Run.ok_bind]
      dsimp only
      rw [subOrPanic_of (by omega), Run.ok_bind, if_pos (by omega)]
      change (Except.ok _ : Result _) = .ok _
      rw [node_bytes_length, Nat.add_assoc, Nat.add_assoc, Nat.add_assoc]

/-! ## The two passes -/

/-- The end of a node in either pass. -/
def leaveDepth (depth : Nat) : Result Nat := do
  Run.ensure (depth ≠ 0)
    (invalidData "DTB structure has too many END_NODE tokens")
  subOrPanic depth 1

def extractWalk (strings : Bytes) : Walk IoError ExtractState where
  nop := .ok
  prop state _ := .ok state
  enter state name inner :=
    if state.depth = 0 then do
      checkRoot state.sawRoot name.text
      return ({ state with sawRoot := true, depth := 1 }, false)
    else if state.depth = 1 && isMemoryNodeName name.text then do
      let copied ←
        (copyWalk strings).run inner ⟨1, name.bytes, state.outputStrings⟩
      return ({ state with
        memory := state.memory ++ [⟨copied.output ++ be32 endNodeToken⟩]
        outputStrings := copied.outputStrings }, true)
    else do
      let depth ← addOrPanic wordSize state.depth 1
      return ({ state with depth }, false)
  leave state := do
    let depth ← leaveDepth state.depth
    return { state with depth }

theorem extractWalk_follows (block strings : Bytes) :
    Follows block (extractBody block strings) (extractWalk strings) where
  nop := fun _ => rfl
  prop := fun _ => rfl
  endNode := by
    intro state cursor rest _
    change (Run.ensure (state.depth ≠ 0) _ >>= _) =
      Except.map _ ((Run.ensure (state.depth ≠ 0) _ >>= _) >>= _)
    cases (Run.ensure (state.depth ≠ 0) (invalidData
      "DTB structure has too many END_NODE tokens") : Result Unit) with
    | error fault => rfl
    | ok _ =>
        simp only [Run.ok_bind]
        cases (subOrPanic state.depth 1 : Result Nat) <;> rfl
  beginNode := by
    intro state cursor name inner rest place
    simp only [extractBody, extractWalk]
    by_cases ground : state.depth = 0
    · rw [if_pos ground, if_pos ground]
      cases checkRoot state.sawRoot name.text <;> rfl
    · rw [if_neg ground, if_neg ground]
      by_cases memory : (state.depth = 1 && isMemoryNodeName name.text) = true
      · rw [if_pos memory, if_pos memory, copyNodeSubtree_eq place]
        cases (copyWalk strings).run inner
          ⟨1, name.bytes, state.outputStrings⟩ <;> rfl
      · rw [if_neg memory, if_neg memory]
        cases (addOrPanic wordSize state.depth 1 : Result Nat) <;> rfl

def graftWalk (memory : List MemoryFragment) : Walk IoError GraftState where
  nop state := .ok { state with output := state.output ++ be32 nopToken }
  prop state property :=
    .ok { state with output := state.output ++ property.bytes }
  enter state name _ :=
    if state.depth = 0 then do
      checkRoot state.sawRoot name.text
      return ({ state with
        sawRoot := true, output := state.output ++ name.bytes, depth := 1 },
        false)
    else if state.depth = 1 && isMemoryNodeName name.text then
      .ok (state, true)
    else do
      let state := insertMemory memory state
      let depth ← addOrPanic wordSize state.depth 1
      return ({ state with depth, output := state.output ++ name.bytes }, false)
  leave state := do
    let depth ← leaveDepth state.depth
    let state := insertMemory memory state
    return { state with
      depth, output := state.output ++ be32 endNodeToken }

theorem insertMemory_depth (memory : List MemoryFragment)
    (state : GraftState) : (insertMemory memory state).depth = state.depth := by
  unfold insertMemory
  split
  · rfl
  · rfl

theorem graftWalk_follows (block : Bytes) (memory : List MemoryFragment) :
    Follows block (graftBody block memory) (graftWalk memory) where
  nop := by
    intro state cursor rest place
    have copied := @At.copied IoError _ _ _ _ place
    rw [Bytes.toBe_length] at copied
    change (sliceOrPanic block cursor (cursor + 4) >>= _) = _
    rw [copied]
    rfl
  prop := by
    intro state cursor property rest place
    have copied := @At.copied IoError _ _ _ _ place
    change (sliceOrPanic block cursor (cursor + property.bytes.length) >>=
      _) = _
    rw [copied]
    rfl
  endNode := by
    intro state cursor rest place
    have copied := @At.copied IoError _ _ _ _ place
    rw [Bytes.toBe_length] at copied
    change (Run.ensure (state.depth ≠ 0) _ >>= _) =
      Except.map _ ((Run.ensure (state.depth ≠ 0) _ >>= _) >>= _)
    cases (Run.ensure (state.depth ≠ 0) (invalidData
      "DTB structure has too many END_NODE tokens") : Result Unit) with
    | error fault => rfl
    | ok _ =>
        simp only [Run.ok_bind]
        rw [copied, Run.ok_bind, insertMemory_depth]
        cases (subOrPanic state.depth 1 : Result Nat) <;> rfl
  beginNode := by
    intro state cursor name inner rest place
    have copied := @At.copied IoError _ _ _ _ (At.name_of_node place)
    simp only [graftBody, graftWalk]
    by_cases ground : state.depth = 0
    · rw [if_pos ground, if_pos ground, copied]
      cases checkRoot state.sawRoot name.text <;> rfl
    · rw [if_neg ground, if_neg ground]
      by_cases known : (state.depth = 1 && isMemoryNodeName name.text) = true
      · rw [if_pos known, if_pos known, skipNodeSubtree_eq place]
        rfl
      · rw [if_neg known, if_neg known, copied, Run.ok_bind]
        cases (addOrPanic wordSize (insertMemory memory state).depth 1 :
          Result Nat) <;> rfl

section

variable {block strings : Bytes} (short : block.length < 2 ^ 32)

include short

theorem skipNodeSubtree_forward {start next : Nat} (valid : Cursor start)
    (skipped : skipNodeSubtree block start = .ok next) :
    start < next ∧ Cursor next := by
  refine loop_rule (motive := fun _ cursor next => cursor < next ∧ Cursor next)
    short skipBody_steady ?_ ?_ valid skipped
  · intro depth cursor token next result _ reads done
    cases token with
    | endNode =>
        obtain ⟨_, _, done⟩ := Run.bind_eq_ok.mp done
        obtain ⟨_, _, done⟩ := Run.bind_eq_ok.mp done
        split at done
        · cases done
          exact ⟨reads.forward, reads.aligned, reads.near⟩
        · cases done
    | beginNode name =>
        obtain ⟨_, _, done⟩ := Run.bind_eq_ok.mp done
        cases done
    | prop nameoff value => cases done
    | nop => cases done
    | fin => cases done
  · intro depth cursor token next depth' cursor' result valid reads step later
    obtain ⟨forward, _⟩ := skipBody_steady _ _ _ _ _ _ valid reads step
    exact ⟨forward.trans later.1, later.2⟩

theorem copyNodeSubtree_forward {start next : Nat}
    {data outputStrings outputStrings' : Bytes} (valid : Cursor start)
    (copied : copyNodeSubtree block strings start outputStrings =
      .ok (data, next, outputStrings')) : start < next ∧ Cursor next := by
  refine loop_rule (motive := fun _ cursor (result : Bytes × Nat × Bytes) =>
    cursor < result.2.1 ∧ Cursor result.2.1)
    short copyBody_steady ?_ ?_ valid copied
  · intro state cursor token next result _ reads done
    cases token with
    | endNode =>
        obtain ⟨_, _, done⟩ := Run.bind_eq_ok.mp done
        obtain ⟨_, _, done⟩ := Run.bind_eq_ok.mp done
        obtain ⟨_, _, done⟩ := Run.bind_eq_ok.mp done
        split at done
        · cases done
          exact ⟨reads.forward, reads.aligned, reads.near⟩
        · cases done
    | beginNode name =>
        obtain ⟨_, _, done⟩ := Run.bind_eq_ok.mp done
        obtain ⟨_, _, done⟩ := Run.bind_eq_ok.mp done
        cases done
    | prop nameoff value =>
        obtain ⟨_, _, done⟩ := Run.bind_eq_ok.mp done
        obtain ⟨_, _, done⟩ := Run.bind_eq_ok.mp done
        cases done
    | nop =>
        obtain ⟨_, _, done⟩ := Run.bind_eq_ok.mp done
        cases done
    | fin => cases done
  · intro state cursor token next state' cursor' result valid reads step later
    obtain ⟨forward, _⟩ := copyBody_steady _ _ _ _ _ _ valid reads step
    exact ⟨forward.trans later.1, later.2⟩

theorem extractBody_steady : Steady block (extractBody block strings) := by
  intro state cursor token next state' cursor' valid reads step
  have after : cursor < next ∧ Cursor next :=
    ⟨reads.forward, reads.aligned, reads.near⟩
  cases token with
  | beginNode name =>
      simp only [extractBody] at step
      split at step
      · obtain ⟨_, _, same⟩ := Run.bind_eq_ok.mp step
        cases same
        exact after
      · split at step
        · obtain ⟨⟨data, behind, strings'⟩, copied, same⟩ :=
            Run.bind_eq_ok.mp step
          cases same
          exact copyNodeSubtree_forward short valid copied
        · obtain ⟨_, _, same⟩ := Run.bind_eq_ok.mp step
          cases same
          exact after
  | endNode =>
      obtain ⟨_, _, step⟩ := Run.bind_eq_ok.mp step
      obtain ⟨_, _, same⟩ := Run.bind_eq_ok.mp step
      cases same
      exact after
  | prop nameoff value =>
      cases step
      exact after
  | nop =>
      cases step
      exact after
  | fin =>
      obtain ⟨_, _, step⟩ := Run.bind_eq_ok.mp step
      cases step

theorem graftBody_steady {memory : List MemoryFragment} :
    Steady block (graftBody block memory) := by
  intro state cursor token next state' cursor' valid reads step
  have after : cursor < next ∧ Cursor next :=
    ⟨reads.forward, reads.aligned, reads.near⟩
  cases token with
  | beginNode name =>
      simp only [graftBody] at step
      split at step
      · obtain ⟨_, _, step⟩ := Run.bind_eq_ok.mp step
        obtain ⟨_, _, same⟩ := Run.bind_eq_ok.mp step
        cases same
        exact after
      · split at step
        · obtain ⟨behind, skipped, same⟩ := Run.bind_eq_ok.mp step
          cases same
          exact skipNodeSubtree_forward short valid skipped
        · obtain ⟨_, _, step⟩ := Run.bind_eq_ok.mp step
          obtain ⟨_, _, same⟩ := Run.bind_eq_ok.mp step
          cases same
          exact after
  | endNode =>
      obtain ⟨_, _, step⟩ := Run.bind_eq_ok.mp step
      obtain ⟨_, _, step⟩ := Run.bind_eq_ok.mp step
      obtain ⟨_, _, same⟩ := Run.bind_eq_ok.mp step
      cases same
      exact after
  | prop nameoff value =>
      obtain ⟨_, _, same⟩ := Run.bind_eq_ok.mp step
      cases same
      exact after
  | nop =>
      obtain ⟨_, _, same⟩ := Run.bind_eq_ok.mp step
      cases same
      exact after
  | fin =>
      obtain ⟨_, _, step⟩ := Run.bind_eq_ok.mp step
      obtain ⟨_, _, step⟩ := Run.bind_eq_ok.mp step
      cases step

end

end Pocketboot.Kexec
