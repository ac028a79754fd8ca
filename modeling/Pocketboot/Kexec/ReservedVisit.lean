import Pocketboot.DeviceTree.Visit
import Pocketboot.Kexec.Totality

/-!
# The visit of `reserved_ranges`

The loop of `reserved_memory_node_ranges` sees of a structure block only what
it means.  Below any other node of the root than `/reserved-memory` it changes
nothing.
-/

namespace Pocketboot.Kexec

open DeviceTree

/-- What the loop does with the properties and nodes of a block. -/
def reservedVisit : Visit IoError ReservedState where
  prop := storeProp
  enter state name :=
    let stack := state.stack ++ [name]
    let child :=
      if isReservedMemoryChild stack then some ⟨true, none⟩ else state.child
    .ok { state with stack, child }
  leave state := do
    let state ← closeNode state
    Run.ensure (state.stack ≠ [])
      (invalidData "DTB structure has too many END_NODE tokens")
    return { state with stack := state.stack.dropLast }

/-- The same with the names of properties still to be looked up. -/
def reservedWalk (strings : Bytes) : Walk IoError ReservedState where
  nop := .ok
  prop state property := do
    let name ← Run.ofOption
      (invalidData
        s!"DTB property name offset {property.nameoff} is out of range")
      (stringAt strings property.nameoff)
    storeProp state name property.value
  enter state name _ := (reservedVisit.enter state name.text).map (·, false)
  leave := reservedVisit.leave

theorem reservedWalk_follows (block strings : Bytes) :
    Follows block (reservedBody strings) (reservedWalk strings) where
  nop := by
    intro state cursor rest _
    rfl
  prop := by
    intro state cursor property rest _
    change (Run.ofOption _ (stringAt strings property.nameoff) >>= _) =
      Except.map _ (Run.ofOption _ (stringAt strings property.nameoff) >>= _)
    cases stringAt strings property.nameoff with
    | none => rfl
    | some name =>
        simp only [Run.ofOption, Run.ok_bind]
        cases storeProp state name property.value <;> rfl
  endNode := by
    intro state cursor rest _
    change (closeNode state >>= _) = Except.map _ (closeNode state >>= _)
    cases closeNode state with
    | error fault => rfl
    | ok state =>
        simp only [Run.ok_bind]
        cases (Run.ensure (state.stack ≠ []) (invalidData
          "DTB structure has too many END_NODE tokens") : Result Unit) <;> rfl
  beginNode := by
    intro state cursor name inner rest _
    rfl

theorem reservedVisit_describes (strings : Bytes) :
    reservedVisit.Describes strings (reservedWalk strings) where
  nop := fun _ => rfl
  prop := by
    intro state property name found
    change (Run.ofOption _ (stringAt strings property.nameoff) >>= _) = _
    rw [stringAt_eq, found]
    rfl
  enter := fun _ _ _ => rfl
  leave := fun _ => rfl

/-- The state the loop starts with. -/
def startRanges : ReservedState := ⟨[], 2, 1, none, none, none, []⟩

/-- What the loop does at the end of the block. -/
def finishRanges (state : ReservedState) : Result (List (Nat × Nat)) := do
  Run.ensure (state.stack = [])
    (invalidData "DTB structure ended before all nodes were closed")
  return state.ranges

/-- The loop over a block is the visit of what the block means. -/
theorem reservedMemoryNodeRanges_eq {block strings trailing : Bytes}
    {forest : Forest} (short : block.length < 2 ^ 32)
    (holds : block = forest.bytes ++ (be32 endToken ++ trailing))
    (named : (forest.content strings).Named) :
    reservedMemoryNodeRanges block strings =
      (reservedVisit.run (forest.content strings) startRanges >>=
        finishRanges) := by
  have place : At block 0 (forest.bytes ++ (be32 endToken ++ trailing)) :=
    ⟨holds, rfl, Nat.zero_le _, short⟩
  rw [reservedMemoryNodeRanges, loop_forest reservedBody_steady
    (reservedWalk_follows block strings) forest place,
    (reservedVisit_describes strings).run_eq named]
  change (reservedVisit.run (forest.content strings) startRanges >>= _) = _
  congr 1
  funext state
  rw [loop_fin reservedBody_steady place.forest_rest]
  change (Run.ensure (state.stack = []) _ >>= _) >>= _ = _
  unfold finishRanges
  cases (Run.ensure (state.stack = []) (invalidData
    "DTB structure ended before all nodes were closed") : Result Unit) <;> rfl

/-! ## Where nothing is read -/

/-- Neither here nor below is there anything to read. -/
def Quiet (stack : List Bytes) : Prop :=
  ∀ more, isRoot (stack ++ more) = false ∧
    isReservedMemory (stack ++ more) = false ∧
    isReservedMemoryChild (stack ++ more) = false

theorem Quiet.here {stack : List Bytes} (quiet : Quiet stack) :
    isRoot stack = false ∧ isReservedMemory stack = false ∧
      isReservedMemoryChild stack = false := by
  have := quiet []
  rwa [List.append_nil] at this

theorem Quiet.inner {stack : List Bytes} (quiet : Quiet stack) (name : Bytes) :
    Quiet (stack ++ [name]) := by
  intro more
  rw [List.append_assoc]
  exact quiet _

/-- A node of the root other than `/reserved-memory`. -/
theorem quiet_of_ne {name : Bytes} (other : name ≠ nodeReservedMemory) :
    Quiet [[], name] := by
  intro more
  refine ⟨rfl, ?_, ?_⟩
  · cases more with
    | nil => exact decide_eq_false other
    | cons _ _ => rfl
  · cases more with
    | nil => rfl
    | cons inner more =>
        cases more with
        | nil => exact decide_eq_false other
        | cons _ _ => rfl

/-- A node in a child of `/reserved-memory`. -/
theorem quiet_of_deep (name child inner : Bytes) :
    Quiet [[], name, child, inner] :=
  fun _ => ⟨rfl, rfl, rfl⟩

theorem storeProp_quiet {state : ReservedState} (quiet : Quiet state.stack)
    (name value : Bytes) : storeProp state name value = .ok state := by
  obtain ⟨root, reserved, child⟩ := quiet.here
  rw [storeProp, root, reserved, child]
  rfl

theorem closeNode_quiet {state : ReservedState} (quiet : Quiet state.stack) :
    closeNode state = .ok state := by
  rw [closeNode, quiet.here.2.2]
  rfl

theorem enter_quiet {state : ReservedState} {name : Bytes}
    (quiet : Quiet (state.stack ++ [name])) :
    reservedVisit.enter state name =
      .ok { state with stack := state.stack ++ [name] } := by
  change Except.ok _ = _
  rw [quiet.here.2.2]
  rfl

theorem leave_quiet {state : ReservedState} {name : Bytes}
    (quiet : Quiet (state.stack ++ [name])) :
    reservedVisit.leave { state with stack := state.stack ++ [name] } =
      .ok state := by
  change closeNode _ >>= _ = _
  rw [closeNode_quiet quiet, Run.ok_bind, Run.ensure_of (by simp), Run.ok_bind,
    List.dropLast_concat]
  rfl

theorem run_quiet (content : Content) {state : ReservedState}
    (quiet : Quiet state.stack) :
    reservedVisit.run content state = .ok state := by
  induction content generalizing state with
  | nil => rfl
  | prop name value rest induction =>
      cases name with
      | none => exact induction quiet
      | some name =>
          rw [Visit.run]
          change storeProp state name value >>= _ = _
          rw [storeProp_quiet quiet, Run.ok_bind]
          exact induction quiet
  | node name body rest bodyInduction restInduction =>
      have inner := quiet.inner name
      rw [Visit.run, enter_quiet inner, Run.ok_bind, bodyInduction inner,
        Run.ok_bind, leave_quiet inner, Run.ok_bind]
      exact restInduction quiet

/-- A node of the root other than `/reserved-memory` changes nothing. -/
theorem run_node_quiet {state : ReservedState} {name : Bytes}
    (root : state.stack = [[]]) (other : name ≠ nodeReservedMemory)
    (body rest : Content) :
    reservedVisit.run (.node name body rest) state =
      reservedVisit.run rest state := by
  have quiet : Quiet (state.stack ++ [name]) := by
    rw [root]
    exact quiet_of_ne other
  rw [Visit.run, enter_quiet quiet, Run.ok_bind, run_quiet body quiet,
    Run.ok_bind, leave_quiet quiet, Run.ok_bind]

/-! ## The stack -/

theorem storeProp_keeps {state state' : ReservedState} {name value : Bytes}
    (stored : storeProp state name value = .ok state') :
    state'.stack = state.stack ∧ state'.ranges = state.ranges := by
  unfold storeProp rootProp reservedProp reservedChildProp at stored
  split at stored
  · split at stored
    · obtain ⟨_, _, same⟩ := Run.bind_eq_ok.mp stored
      cases same
      exact ⟨rfl, rfl⟩
    · split at stored
      · obtain ⟨_, _, same⟩ := Run.bind_eq_ok.mp stored
        cases same
        exact ⟨rfl, rfl⟩
      · cases stored
        exact ⟨rfl, rfl⟩
  · split at stored
    · split at stored
      · obtain ⟨_, _, same⟩ := Run.bind_eq_ok.mp stored
        cases same
        exact ⟨rfl, rfl⟩
      · split at stored
        · obtain ⟨_, _, same⟩ := Run.bind_eq_ok.mp stored
          cases same
          exact ⟨rfl, rfl⟩
        · cases stored
          exact ⟨rfl, rfl⟩
    · split at stored
      · obtain ⟨_, _, stored⟩ := Run.bind_eq_ok.mp stored
        split at stored
        · cases stored
          exact ⟨rfl, rfl⟩
        · split at stored
          · cases stored
            exact ⟨rfl, rfl⟩
          · cases stored
            exact ⟨rfl, rfl⟩
      · cases stored
        exact ⟨rfl, rfl⟩

theorem storeProp_stack {state state' : ReservedState} {name value : Bytes}
    (stored : storeProp state name value = .ok state') :
    state'.stack = state.stack :=
  (storeProp_keeps stored).1

theorem closeNode_stack {state state' : ReservedState}
    (closed : closeNode state = .ok state') : state'.stack = state.stack := by
  unfold closeNode closeReservedChild at closed
  split at closed
  · obtain ⟨child, _, closed⟩ := Run.bind_eq_ok.mp closed
    dsimp only at closed
    split at closed
    · obtain ⟨_, _, same⟩ := Run.bind_eq_ok.mp closed
      cases same
      rfl
    · cases closed
      rfl
  · cases closed
    rfl

/-- A visit ends in the node in which it started. -/
theorem run_stack {content : Content} {state state' : ReservedState}
    (visited : reservedVisit.run content state = .ok state') :
    state'.stack = state.stack := by
  induction content generalizing state state' with
  | nil =>
      cases visited
      rfl
  | prop name value rest induction =>
      cases name with
      | none => exact induction visited
      | some name =>
          obtain ⟨next, stored, visited⟩ := Run.bind_eq_ok.mp visited
          exact (induction visited).trans (storeProp_stack stored)
  | node name body rest bodyInduction restInduction =>
      obtain ⟨entered, entering, visited⟩ := Run.bind_eq_ok.mp visited
      obtain ⟨inner, within, visited⟩ := Run.bind_eq_ok.mp visited
      obtain ⟨left, leaving, visited⟩ := Run.bind_eq_ok.mp visited
      obtain ⟨closed, closing, leaving⟩ := Run.bind_eq_ok.mp leaving
      obtain ⟨_, _, same⟩ := Run.bind_eq_ok.mp leaving
      cases entering
      cases same
      have inside := (closeNode_stack closing).trans (bodyInduction within)
      refine (restInduction visited).trans ?_
      rw [inside]
      exact List.dropLast_concat

end Pocketboot.Kexec
