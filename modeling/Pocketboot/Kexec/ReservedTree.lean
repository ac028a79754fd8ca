import Pocketboot.Kexec.Ranges
import Pocketboot.Kexec.ReservedVisit
import Pocketboot.Kexec.TreeEdits
import Pocketboot.Kexec.TreeVisit
import Pocketboot.Kexec.TreeWrite

/-!
# What `reserved_ranges` returns

Of a blob that `contract_tree` accepts, `reserved_ranges` returns the ranges
of the reserve map and those of the enabled children of `/reserved-memory`.
-/

namespace Pocketboot.Kexec

open DeviceTree ContractNode

/-! ## What the tree says -/

/-- The number of a cell property of a node, or a default. -/
def cellsOr (node : ContractNode) (name : Bytes) (default : Nat) : Nat :=
  ((node.get name).map Bytes.ofBe).getD default

/-- The cells of `/reserved-memory`, or else those of the root. -/
def regAddressCells (root reserved : ContractNode) : Nat :=
  cellsOr reserved propAddressCells (cellsOr root propAddressCells 2)

def regSizeCells (root reserved : ContractNode) : Nat :=
  cellsOr reserved propSizeCells (cellsOr root propSizeCells 1)

/-- The `reg` of a child of `/reserved-memory` that is read. -/
def enabledReg (child : ContractNode) : Option Bytes :=
  if child.enabled then child.get propReg else none

/-- The pairs of an address and a size below `/reserved-memory`. -/
def reservedPairs (root : ContractNode) : List (Nat × Nat) :=
  (root.child nodeReservedMemory).toList.flatMap fun reserved =>
    (reserved.children.filterMap enabledReg).flatMap
      (regPairs (regAddressCells root reserved) (regSizeCells root reserved))

/-- A `reg` of whole tuples whose ranges end inside of a word. -/
structure WellFormedReg (addressCells sizeCells : Nat) (reg : Bytes) :
    Prop where
  counts : CellCounts addressCells sizeCells
  whole : reg.length % ((addressCells + sizeCells) * 4) = 0
  fits : FitsWord (regPairs addressCells sizeCells reg)

/-- The cell properties of a node that are there are one cell each. -/
structure OneCellEach (node : ContractNode) : Prop where
  address : OneCell (node.get propAddressCells)
  size : OneCell (node.get propSizeCells)

/-- Everything that `reserved_ranges` reads of a tree is well formed. -/
structure WellFormedReservations (root : ContractNode) : Prop where
  rootCells : OneCellEach root
  reservedCells : ∀ reserved, root.child nodeReservedMemory = some reserved →
    OneCellEach reserved
  regs : ∀ reserved, root.child nodeReservedMemory = some reserved →
    ∀ reg ∈ reserved.children.filterMap enabledReg,
      WellFormedReg (regAddressCells root reserved)
        (regSizeCells root reserved) reg

/-! ## Ranges of several nodes -/

theorem extents_append (pairs pairs' : List (Nat × Nat)) :
    extents (pairs ++ pairs') = extents pairs ++ extents pairs' := by
  simp [extents]

theorem decodeRegRanges_wellFormed {reg : Bytes} {addressCells sizeCells : Nat}
    {ranges : List (Nat × Nat)} :
    decodeRegRanges reg addressCells sizeCells = .ok ranges ↔
      WellFormedReg addressCells sizeCells reg ∧
        ranges = extents (regPairs addressCells sizeCells reg) := by
  rw [decodeRegRanges_eq_ok]
  constructor
  · rintro ⟨counts, whole, fits, same⟩
    exact ⟨⟨counts, whole, fits⟩, same⟩
  · rintro ⟨⟨counts, whole, fits⟩, same⟩
    exact ⟨counts, whole, fits, same⟩

/-! ## The properties of the three kinds of nodes -/

/-- The state with another number of cells. -/
def setRootAddress (state : ReservedState) (cells : Nat) : ReservedState :=
  { state with rootAddressCells := cells }

def setRootSize (state : ReservedState) (cells : Nat) : ReservedState :=
  { state with rootSizeCells := cells }

def setReservedAddress (state : ReservedState) (cells : Nat) : ReservedState :=
  { state with reservedAddressCells := some cells }

def setReservedSize (state : ReservedState) (cells : Nat) : ReservedState :=
  { state with reservedSizeCells := some cells }

theorem map_propertyU32 {σ : Type} (update : Nat → σ) (value name : Bytes) :
    update <$> propertyU32 value name =
      propertyU32 value name >>= fun cells => pure (update cells) :=
  (bind_pure_comp _ _).symm

theorem readsCells_root :
    ReadsCells (fun state : ReservedState => state.stack = [[]]) storeProp
      propAddressCells propSizeCells setRootAddress setRootSize := by
  have stored : ∀ {state : ReservedState} {name value}, state.stack = [[]] →
      storeProp state name value = rootProp state name value := by
    intro state name value root
    rw [storeProp, root]
    rfl
  refine ⟨by decide, ?_, ?_, ?_, ?_, ?_⟩
  · intro state root value
    rw [stored root, rootProp, if_pos rfl, map_propertyU32]
    rfl
  · intro state root value
    rw [stored root, rootProp, if_neg (by decide), if_pos rfl, map_propertyU32]
    rfl
  · intro state root name value notAddress notSize
    rw [stored root, rootProp, if_neg notAddress, if_neg notSize]
    rfl
  · intro state root cells
    exact ⟨root, root⟩
  · intro state cells cells'
    rfl

theorem readsCells_reserved :
    ReadsCells
      (fun state : ReservedState => state.stack = [[], nodeReservedMemory])
      storeProp propAddressCells propSizeCells setReservedAddress
      setReservedSize := by
  have stored : ∀ {state : ReservedState} {name value},
      state.stack = [[], nodeReservedMemory] →
      storeProp state name value = reservedProp state name value := by
    intro state name value reserved
    have here : isReservedMemory [[], nodeReservedMemory] = true :=
      decide_eq_true (p := nodeReservedMemory = nodeReservedMemory) rfl
    rw [storeProp, reserved, here]
    rfl
  refine ⟨by decide, ?_, ?_, ?_, ?_, ?_⟩
  · intro state reserved value
    rw [stored reserved, reservedProp, if_pos rfl, map_propertyU32]
    rfl
  · intro state reserved value
    rw [stored reserved, reservedProp, if_neg (by decide), if_pos rfl,
      map_propertyU32]
    rfl
  · intro state reserved name value notAddress notSize
    rw [stored reserved, reservedProp, if_neg notAddress, if_neg notSize]
    rfl
  · intro state reserved cells
    exact ⟨reserved, reserved⟩
  · intro state cells cells'
    rfl

/-- Change what was read of the child so far. -/
def changeReading (change : ReservedChild → ReservedChild)
    (state : ReservedState) : ReservedState :=
  { state with child := state.child.map change }

/-- In a child of `/reserved-memory`, with something read of it. -/
structure ReadingChild (name : Bytes) (state : ReservedState) : Prop where
  stack : state.stack = [[], nodeReservedMemory, name]
  child : state.child.isSome = true

theorem isReservedMemoryChild_of (name : Bytes) :
    isReservedMemoryChild [[], nodeReservedMemory, name] = true :=
  decide_eq_true (p := nodeReservedMemory = nodeReservedMemory) rfl

theorem readsPair_child (name : Bytes) :
    ReadsPair (ReadingChild name) storeProp propReg propStatus
      (fun state value => .ok (changeReading (fun child =>
        { child with reg := some value }) state))
      (fun state value => .ok (changeReading (fun child =>
        { child with enabled := propertyStatusEnabled value }) state)) := by
  have stored : ∀ {state : ReservedState} {child : ReservedChild} {key value},
      state.stack = [[], nodeReservedMemory, name] →
      state.child = some child →
      storeProp state key value =
        if key = propReg then
          .ok { state with child := some { child with reg := some value } }
        else if key = propStatus then
          .ok { state with
            child := some { child with enabled := propertyStatusEnabled value } }
        else .ok state := by
    intro state child key value here read
    have root : ¬ isRoot state.stack = true := by
      rw [here]
      exact Bool.false_ne_true
    have reserved : ¬ isReservedMemory state.stack = true := by
      rw [here]
      exact Bool.false_ne_true
    have inside : isReservedMemoryChild state.stack = true := by
      rw [here]
      exact isReservedMemoryChild_of name
    rw [storeProp, if_neg root, if_neg reserved, if_pos inside,
      reservedChildProp, read]
    rfl
  refine ⟨by decide, ?_, ?_, ?_, ?_, ?_, ?_⟩
  · intro state reading value
    obtain ⟨child, read⟩ := Option.isSome_iff_exists.mp reading.child
    rw [stored reading.stack read, if_pos rfl, changeReading, read]
    rfl
  · intro state reading value
    obtain ⟨child, read⟩ := Option.isSome_iff_exists.mp reading.child
    rw [stored reading.stack read, if_neg (by decide), if_pos rfl,
      changeReading, read]
    rfl
  · intro state reading key value notReg notStatus
    obtain ⟨child, read⟩ := Option.isSome_iff_exists.mp reading.child
    rw [stored reading.stack read, if_neg notReg, if_neg notStatus]
  · intro state state' value reading changed
    cases changed
    exact ⟨reading.stack, by simpa [changeReading] using reading.child⟩
  · intro state state' value reading changed
    cases changed
    exact ⟨reading.stack, by simpa [changeReading] using reading.child⟩
  · intro state result value value' reading
    obtain ⟨child, read⟩ := Option.isSome_iff_exists.mp reading.child
    simp [changeReading, read]

/-! ## The nodes -/

section

variable {state result : ReservedState} {node : ContractNode}

/-- The cells that count for a child of `/reserved-memory`. -/
def ReservedState.addressCells (state : ReservedState) : Nat :=
  state.reservedAddressCells.getD state.rootAddressCells

def ReservedState.sizeCells (state : ReservedState) : Nat :=
  state.reservedSizeCells.getD state.rootSizeCells

/-- The state when the ranges of some `reg` values are read. -/
def withRegs (state : ReservedState) (regs : List Bytes) : ReservedState :=
  { state with
    ranges := state.ranges ++ extents
      (regs.flatMap (regPairs state.addressCells state.sizeCells)) }

/-- The properties of a child of `/reserved-memory`. -/
theorem child_props {name : Bytes} (keys : (node.props.map Prod.fst).Nodup)
    (reading : state.child = some ⟨true, none⟩)
    (here : state.stack = [[], nodeReservedMemory, name]) :
    node.props.foldlM (fun state item => storeProp state item.1 item.2) state =
      .ok { state with
        child := some ⟨node.enabled, node.get propReg⟩ } := by
  have begins : ReadingChild name state := ⟨here, by rw [reading]; rfl⟩
  rw [(readsPair_child name).foldlM_eq_ok keys begins]
  obtain ⟨stack, rootAddress, rootSize, address, size, child, ranges⟩ := state
  obtain rfl : child = some ⟨true, none⟩ := reading
  unfold ContractNode.enabled ContractNode.get
  cases lookup propReg node.props <;> cases lookup propStatus node.props <;> rfl

theorem closeNode_child {name : Bytes} {child : ReservedChild}
    (reading : state.child = some child)
    (here : state.stack = [[], nodeReservedMemory, name]) :
    closeNode state = .ok result ↔
      (∀ reg ∈ (if child.enabled then child.reg else none).toList,
        WellFormedReg state.addressCells state.sizeCells reg) ∧
      result = { withRegs state
        (if child.enabled then child.reg else none).toList with
          child := none } := by
  have inside : isReservedMemoryChild state.stack = true := by
    rw [here]
    exact isReservedMemoryChild_of name
  obtain ⟨stack, rootAddress, rootSize, address, size, _, ranges⟩ := state
  obtain rfl := reading
  rw [closeNode, if_pos inside, closeReservedChild]
  obtain ⟨enabled, reg⟩ := child
  have silent : ∀ {state : ReservedState} {child : Option ReservedChild},
      (Except.ok { state with child := none } : Result ReservedState) =
          .ok result ↔
        (∀ reg ∈ ([] : List Bytes),
          WellFormedReg state.addressCells state.sizeCells reg) ∧
        result = { withRegs { state with child } [] with child := none } := by
    intro state child
    simp [withRegs, extents, eq_comm]
  cases enabled with
  | false => exact silent
  | true =>
      cases reg with
      | none => exact silent
      | some reg =>
          change (decodeRegRanges reg _ _ >>= _) = _ ↔ _
          simp only [Run.bind_eq_ok, Run.pure_eq_ok, Except.ok.injEq,
            decodeRegRanges_wellFormed, if_true, Option.toList_some,
            List.forall_mem_singleton, withRegs, List.flatMap_singleton]
          constructor
          · rintro ⟨_, ⟨wellFormed, rfl⟩, rfl⟩
            exact ⟨wellFormed, rfl⟩
          · rintro ⟨wellFormed, rfl⟩
            exact ⟨_, ⟨wellFormed, rfl⟩, rfl⟩

theorem visitNode_quiet (quiet : Quiet (state.stack ++ [node.name])) :
    visitNode reservedVisit state node = .ok state := by
  rw [visitNode, enter_quiet quiet, Run.ok_bind, run_quiet _ quiet,
    Run.ok_bind, leave_quiet quiet]

theorem foldlM_quiet {nodes : List ContractNode}
    (quiet : ∀ node ∈ nodes, Quiet (state.stack ++ [node.name])) :
    nodes.foldlM (visitNode reservedVisit) state = .ok state := by
  induction nodes with
  | nil => rfl
  | cons node nodes induction =>
      rw [List.foldlM_cons, visitNode_quiet (quiet node List.mem_cons_self),
        Run.ok_bind]
      exact induction fun other member =>
        quiet other (List.mem_cons_of_mem _ member)

/-- A child of `/reserved-memory` adds the ranges of its `reg`. -/
theorem visitNode_child (keys : (node.props.map Prod.fst).Nodup)
    (here : state.stack = [[], nodeReservedMemory])
    (closed : state.child = none) :
    visitNode reservedVisit state node = .ok result ↔
      (∀ reg ∈ (enabledReg node).toList,
        WellFormedReg state.addressCells state.sizeCells reg) ∧
      result = withRegs state (enabledReg node).toList := by
  obtain ⟨stack, rootAddress, rootSize, address, size, child, ranges⟩ := state
  obtain rfl : stack = [[], nodeReservedMemory] := here
  obtain rfl : child = none := closed
  have entered : reservedVisit.enter ⟨[[], nodeReservedMemory], rootAddress,
      rootSize, address, size, none, ranges⟩ node.name =
      .ok ⟨[[], nodeReservedMemory, node.name], rootAddress, rootSize, address,
        size, some ⟨true, none⟩, ranges⟩ := by
    change Except.ok (ReservedState.mk _ _ _ _ _
      (if isReservedMemoryChild [[], nodeReservedMemory, node.name] then _
        else _) _) = _
    rw [if_pos (isReservedMemoryChild_of node.name)]
    rfl
  have props := @child_props ⟨[[], nodeReservedMemory, node.name], rootAddress,
    rootSize, address, size, some ⟨true, none⟩, ranges⟩ node node.name keys rfl
    rfl
  have deep := @foldlM_quiet ⟨[[], nodeReservedMemory, node.name], rootAddress,
    rootSize, address, size, some ⟨node.enabled, node.get propReg⟩, ranges⟩
    node.children fun inner _ =>
      quiet_of_deep nodeReservedMemory node.name inner.name
  rw [visitNode, entered, Run.ok_bind, run_body]
  change ((node.props.foldlM (fun state item =>
    storeProp state item.1 item.2) _ >>= _) >>= _) = _ ↔ _
  rw [props, Run.ok_bind, deep, Run.ok_bind]
  change (closeNode _ >>= _) = _ ↔ _
  rw [Run.bind_eq_ok]
  constructor
  · rintro ⟨closing, closes, later⟩
    rw [closeNode_child rfl rfl] at closes
    obtain ⟨wellFormed, rfl⟩ := closes
    rw [Run.ensure_of (by simp [withRegs]), Run.ok_bind] at later
    cases later
    exact ⟨wellFormed, rfl⟩
  · rintro ⟨wellFormed, rfl⟩
    refine ⟨_, (@closeNode_child _ _ node.name
      ⟨node.enabled, node.get propReg⟩ rfl rfl).mpr ⟨wellFormed, rfl⟩, ?_⟩
    rw [Run.ensure_of (by simp [withRegs]), Run.ok_bind]
    rfl

theorem withRegs_withRegs (state : ReservedState) (regs regs' : List Bytes) :
    withRegs (withRegs state regs) regs' = withRegs state (regs ++ regs') := by
  unfold withRegs ReservedState.addressCells ReservedState.sizeCells
  simp [extents_append]

/-- The children of `/reserved-memory` add the ranges of each `reg`. -/
theorem foldlM_children {nodes : List ContractNode}
    (keys : ∀ node ∈ nodes, (node.props.map Prod.fst).Nodup)
    (here : state.stack = [[], nodeReservedMemory])
    (closed : state.child = none) :
    nodes.foldlM (visitNode reservedVisit) state = .ok result ↔
      (∀ reg ∈ nodes.filterMap enabledReg,
        WellFormedReg state.addressCells state.sizeCells reg) ∧
      result = withRegs state (nodes.filterMap enabledReg) := by
  induction nodes generalizing state with
  | nil =>
      simp [withRegs, extents, eq_comm]
  | cons node nodes induction =>
      have split : (node :: nodes).filterMap enabledReg =
          (enabledReg node).toList ++ nodes.filterMap enabledReg := by
        rw [List.filterMap_cons]
        cases enabledReg node <;> rfl
      have keysOf := keys node List.mem_cons_self
      have keysOfRest := fun other member =>
        keys other (List.mem_cons_of_mem node member)
      rw [List.foldlM_cons, Run.bind_eq_ok, split, List.forall_mem_append]
      constructor
      · rintro ⟨next, step, later⟩
        obtain ⟨first, rfl⟩ := (visitNode_child keysOf here closed).mp step
        obtain ⟨rest, rfl⟩ := (@induction (withRegs state _) keysOfRest here
          closed).mp later
        exact ⟨⟨first, rest⟩, withRegs_withRegs state _ _⟩
      · rintro ⟨⟨first, rest⟩, rfl⟩
        exact ⟨_, (visitNode_child keysOf here closed).mpr ⟨first, rfl⟩,
          (@induction (withRegs state _) keysOfRest here closed).mpr
            ⟨rest, (withRegs_withRegs state _ _).symm⟩⟩

/-- The state with the cells of `/reserved-memory`. -/
def withReservedCells (node : ContractNode) (state : ReservedState) :
    ReservedState :=
  storeCells setReservedSize (node.get propSizeCells)
    (storeCells setReservedAddress (node.get propAddressCells) state)

/-- The state with the cells of the root. -/
def withRootCells (node : ContractNode) (state : ReservedState) :
    ReservedState :=
  storeCells setRootSize (node.get propSizeCells)
    (storeCells setRootAddress (node.get propAddressCells) state)

theorem withReservedCells_stack (stack : List Bytes) :
    withReservedCells node { state with stack } =
      { withReservedCells node state with stack } := by
  unfold withReservedCells
  cases node.get propSizeCells <;> cases node.get propAddressCells <;> rfl

theorem withReservedCells_child :
    (withReservedCells node state).child = state.child := by
  unfold withReservedCells
  cases node.get propSizeCells <;> cases node.get propAddressCells <;> rfl

theorem withRootCells_stack :
    (withRootCells node state).stack = state.stack := by
  unfold withRootCells
  cases node.get propSizeCells <;> cases node.get propAddressCells <;> rfl

/-- `/reserved-memory` itself: its cells, and the `reg` of its children. -/
theorem visitNode_reserved (keys : (node.props.map Prod.fst).Nodup)
    (below : ∀ child ∈ node.children, (child.props.map Prod.fst).Nodup)
    (named : node.name = nodeReservedMemory) (root : state.stack = [[]])
    (closed : state.child = none) :
    visitNode reservedVisit state node = .ok result ↔
      OneCellEach node ∧
      (∀ reg ∈ node.children.filterMap enabledReg,
        WellFormedReg (withReservedCells node state).addressCells
          (withReservedCells node state).sizeCells reg) ∧
      result = withRegs (withReservedCells node state)
        (node.children.filterMap enabledReg) := by
  have entered : reservedVisit.enter state node.name =
      .ok { state with stack := [[], nodeReservedMemory] } := by
    rw [named]
    change Except.ok { state with
      stack := state.stack ++ [nodeReservedMemory]
      child := if isReservedMemoryChild (state.stack ++ [nodeReservedMemory])
        then some ⟨true, none⟩ else state.child } = _
    rw [root]
    rfl
  have leaves : ∀ after : ReservedState,
      after.stack = [[], nodeReservedMemory] →
      reservedVisit.leave after = .ok { after with stack := [[]] } := by
    intro after here
    change closeNode after >>= _ = _
    rw [closeNode, here]
    change (Run.ensure (after.stack ≠ []) _ >>= _) = _
    rw [here, Run.ensure_of (by simp), Run.ok_bind]
    rfl
  have keeps : ∀ regs, { withRegs { withReservedCells node state with
      stack := [[], nodeReservedMemory] } regs with stack := [[]] } =
      withRegs (withReservedCells node state) regs := by
    intro regs
    have stack : (withReservedCells node state).stack = [[]] := by
      unfold withReservedCells
      cases node.get propSizeCells <;> cases node.get propAddressCells <;>
        exact root
    unfold withRegs ReservedState.addressCells ReservedState.sizeCells
    rw [← stack]
  have moved := @withReservedCells_stack state node [[], nodeReservedMemory]
  have passes := fun after => @foldlM_children { withReservedCells node state with
    stack := [[], nodeReservedMemory] } after node.children below rfl
    (withReservedCells_child.trans closed)
  rw [visitNode, entered, Run.ok_bind, run_body, Run.bind_eq_ok]
  change (∃ after, ((node.props.foldlM (fun state item =>
    storeProp state item.1 item.2) _ >>= _) = _) ∧ _) ↔ _
  simp only [Run.bind_eq_ok]
  constructor
  · rintro ⟨after, ⟨_, props, children⟩, leaving⟩
    rw [readsCells_reserved.foldlM_eq_ok keys rfl] at props
    obtain ⟨address, size, same⟩ := props
    obtain rfl := same.trans moved
    obtain ⟨wellFormed, rfl⟩ := (passes _).mp children
    rw [leaves _ rfl, keeps] at leaving
    cases leaving
    exact ⟨⟨address, size⟩, wellFormed, rfl⟩
  · rintro ⟨oneCell, wellFormed, rfl⟩
    refine ⟨_, ⟨_, (readsCells_reserved.foldlM_eq_ok keys rfl).mpr
      ⟨oneCell.address, oneCell.size, moved.symm⟩,
      (passes _).mpr ⟨wellFormed, rfl⟩⟩, ?_⟩
    rw [leaves _ rfl, keeps]

theorem withReservedCells_stack_eq (stack : state.stack = [[]]) :
    (withReservedCells node state).stack = [[]] := by
  unfold withReservedCells
  cases node.get propSizeCells <;> cases node.get propAddressCells <;>
    exact stack

/-- Of the children of the root only `/reserved-memory` is read. -/
theorem foldlM_root {nodes : List ContractNode}
    (names : (nodes.map ContractNode.name).Nodup)
    (canonical : ∀ node ∈ nodes, (node.props.map Prod.fst).Nodup ∧
      ∀ child ∈ node.children, (child.props.map Prod.fst).Nodup)
    (root : state.stack = [[]]) (closed : state.child = none) :
    nodes.foldlM (visitNode reservedVisit) state =
      (nodes.find? (·.name = nodeReservedMemory)).elim (.ok state)
        (visitNode reservedVisit state) := by
  induction nodes with
  | nil => rfl
  | cons node nodes induction =>
      rw [List.map_cons, List.nodup_cons] at names
      obtain ⟨fresh, names⟩ := names
      rw [List.foldlM_cons, List.find?_cons]
      by_cases reserved : node.name = nodeReservedMemory
      · simp only [reserved, decide_true, Option.elim_some]
        cases visited : visitNode reservedVisit state node with
        | error fault => rfl
        | ok next =>
            obtain ⟨keys, below⟩ := canonical node List.mem_cons_self
            obtain ⟨_, _, same⟩ :=
              (visitNode_reserved keys below reserved root closed).mp visited
            have stack : next.stack = [[]] := by
              rw [same]
              exact withReservedCells_stack_eq root
            refine foldlM_quiet fun other member => ?_
            rw [stack]
            refine quiet_of_ne fun again => fresh ?_
            rw [reserved, ← again]
            exact List.mem_map_of_mem member
      · have quiet : Quiet (state.stack ++ [node.name]) := by
          rw [root]
          exact quiet_of_ne reserved
        rw [visitNode_quiet quiet, Run.ok_bind]
        simp only [reserved, decide_false]
        exact induction names fun other member =>
          canonical other (List.mem_cons_of_mem _ member)

end

/-- The state in the root. -/
def inRoot : ReservedState := { startRanges with stack := [[]] }

theorem cells_withReserved (root reserved : ContractNode) :
    (withReservedCells reserved (withRootCells root inRoot)).addressCells =
        regAddressCells root reserved ∧
      (withReservedCells reserved (withRootCells root inRoot)).sizeCells =
        regSizeCells root reserved ∧
      (withReservedCells reserved (withRootCells root inRoot)).ranges = [] := by
  unfold withReservedCells withRootCells regAddressCells regSizeCells cellsOr
  cases root.get propAddressCells <;> cases root.get propSizeCells <;>
    cases reserved.get propAddressCells <;>
    cases reserved.get propSizeCells <;> exact ⟨rfl, rfl, rfl⟩

theorem withRootCells_child (root : ContractNode) :
    (withRootCells root inRoot).child = none ∧
      (withRootCells root inRoot).ranges = [] := by
  unfold withRootCells
  cases root.get propAddressCells <;> cases root.get propSizeCells <;>
    exact ⟨rfl, rfl⟩

/-- The state after the children of the root. -/
def afterChildren (root : ContractNode) : ReservedState :=
  (root.child nodeReservedMemory).elim (withRootCells root inRoot)
    fun reserved =>
      withRegs (withReservedCells reserved (withRootCells root inRoot))
        (reserved.children.filterMap enabledReg)

theorem root_children {root : ContractNode} {result : ReservedState}
    (canonical : root.Canonical 64) :
    root.children.foldlM (visitNode reservedVisit)
        (withRootCells root inRoot) = .ok result ↔
      (∀ reserved, root.child nodeReservedMemory = some reserved →
        OneCellEach reserved ∧
        ∀ reg ∈ reserved.children.filterMap enabledReg,
          WellFormedReg (regAddressCells root reserved)
            (regSizeCells root reserved) reg) ∧
      result = afterChildren root := by
  have stack : (withRootCells root inRoot).stack = [[]] := withRootCells_stack
  have closed := (withRootCells_child root).1
  rw [foldlM_root canonical.names (fun node member =>
    ⟨(canonical.inner node member).keys, fun child below =>
      ((canonical.inner node member).inner child below).keys⟩) stack closed]
  change (root.child nodeReservedMemory).elim _ _ = _ ↔ _
  unfold afterChildren
  cases found : root.child nodeReservedMemory with
  | none => simp [eq_comm]
  | some reserved =>
      have below := canonical.inner reserved (child_mem found)
      obtain ⟨address, size, _⟩ := cells_withReserved root reserved
      rw [Option.elim_some, visitNode_reserved below.keys
        (fun child member => (below.inner child member).keys)
        (child_name found) stack closed, address, size]
      simp [and_assoc]

theorem afterChildren_eq (root : ContractNode) :
    (afterChildren root).stack = [[]] ∧
      (afterChildren root).ranges = extents (reservedPairs root) := by
  have stack : (withRootCells root inRoot).stack = [[]] := withRootCells_stack
  unfold afterChildren reservedPairs
  cases root.child nodeReservedMemory with
  | none => exact ⟨stack, (withRootCells_child root).2⟩
  | some reserved =>
      obtain ⟨address, size, ranges⟩ := cells_withReserved root reserved
      refine ⟨withReservedCells_stack_eq stack, ?_⟩
      rw [Option.elim_some, withRegs, address, size, ranges]
      simp

/-- What the visit of a whole tree returns. -/
theorem reservedVisit_tree {root : ContractNode} {ranges : List (Nat × Nat)}
    (canonical : root.Canonical 64) :
    (reservedVisit.run (.node [] root.body .nil) startRanges >>=
        finishRanges) = .ok ranges ↔
      WellFormedReservations root ∧ ranges = extents (reservedPairs root) := by
  obtain ⟨stack, read⟩ := afterChildren_eq root
  have leaves : reservedVisit.leave (afterChildren root) =
      .ok { afterChildren root with stack := [] } := by
    change closeNode (afterChildren root) >>= _ = _
    rw [closeNode, stack]
    change (Run.ensure ((afterChildren root).stack ≠ []) _ >>= _) = _
    rw [stack, Run.ensure_of (by simp), Run.ok_bind]
    rfl
  have enters : reservedVisit.enter startRanges [] = .ok inRoot := rfl
  have finishes : finishRanges { afterChildren root with stack := [] } =
      .ok (extents (reservedPairs root)) := by
    rw [finishRanges, Run.ensure_of rfl, Run.ok_bind, ← read]
    rfl
  rw [Visit.run, enters, Run.ok_bind, run_body, Run.bind_eq_ok]
  change (∃ after, (((root.props.foldlM (fun state item =>
    storeProp state item.1 item.2) inRoot >>= _) >>= _) = _) ∧ _) ↔ _
  simp only [Run.bind_eq_ok]
  constructor
  · rintro ⟨_, ⟨_, ⟨_, props, children⟩, _, leaving, same⟩, finishing⟩
    rw [readsCells_root.foldlM_eq_ok canonical.keys rfl] at props
    obtain ⟨address, size, rfl⟩ := props
    obtain ⟨wellFormed, rfl⟩ := (root_children canonical).mp children
    rw [leaves] at leaving
    cases leaving
    cases same
    rw [finishes] at finishing
    cases finishing
    exact ⟨⟨⟨address, size⟩, fun reserved found => (wellFormed reserved found).1,
      fun reserved found => (wellFormed reserved found).2⟩, rfl⟩
  · rintro ⟨wellFormed, rfl⟩
    exact ⟨_, ⟨_, ⟨_, (readsCells_root.foldlM_eq_ok canonical.keys rfl).mpr
      ⟨wellFormed.rootCells.address, wellFormed.rootCells.size, rfl⟩,
      (root_children canonical).mpr ⟨fun reserved found =>
        ⟨wellFormed.reservedCells reserved found,
          wellFormed.regs reserved found⟩, rfl⟩⟩, _, leaves, rfl⟩, finishes⟩

/-! ## Whole blobs -/

theorem content_named (props : List (Bytes × Bytes)) {rest : Content}
    (named : rest.Named) : (propsContent props rest).Named := by
  induction props with
  | nil => exact named
  | cons item props induction => exact ⟨rfl, induction⟩

mutual

theorem body_named : ∀ node : ContractNode, node.body.Named
  | ⟨_, props, children⟩ => by
      rw [ContractNode.body]
      exact content_named props (siblings_named children)

theorem siblings_named : ∀ nodes : List ContractNode, (siblings nodes).Named
  | [] => trivial
  | node :: nodes => by
      rw [siblings]
      exact ⟨body_named node, siblings_named nodes⟩

end

/-- The ranges of a reserve map are read only up to the pair that closes it. -/
theorem reserveMapRangesFrom_reads {dtb : Bytes} {header : Header}
    (short : header.totalsize < 2 ^ 32)
    (whole : header.totalsize ≤ dtb.length) {fuel cursor : Nat}
    {ranges result : List (Nat × Nat)}
    (read : reserveMapRangesFrom dtb header fuel cursor ranges = .ok result) :
    (readReservations fuel (mapFrom dtb header cursor)).isSome = true := by
  induction fuel generalizing cursor ranges with
  | zero => cases read
  | succ fuel induction =>
      rw [reserveMapRangesFrom] at read
      obtain ⟨_, inside, read⟩ := Run.bind_eq_ok.mp read
      rw [Run.ensure_eq_ok, entryInside_iff short] at inside
      have length := @mapFrom_length dtb header cursor whole
      rw [addOrPanic_of (by unfold wordSize; omega), Run.ok_bind,
        sliceOrPanic_of (by omega) (by omega), Run.ok_bind,
        addOrPanic_of (by unfold wordSize; omega), Run.ok_bind,
        sliceOrPanic_of (by omega) (by omega), Run.ok_bind, Run.ok_bind]
        at read
      rw [readReservations, if_neg (by omega),
        frontReservation_mapFrom inside, mapFrom_drop]
      split
      · rfl
      · rename_i proper
        rw [Option.isSome_map]
        rw [if_neg (by simpa [Prod.ext_iff] using proper)] at read
        split at read
        · exact induction read
        · obtain ⟨_, _, read⟩ := Run.bind_eq_ok.mp read
          exact induction read

theorem reserveMapRanges_eq_ok {dtb : Bytes} {ranges : List (Nat × Nat)}
    (accepted : Accepted dtb) :
    reserveMapRanges dtb (headerOf dtb) = .ok ranges ↔ ∃ entries,
      reservations dtb = some entries ∧ FitsWord entries ∧
        ranges = extents entries := by
  constructor
  · intro read
    obtain ⟨entries, found⟩ := Option.isSome_iff_exists.mp
      (reserveMapRangesFrom_reads (be32At_lt dtb 4) accepted.whole read)
    rw [reserveMapRanges_eq accepted found, entryRanges_eq_ok] at read
    exact ⟨entries, found, read⟩
  · rintro ⟨entries, found, fits⟩
    rw [reserveMapRanges_eq accepted found, entryRanges_eq_ok]
    exact fits

/-- Of an accepted tree `reserved_ranges` returns the ranges of the reserve
map, then those of the enabled children of `/reserved-memory`; it fails where
one of them is not well formed. -/
theorem reservedRanges_eq_ok {dtb : Bytes} {root : ContractNode}
    {ranges : List (Nat × Nat)} (parsed : contractTree dtb = .ok root) :
    reservedRanges dtb = .ok ranges ↔ ∃ entries,
      reservations dtb = some entries ∧ FitsWord entries ∧
      WellFormedReservations root ∧
      ranges = extents entries ++ extents (reservedPairs root) := by
  obtain ⟨accepted, forest, trailing, block, holds⟩ :=
    contractTree_eq_ok.mp parsed
  have short := structBlock_short accepted.toWellPlaced
  have named : (forest.content (stringsBlock dtb)).Named := by
    rw [holds.content]
    exact ⟨body_named root, trivial⟩
  have nodes := reservedMemoryNodeRanges_eq short block named
  rw [holds.content] at nodes
  rw [reservedRanges, headerParse_eq_ok.mpr ⟨rfl, accepted⟩, Run.ok_bind,
    checkedSlice_struct accepted, checkedSlice_strings accepted]
  simp only [Run.bind_eq_ok, Run.ok_bind, Run.pure_eq_ok, Except.ok.injEq,
    nodes, reserveMapRanges_eq_ok accepted]
  constructor
  · rintro ⟨_, ⟨entries, found, fits, rfl⟩, _, read, rfl⟩
    obtain ⟨wellFormed, rfl⟩ :=
      (reservedVisit_tree holds.canonical).mp (Run.bind_eq_ok.mpr read)
    exact ⟨entries, found, fits, wellFormed, rfl⟩
  · rintro ⟨entries, found, fits, wellFormed, rfl⟩
    exact ⟨_, ⟨entries, found, fits, rfl⟩, _, Run.bind_eq_ok.mp
      ((reservedVisit_tree holds.canonical).mpr ⟨wellFormed, rfl⟩), rfl⟩

/-- `reserved_ranges` of an accepted tree: the ranges it returns, and when it
fails. -/
theorem reservedRanges_reads (dtb : Bytes) (root : ContractNode)
    (parsed : contractTree dtb = .ok root) :
    (∀ ranges, reservedRanges dtb = .ok ranges ↔ ∃ entries,
      reservations dtb = some entries ∧ FitsWord entries ∧
      WellFormedReservations root ∧
      ranges = extents entries ++ extents (reservedPairs root)) ∧
    ((∃ error, reservedRanges dtb = Run.fail error) ↔
      ∀ entries, reservations dtb = some entries → FitsWord entries →
        ¬ WellFormedReservations root) := by
  refine ⟨fun _ => reservedRanges_eq_ok parsed, ?_⟩
  constructor
  · rintro ⟨error, fails⟩ entries found fits wellFormed
    have read := (reservedRanges_eq_ok parsed).mpr
      ⟨entries, found, fits, wellFormed, rfl⟩
    rw [fails] at read
    cases read
  · intro unread
    obtain ⟨notPanic, notFuel⟩ :=
      Run.returns_iff.mp (reservedRanges_returns dtb)
    cases result : reservedRanges dtb with
    | ok ranges =>
        obtain ⟨entries, found, fits, wellFormed, _⟩ :=
          (reservedRanges_eq_ok parsed).mp result
        exact absurd wellFormed (unread entries found fits)
    | error fault =>
        cases fault with
        | error error => exact ⟨error, rfl⟩
        | panic => exact absurd result notPanic
        | outOfFuel => exact absurd result notFuel

/-- A page below `/reserved-memory`, in the cells of the root. -/
def pageTree : ContractNode :=
  ⟨[], [(propAddressCells, be32 2), (propSizeCells, be32 2)],
    [⟨nodeReservedMemory, [],
      [⟨byteString "page", [(propReg,
        Bytes.toBe 8 0x80000000 ++ Bytes.toBe 8 0x1000)], []⟩]⟩]⟩

theorem pageTree_canonical : pageTree.Canonical 64 := by
  refine .mk (by decide) (by decide) (by decide) (by decide) ?_
  simp only [List.forall_mem_singleton]
  refine .mk (by decide) (by decide) (by decide) (by decide) ?_
  simp only [List.forall_mem_singleton]
  exact .mk (by decide) (by decide) (by decide) (by decide) (by simp)

theorem reservedRanges_reads_page : ∃ dtb,
    contractTree dtb = .ok pageTree ∧
    reservations dtb = some [(0x1000, 0x10)] ∧
    (∀ ranges, reservedRanges dtb = .ok ranges ↔ ∃ entries,
      reservations dtb = some entries ∧ FitsWord entries ∧
      WellFormedReservations pageTree ∧
      ranges = extents entries ++ extents (reservedPairs pageTree)) := by
  let base := assemble ⟨0, 0, 0, 0, 17, 16, 0, 0, 0⟩ (reserveMapBytes [])
    (be32 endToken) []
  have proper : ∀ entry ∈ [(0x1000, 0x10)], Reservation.Proper entry := by
    simp only [List.forall_mem_singleton]
    exact ⟨by decide, by decide, by decide⟩
  obtain ⟨dtb, _, laid⟩ := @buildContractTree_blobOf base pageTree
    [(0x1000, 0x10)] (by decide +kernel) proper rfl pageTree_canonical
    (by decide +kernel)
  exact ⟨dtb, laid.tree, laid.reserved,
    (reservedRanges_reads dtb pageTree laid.tree).1⟩

end Pocketboot.Kexec
