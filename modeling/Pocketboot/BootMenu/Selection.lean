import Pocketboot.BootMenu.Coordinator

/-!
# Selections against a changing list

A selection crosses two queues as a row index.  It boots the entry the user saw
as long as every list the coordinator turns to keeps the rows that are on their
way to it.
-/

namespace Pocketboot.BootMenu

open Transition

/-! ## When rows keep their entries -/

/-- The list of a discovery event. -/
def CoordinatorEvent.discovered : CoordinatorEvent → Option (List BootEntry)
  | .discoveryUpdate entries => some entries
  | .discoveryComplete entries => some entries
  | _ => none

def CoordinatorEvent.selection : CoordinatorEvent → Option Selection
  | .uiAction selection => some selection
  | _ => none

/-- The selections on their way to the coordinator. -/
def State.pending (state : State) : List Selection :=
  state.actions ++ (state.forwarding.toList ++
    state.events.filterMap CoordinatorEvent.selection)

/-- The selected rows stand for the same entries in a list. -/
def KeepsRows (entries : List BootEntry) (selections : List Selection) : Prop :=
  ∀ selection ∈ selections,
    (menuRows entries)[selection.menuIndex]? = selection.denoted

instance (entries : List BootEntry) (selections : List Selection) :
    Decidable (KeepsRows entries selections) :=
  inferInstanceAs (Decidable (∀ selection ∈ selections, _))

/-- A row is selected only while the coordinator's list has the entry shown
there, and a list the coordinator turns to keeps the selected rows. -/
def KeepsSelected (state : State) : Action → Prop
  | .uiSelect index =>
      (menuRows state.coordinator.bootEntries)[index]? =
        (menuRows state.ui.listed)[index]?
  | .coordinate =>
      ∀ entries ∈ state.events.head?.bind CoordinatorEvent.discovered,
        KeepsRows entries state.pending
  | _ => True

instance (state : State) :
    (action : Action) → Decidable (KeepsSelected state action)
  | .uiSelect _ => inferInstanceAs (Decidable (_ = _))
  | .coordinate =>
      inferInstanceAs (Decidable (∀ entries ∈ Option.bind _ _, _))
  | .scannerUpdate _ => inferInstanceAs (Decidable True)
  | .scannerComplete _ => inferInstanceAs (Decidable True)
  | .fastbootExit _ => inferInstanceAs (Decidable True)
  | .uiApply => inferInstanceAs (Decidable True)
  | .forwardTake => inferInstanceAs (Decidable True)
  | .forwardSend => inferInstanceAs (Decidable True)

/-! ## The invariant -/

/-- What a selection on its way means to the coordinator. -/
structure Faithful (coordinator : Coordinator) (selection : Selection) :
    Prop where
  row : (menuRows coordinator.bootEntries)[selection.menuIndex]? =
    selection.denoted
  shown : selection.denoted ≠ none

structure Inv (state : State) : Prop where
  indices : state.coordinator.bootableEntryIndices =
    (bootMenuEntries state.coordinator.bootEntries).1
  commands : ∀ command ∈ state.commands,
    command.entries = (bootMenuEntries command.listed).2
  rows : state.ui.rows = (bootMenuEntries state.ui.listed).2
  pending : ∀ selection ∈ state.pending,
    Faithful state.coordinator selection

/-- What handling an event does to the coordinator's list. -/
theorem Coordinator.handle_cases (coordinator : Coordinator)
    (event : CoordinatorEvent) :
    (event.discovered = none ∧
      (coordinator.handle event).1.bootEntries = coordinator.bootEntries ∧
      (coordinator.handle event).1.bootableEntryIndices =
        coordinator.bootableEntryIndices ∧
      (coordinator.handle event).2.1 = []) ∨
    ∃ entries, event.discovered = some entries ∧
      (coordinator.handle event).1.bootEntries = entries ∧
      (coordinator.handle event).1.bootableEntryIndices =
        (bootMenuEntries entries).1 ∧
      ∀ command ∈ (coordinator.handle event).2.1,
        command.listed = entries ∧
          command.entries = (bootMenuEntries entries).2 := by
  cases event with
  | uiAction selection =>
      left
      simp only [Coordinator.handle]
      split
      · exact ⟨rfl, rfl, rfl, rfl⟩
      · split <;> exact ⟨rfl, rfl, rfl, rfl⟩
  | fastboot result =>
      left
      cases result with
      | failed => exact ⟨rfl, rfl, rfl, rfl⟩
      | action succeeds => exact ⟨rfl, rfl, rfl, rfl⟩
      | exited =>
          simp only [Coordinator.handle]
          split <;> exact ⟨rfl, rfl, rfl, rfl⟩
  | discoveryUpdate entries =>
      right
      refine ⟨entries, rfl, rfl, rfl, ?_⟩
      intro command member
      simp only [Coordinator.handle, Coordinator.applyBootEntriesUpdate]
        at member
      split at member
      · obtain rfl := List.mem_singleton.mp member
        exact ⟨rfl, rfl⟩
      · simp at member
  | discoveryComplete entries =>
      right
      simp only [Coordinator.handle, Coordinator.applyBootEntriesUpdate]
      refine ⟨entries, rfl, ?_⟩
      split
      all_goals
        refine ⟨rfl, rfl, ?_⟩
        intro command member
        simp only at member
        split at member
        · obtain rfl := List.mem_singleton.mp member
          exact ⟨rfl, rfl⟩
        · simp at member

theorem inv_startState (ui : Bool) : Inv (startState ui) where
  indices := rfl
  commands := by simp [startState]
  rows := rfl
  pending := by simp [startState, State.pending]

/-- A step that leaves the coordinator alone and adds no selection. -/
private theorem Inv.samePending {state next : State} (inv : Inv state)
    (coordinator : next.coordinator = state.coordinator)
    (commands : ∀ command ∈ next.commands, command ∈ state.commands)
    (rows : next.ui.rows = (bootMenuEntries next.ui.listed).2)
    (pending : ∀ selection ∈ next.pending, selection ∈ state.pending) :
    Inv next where
  indices := by rw [coordinator]; exact inv.indices
  commands command member := inv.commands command (commands command member)
  rows := rows
  pending selection member := by
    rw [coordinator]
    exact inv.pending selection (pending selection member)

private theorem Inv.uiSelect {state next : State} {index : Nat}
    (inv : Inv state) (keeps : KeepsSelected state (.uiSelect index))
    (steps : state.step (.uiSelect index) = some next) : Inv next := by
  simp only [State.step, Ui.select, Option.map_eq_some_iff] at steps
  obtain ⟨⟨ui, selection⟩, selects, rfl⟩ := steps
  split at selects
  · rename_i inside
    simp only [Option.some.injEq, Prod.mk.injEq] at selects
    obtain ⟨rfl, rfl⟩ := selects
    have shown : (menuRows state.ui.listed)[index]? ≠ none := by
      have length := congrArg List.length inv.rows
      rw [bootMenuEntries_infos, List.length_map] at length
      simp only [ne_eq, List.getElem?_eq_none_iff, not_le]
      omega
    refine ⟨inv.indices, inv.commands, inv.rows, ?_⟩
    intro selection member
    have known : selection ∈ state.pending ∨
        selection = ⟨index, (menuRows state.ui.listed)[index]?⟩ := by
      simp only [State.pending, List.mem_append, List.mem_singleton]
        at member ⊢
      tauto
    rcases known with before | rfl
    · exact inv.pending selection before
    · exact ⟨keeps, shown⟩
  · simp at selects

private theorem Inv.coordinate {state next : State} (inv : Inv state)
    (keeps : KeepsSelected state .coordinate)
    (steps : state.step .coordinate = some next) : Inv next := by
  simp only [State.step] at steps
  split at steps
  · rename_i event rest _ events
    simp only [Option.some.injEq] at steps
    subst next
    have later : ∀ selection, selection ∈ State.pending { state with
        events := rest } → selection ∈ state.pending := by
      intro selection member
      simp only [State.pending, events, List.mem_append] at member ⊢
      rcases member with first | second | third
      · exact .inl first
      · exact .inr (.inl second)
      · refine .inr (.inr ?_)
        obtain ⟨source, listed, selects⟩ := List.mem_filterMap.mp third
        exact List.mem_filterMap.mpr
          ⟨source, List.mem_cons_of_mem _ listed, selects⟩
    rcases state.coordinator.handle_cases event with
      ⟨_, sameEntries, sameIndices, noCommands⟩ |
      ⟨entries, discovered, newEntries, newIndices, newCommands⟩
    · refine ⟨?_, ?_, inv.rows, ?_⟩
      · simp only [sameEntries, sameIndices]
        exact inv.indices
      · simp only [noCommands, List.append_nil]
        exact inv.commands
      · intro selection member
        obtain ⟨row, shown⟩ := inv.pending selection (later selection member)
        exact ⟨by simp only [sameEntries]; exact row, shown⟩
    · refine ⟨?_, ?_, inv.rows, ?_⟩
      · simp only [newEntries, newIndices]
      · intro command member
        rcases List.mem_append.mp member with before | sent
        · exact inv.commands command before
        · obtain ⟨listed, infos⟩ := newCommands command sent
          rw [listed, infos]
      · intro selection member
        have before := later selection member
        have kept : KeepsRows entries state.pending := by
          apply keeps entries
          simp [events, discovered]
        exact ⟨by simp only [newEntries]; exact kept selection before,
          (inv.pending selection before).shown⟩
  · simp at steps

theorem inv_inductive (ui : Bool) :
    ((bootMenu ui).restrict KeepsSelected).Inductive Inv where
  initially := inv_startState ui
  kept := by
    intro state next action inv restricted
    obtain ⟨keeps, steps⟩ := System.restrict_step_eq_some.mp restricted
    change state.step action = some next at steps
    cases action with
    | scannerUpdate entries =>
        simp only [State.step] at steps
        split at steps
        · obtain rfl := Option.some.inj steps
          exact inv.samePending rfl (fun _ member => member) inv.rows (by
            simp [State.pending, CoordinatorEvent.selection])
        · simp at steps
    | scannerComplete entries =>
        simp only [State.step] at steps
        split at steps
        · obtain rfl := Option.some.inj steps
          exact inv.samePending rfl (fun _ member => member) inv.rows (by
            simp [State.pending, CoordinatorEvent.selection])
        · simp at steps
    | fastbootExit result =>
        simp only [State.step] at steps
        split at steps
        · obtain rfl := Option.some.inj steps
          exact inv.samePending rfl (fun _ member => member) inv.rows (by
            simp [State.pending, CoordinatorEvent.selection])
        · simp at steps
    | uiApply =>
        simp only [State.step] at steps
        split at steps
        · simp at steps
        · rename_i command rest commands
          obtain rfl := Option.some.inj steps
          have shown := inv.commands command (by simp [commands])
          refine inv.samePending rfl ?_ shown (fun _ member => member)
          rw [commands]
          exact fun _ member => List.mem_cons_of_mem _ member
    | uiSelect index => exact inv.uiSelect keeps steps
    | forwardTake =>
        simp only [State.step] at steps
        split at steps
        · rename_i selection rest forwarding actions
          obtain rfl := Option.some.inj steps
          exact inv.samePending rfl (fun _ member => member) inv.rows (by
            simp only [State.pending, forwarding, actions, List.mem_append,
              List.mem_cons, Option.toList_some, Option.toList_none,
              List.not_mem_nil, or_false, false_or]
            tauto)
        · simp at steps
    | forwardSend =>
        simp only [State.step] at steps
        split at steps
        · simp at steps
        · rename_i selection forwarding
          obtain rfl := Option.some.inj steps
          exact inv.samePending rfl (fun _ member => member) inv.rows (by
            simp only [State.pending, forwarding, List.mem_append,
              List.filterMap_append, List.filterMap_cons, List.filterMap_nil,
              CoordinatorEvent.selection, Option.toList_some,
              Option.toList_none, List.not_mem_nil, false_or,
              List.mem_singleton]
            tauto)
    | coordinate => exact inv.coordinate keeps steps

/-- A run whose lists keep the selected rows boots what was selected. -/
theorem bootMenu_bootsSelected {ui : Bool} {state : State}
    (reached : ((bootMenu ui).restrict KeepsSelected).Reachable state) :
    BootsSelected state := by
  intro selection rest waiting events
  have inv := (inv_inductive ui).reachable reached
  obtain ⟨row, shown⟩ := inv.pending selection (by
    simp [State.pending, events, CoordinatorEvent.selection])
  obtain ⟨entry, denoted⟩ := Option.ne_none_iff_exists'.mp shown
  refine ⟨entry, denoted, ?_⟩
  rw [denoted, ← bootMenuEntries_indices, ← inv.indices] at row
  obtain ⟨index, found, listed⟩ := Option.bind_eq_some_iff.mp row
  simp only [Coordinator.handle, found, listed]

/-! ## A run that boots another entry -/

/-- An entry on the EFI system partition. -/
def espEntry : BootEntry where
  id := "esp".toList
  title := none
  version := none
  architecture := none
  source := ⟨some "esp.conf".toList, some "esp.conf".toList⟩
  role := .esp
  disk := "sda".toList
  partition := "1".toList
  preferred := false
  options := []

/-- An entry that sorts before `espEntry` and is found later. -/
def xbootldrEntry : BootEntry where
  id := "xbootldr".toList
  title := none
  version := none
  architecture := none
  source := ⟨some "xboot.conf".toList, some "xboot.conf".toList⟩
  role := .xbootldr
  disk := "sda".toList
  partition := "2".toList
  preferred := false
  options := []

/-- The user selects the only row shown; then the second partition is found,
before the selection arrives. -/
def overtaken : List Action :=
  [.scannerUpdate [espEntry], .coordinate, .uiApply, .uiSelect 0,
    .scannerUpdate [xbootldrEntry, espEntry], .forwardTake, .forwardSend,
    .coordinate]

def overtakenState : State :=
  ((bootMenu true).runFrom (startState true) overtaken).getD (startState true)

theorem overtaken_runs :
    (bootMenu true).runFrom (startState true) overtaken =
      some overtakenState := by
  decide +kernel

/-- The selection boots the entry that has moved into the selected row. -/
theorem bootMenu_bootsOther :
    ¬∀ state, (bootMenu true).Reachable state → BootsSelected state := by
  intro always
  have events : overtakenState.events =
      [.uiAction ⟨0, some espEntry⟩] := by decide +kernel
  have waiting : overtakenState.outcome = .waiting := by decide +kernel
  have boots : (overtakenState.coordinator.handle
      (.uiAction ⟨0, some espEntry⟩)).2.2 = .bootedSelected xbootldrEntry := by
    decide +kernel
  obtain ⟨entry, denoted, booted⟩ := always overtakenState
    ⟨overtaken, overtaken_runs⟩ _ _ waiting events
  obtain rfl := Option.some.inj denoted
  rw [boots] at booted
  have different : xbootldrEntry ≠ espEntry := by decide +kernel
  exact different (Outcome.bootedSelected.inj booted)

/-- The same selection, handled before the second partition is found. -/
def undisturbed : List Action :=
  [.scannerUpdate [espEntry], .coordinate, .uiApply, .uiSelect 0,
    .forwardTake, .forwardSend]

def undisturbedState : State :=
  (((bootMenu true).restrict KeepsSelected).runFrom (startState true)
    undisturbed).getD (startState true)

theorem undisturbed_runs :
    ((bootMenu true).restrict KeepsSelected).runFrom (startState true)
      undisturbed = some undisturbedState := by
  decide +kernel

theorem bootMenu_bootsSelected_undisturbed :
    BootsSelected undisturbedState ∧
      undisturbedState.events = [.uiAction ⟨0, some espEntry⟩] :=
  ⟨bootMenu_bootsSelected ⟨undisturbed, undisturbed_runs⟩, by decide +kernel⟩

end Pocketboot.BootMenu
