import Pocketboot.BootMenu.Entries
import Pocketboot.Transition.System

/-!
# The boot coordinator and its channels

The scanner, the UI thread, the forwarder of its actions and the coordinator
run concurrently and exchange messages over queues.  Messages and the UI carry
the discovery list behind them as a ghost field that no step of the code
reads.
-/

namespace Pocketboot.BootMenu

open Transition

/-- `Command::SetBootEntries`, with the list its rows were made from. -/
structure Command where
  listed : List BootEntry
  entries : List BootMenuEntryInfo
  scanComplete : Bool
  deriving DecidableEq, Repr

/-- `Action::BootEntry`, with the entry the selected row stood for. -/
structure Selection where
  menuIndex : Nat
  denoted : Option BootEntry
  deriving DecidableEq, Repr

/-- How the fastboot thread ended. -/
inductive FastbootResult where
  | failed
  | action (succeeds : Bool)
  | exited
  deriving DecidableEq, Repr

inductive CoordinatorEvent where
  | uiAction (selection : Selection)
  | fastboot (result : FastbootResult)
  | discoveryUpdate (entries : List BootEntry)
  | discoveryComplete (entries : List BootEntry)
  deriving DecidableEq, Repr

/-- The variables of `run_boot_coordinator`. -/
structure Coordinator where
  ui : Bool
  bootEntries : List BootEntry
  bootableEntryIndices : List Nat
  discoveryComplete : Bool
  fastbootRequestedDefault : Bool
  deriving DecidableEq, Repr

/-- Whether the coordinator still waits for events, and what it did last. -/
inductive Outcome where
  | waiting
  | bootedSelected (entry : BootEntry)
  | bootedDefault (entry : Option BootEntry)
  | returned
  | panicked
  deriving DecidableEq, Repr

namespace Coordinator

def applyBootEntriesUpdate (coordinator : Coordinator)
    (entries : List BootEntry) (scanComplete : Bool) :
    Coordinator × List Command :=
  let (indices, menuEntries) := bootMenuEntries entries
  ({ coordinator with
      bootEntries := entries
      bootableEntryIndices := indices },
    if coordinator.ui then [⟨entries, menuEntries, scanComplete⟩] else [])

/-- The entry `boot_default_entry` boots. -/
def defaultEntry (coordinator : Coordinator) : Option BootEntry :=
  coordinator.bootEntries.find? BootEntry.isDirectlyBootable

/-- The body of the coordinator's loop: its variables after the event, the
commands sent to the UI, and the outcome. -/
def handle (coordinator : Coordinator) :
    CoordinatorEvent → Coordinator × List Command × Outcome
  | .uiAction selection =>
      match coordinator.bootableEntryIndices[selection.menuIndex]? with
      | none => (coordinator, [], .waiting)
      | some entryIndex =>
          match coordinator.bootEntries[entryIndex]? with
          | none => (coordinator, [], .panicked)
          | some entry => (coordinator, [], .bootedSelected entry)
  | .fastboot result =>
      match result with
      | .failed => (coordinator, [], .returned)
      | .action _ => (coordinator, [], .returned)
      | .exited =>
          if coordinator.discoveryComplete then
            (coordinator, [], .bootedDefault coordinator.defaultEntry)
          else
            ({ coordinator with fastbootRequestedDefault := true }, [],
              .waiting)
  | .discoveryUpdate entries =>
      let (next, commands) := coordinator.applyBootEntriesUpdate entries false
      (next, commands, .waiting)
  | .discoveryComplete entries =>
      let (next, commands) :=
        { coordinator with discoveryComplete := true }.applyBootEntriesUpdate
          entries true
      if coordinator.fastbootRequestedDefault then
        (next, commands, .bootedDefault next.defaultEntry)
      else (next, commands, .waiting)

end Coordinator

/-- The menu the UI thread shows. -/
structure Ui where
  listed : List BootEntry
  rows : List BootMenuEntryInfo
  scanComplete : Bool
  bootingIndex : Option Nat
  deriving DecidableEq, Repr

namespace Ui

def applyBootEntries (command : Command) : Ui where
  listed := command.listed
  rows := command.entries
  scanComplete := command.scanComplete
  bootingIndex := none

/-- A row can be selected when it is there and no other one is booting. -/
def select (ui : Ui) (index : Nat) : Option (Ui × Selection) :=
  if ui.bootingIndex = none ∧ index < ui.rows.length then
    some ({ ui with bootingIndex := some index },
      ⟨index, (menuRows ui.listed)[index]?⟩)
  else none

end Ui

structure State where
  scanning : Bool
  fastbootRunning : Bool
  events : List CoordinatorEvent
  commands : List Command
  actions : List Selection
  /-- The action the forwarder has taken and not yet sent. -/
  forwarding : Option Selection
  ui : Ui
  coordinator : Coordinator
  outcome : Outcome
  deriving DecidableEq, Repr

/-- Before the first event. -/
def startState (ui : Bool) : State where
  scanning := true
  fastbootRunning := true
  events := []
  commands := []
  actions := []
  forwarding := none
  ui := ⟨[], [], false, none⟩
  coordinator := ⟨ui, [], [], false, false⟩
  outcome := .waiting

inductive Action where
  | scannerUpdate (entries : List BootEntry)
  | scannerComplete (entries : List BootEntry)
  | fastbootExit (result : FastbootResult)
  | uiApply
  | uiSelect (index : Nat)
  | forwardTake
  | forwardSend
  | coordinate
  deriving DecidableEq, Repr

namespace State

def step (state : State) : Action → Option State
  | .scannerUpdate entries =>
      if state.scanning then
        some { state with
          events := state.events ++ [.discoveryUpdate entries] }
      else none
  | .scannerComplete entries =>
      if state.scanning then
        some { state with
          scanning := false
          events := state.events ++ [.discoveryComplete entries] }
      else none
  | .fastbootExit result =>
      if state.fastbootRunning then
        some { state with
          fastbootRunning := false
          events := state.events ++ [.fastboot result] }
      else none
  | .uiApply =>
      match state.commands with
      | [] => none
      | command :: rest =>
          some { state with ui := .applyBootEntries command, commands := rest }
  | .uiSelect index =>
      (state.ui.select index).map fun (ui, selection) =>
        { state with ui, actions := state.actions ++ [selection] }
  | .forwardTake =>
      match state.forwarding, state.actions with
      | none, selection :: rest =>
          some { state with forwarding := some selection, actions := rest }
      | _, _ => none
  | .forwardSend =>
      match state.forwarding with
      | none => none
      | some selection =>
          some { state with
            forwarding := none
            events := state.events ++ [.uiAction selection] }
  | .coordinate =>
      match state.outcome, state.events with
      | .waiting, event :: rest =>
          let (coordinator, commands, outcome) :=
            state.coordinator.handle event
          some { state with
            coordinator, outcome
            events := rest
            commands := state.commands ++ commands }
      | _, _ => none

end State

/-- The running program; `ui` says whether the UI thread was spawned. -/
def bootMenu (ui : Bool) : System State Action where
  initial := startState ui
  step := State.step

/-- The next event is a selection only if handling it boots the entry that the
selected row stood for. -/
def BootsSelected (state : State) : Prop :=
  ∀ selection rest, state.outcome = .waiting →
    state.events = .uiAction selection :: rest →
    ∃ entry, selection.denoted = some entry ∧
      (state.coordinator.handle (.uiAction selection)).2.2 =
        .bootedSelected entry

end Pocketboot.BootMenu
