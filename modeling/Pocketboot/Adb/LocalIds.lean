import Pocketboot.Adb.Ledger
import Pocketboot.Transition.Recorder

/-!
# Local ids

The packet loop gives local ids from a counter that skips zero and starts over
after `2^32 - 1` of them, and does not look at the session table.
-/

namespace Pocketboot.Adb

open Transition

/-! ## The counter -/

/-- How many ids there are. -/
def idCount : Nat := 2 ^ 32 - 1

/-- The id that is allocated after `count` others. -/
def localIdAt (count : Nat) : UInt32 := .ofNat (count % idCount + 1)

theorem toNat_localIdAt (count : Nat) :
    (localIdAt count).toNat = count % idCount + 1 := by
  have := Nat.mod_lt count (show 0 < idCount by decide)
  rw [localIdAt, UInt32.toNat_ofNat']
  refine Nat.mod_eq_of_lt ?_
  rw [idCount] at this ⊢
  omega

theorem localIdAt_ne_zero (count : Nat) : localIdAt count ≠ 0 := by
  intro zero
  have := toNat_localIdAt count
  rw [zero] at this
  simp at this

theorem localIdAt_eq_iff {first second : Nat} (before : first ≤ second) :
    localIdAt first = localIdAt second ↔ (second - first) % idCount = 0 := by
  rw [← UInt32.toNat_inj, toNat_localIdAt, toNat_localIdAt, idCount]
  omega

theorem followingId_localIdAt (count : Nat) :
    State.followingId (localIdAt count) = localIdAt (count + 1) := by
  have bound := Nat.mod_lt count (show 0 < idCount by decide)
  have value := toNat_localIdAt count
  have sum : (localIdAt count + 1).toNat =
      (count % idCount + 2) % 2 ^ 32 := by
    rw [UInt32.toNat_add, value]
    rfl
  rw [← UInt32.toNat_inj, toNat_localIdAt]
  change (if localIdAt count + 1 ≤ 1 then (1 : UInt32)
    else localIdAt count + 1).toNat = _
  rw [idCount] at bound sum ⊢
  split
  · rename_i small
    have := UInt32.le_iff_toNat_le.mp small
    rw [sum] at this
    simp only [UInt32.reduceToNat] at this ⊢
    omega
  · rename_i large
    have : ¬(localIdAt count + 1).toNat ≤ (1 : UInt32).toNat :=
      fun small => large (UInt32.le_iff_toNat_le.mpr small)
    rw [sum] at this ⊢
    simp only [UInt32.reduceToNat] at this
    omega

/-! ## The steps that give an id -/

/-- The service that the packet opens. -/
def Packet.opens (packet : Packet) : Option AdbService :=
  if packet.command = aOpen then
    (Run.toOption (serviceName packet.payload)).bind adbService
  else none

namespace State

/-- The step handles an `OPEN` that is given an id. -/
def allocates (state : State) : Action → Bool
  | .handle _ =>
      decide (state.loop = .idle) && state.rx.head?.any fun packet =>
        decide (packet.payload.length ≤ state.maxPayload.toNat) &&
          packet.opens.isSome
  | _ => false

/-- The id goes to a new stream. -/
def opensStream (state : State) : Action → Bool
  | .handle spawned => spawned && state.allocates (.handle spawned)
  | _ => false

def localIds (state : State) : List UInt32 := state.streams.map Stream.localId

end State

/-- How many ids have been allocated, and for each stream how many before its
own. -/
structure Allocations where
  count : Nat
  earlier : List Nat

def Allocations.start : Allocations := ⟨0, []⟩

def Allocations.next (state : State) (action : Action)
    (allocations : Allocations) : Allocations where
  count := allocations.count + if state.allocates action then 1 else 0
  earlier := allocations.earlier ++
    if state.opensStream action then [allocations.count] else []

/-- The server with a record of the ids it has allocated. -/
def allocatingServer : System (State × Allocations) Action :=
  server.recorded .start Allocations.next

/-! ## What a step does to the ids -/

namespace State

structure Allots (state next : State) (action : Action) : Prop where
  counter : next.nextLocalId = if state.allocates action then
    followingId state.nextLocalId else state.nextLocalId
  ids : next.localIds = state.localIds ++
    if state.opensStream action then [state.nextLocalId] else []

theorem localIds_eq (state : State) :
    state.localIds = state.ledger.accounts.map Account.localId := by
  simp [localIds, ledger, Stream.account]

theorem Allots.of_ledger {state next : State} {action : Action}
    (accounts : next.ledger.accounts.map Account.localId =
      state.ledger.accounts.map Account.localId)
    (nextLocalId : next.ledger.nextLocalId = state.ledger.nextLocalId)
    (none : state.allocates action = false) : Allots state next action where
  counter := by
    rw [none]
    exact nextLocalId
  ids := by
    have opens : state.opensStream action = false := by
      cases action with
      | handle spawned =>
          rw [opensStream, none, Bool.and_false]
      | hostSend => rfl
      | hostReceive => rfl
      | readFails => rfl
      | leave => rfl
      | loop => rfl
      | output => rfl
    rw [localIds_eq, localIds_eq, opens, accounts]
    simp

theorem allots_of_open {state : State} {packet : Packet} {rest : List Packet}
    {spawned : Bool} (reads : state.Reads packet rest)
    (fits : packet.payload.length ≤ state.maxPayload.toNat)
    (command : packet.command = aOpen) :
    Allots state ((state.begin packet rest).handleOpen packet spawned)
      (.handle spawned) := by
  have allocates : state.allocates (.handle spawned) =
      ((Run.toOption (serviceName packet.payload)).bind adbService).isSome := by
    simp [State.allocates, reads.idle, reads.rx, fits, Packet.opens, command]
  unfold handleOpen
  cases name : serviceName packet.payload with
  | error error =>
      refine .of_ledger ?_ ?_ (by rw [allocates, name]; rfl)
      · simp [ledger, returns, goto, finishHandler, begin, countOpen]
      · simp [ledger, returns, goto, finishHandler, begin, countOpen]
  | ok name' =>
      rw [name] at allocates
      cases service : adbService name' with
      | none =>
          simp only [service]
          refine .of_ledger rfl rfl ?_
          simp [allocates, Run.toOption, service]
      | some service' =>
          have allocates : state.allocates (.handle spawned) = true := by
            simp [allocates, Run.toOption, service]
          simp only [service]
          cases spawned with
          | true =>
              refine ⟨?_, ?_⟩
              · rw [allocates]
                rfl
              · rw [opensStream, allocates]
                simp only [localIds, if_true, spawn, List.map_append]
                rfl
          | false =>
              refine ⟨?_, ?_⟩
              · rw [allocates]
                rfl
              · simp only [opensStream, Bool.false_and, Bool.false_eq_true,
                  if_false, List.append_nil]
                rfl

/-- Only an `OPEN` takes an id. -/
theorem allots_of_other {state next : State} {packet : Packet}
    {rest : List Packet} {spawned : Bool} (reads : state.Reads packet rest)
    (command : packet.command ≠ aOpen)
    (steps : Steps state (.handle spawned) next) :
    Allots state next (.handle spawned) := by
  have none : state.allocates (.handle spawned) = false := by
    simp [allocates, reads.idle, reads.rx, Packet.opens, command]
  have read : state.ledger.rx = packet :: rest := reads.rx
  have notOpen : ∀ {packet' : Packet} {rest' : List Packet},
      state.ledger.rx = packet' :: rest' → ¬packet'.IsOpen := by
    intro packet' rest' rx isOpen
    rw [read] at rx
    obtain ⟨rfl, rfl⟩ := List.cons.inj rx
    exact command isOpen
  have takes := (takes_of_handle steps).1
  generalize ledger : next.ledger = after at takes
  cases takes with
  | packet => exact .of_ledger (by rw [ledger]) (by rw [ledger]) none
  | opens rx isOpen => exact absurd isOpen (notOpen rx)
  | spawns rx isOpen => exact absurd isOpen (notOpen rx)
  | @accepts packet' rest' rx index account found isOkay =>
      refine .of_ledger ?_ (by rw [ledger]) none
      rw [ledger, @map_modify _ _ Account.localId _ _ Account.accept id
        fun _ _ => rfl, List.modify_id]

theorem allots_of_handle {state next : State} {spawned : Bool}
    (steps : state.step (.handle spawned) = some next) :
    Allots state next (.handle spawned) := by
  have known := steps_of_handle steps
  simp only [step] at steps
  split at steps
  · rename_i packet rest idle rx
    have reads : state.Reads packet rest := ⟨idle, rx⟩
    split at steps
    · rename_i large
      obtain rfl := Option.some.inj steps
      refine .of_ledger rfl rfl ?_
      simp [allocates, idle, rx, large]
    · rename_i fits
      obtain rfl := Option.some.inj steps
      by_cases command : packet.command = aOpen
      · have handles : (state.begin packet rest).handlePacket packet spawned =
            (state.begin packet rest).handleOpen packet spawned := by
          rw [handlePacket, if_neg (by rw [command]; decide), if_pos command]
        rw [handles]
        exact allots_of_open reads (Nat.le_of_not_lt fits) command
      · exact allots_of_other reads command known
  · simp at steps

theorem allots_of_step {state next : State} {action : Action}
    (steps : state.step action = some next) : Allots state next action := by
  have carries : Carries state next → state.allocates action = false →
      Allots state next action := fun carries none =>
    .of_ledger (by rw [carries.ledger]) (by rw [carries.ledger]) none
  cases action with
  | hostSend packet =>
      obtain rfl := Option.some.inj steps
      exact .of_ledger rfl rfl rfl
  | hostReceive =>
      simp only [step] at steps
      split at steps
      · obtain rfl := Option.some.inj steps
        exact .of_ledger rfl rfl rfl
      · simp at steps
  | handle spawned => exact allots_of_handle steps
  | readFails =>
      exact carries (carries_of_steps (steps_of_step steps) (by simp) (by simp)
        (by simp)) rfl
  | leave =>
      exact carries (carries_of_steps (steps_of_step steps) (by simp) (by simp)
        (by simp)) rfl
  | loop io =>
      exact carries (carries_of_steps (steps_of_step steps) (by simp) (by simp)
        (by simp)) rfl
  | output index io =>
      exact carries (carries_of_steps (steps_of_step steps) (by simp) (by simp)
        (by simp)) rfl

/-! ## What a step does to the session table -/

end State

/-- The stream whose session is about to enter the table. -/
def Loop.entering : Loop → List Nat
  | .acknowledgeOpen index => [index]
  | _ => []

namespace State

/-- The streams that hold an id: those in the table, and the one that is about
to enter it. -/
def holders (state : State) : List Nat := state.sessions ++ state.loop.entering

/-- A step adds no holder but a stream that it opens. -/
inductive Holds (state next : State) (action : Action) : Prop
  | fewer (none : state.opensStream action = false)
      (fewer : next.holders.Subperm state.holders)
  | opens (opens : state.opensStream action = true)
      (idle : state.loop = .idle)
      (holders : next.holders = state.sessions ++ [state.streams.length])

theorem subperm_of_sublist {state next : State}
    (sessions : next.sessions.Sublist state.sessions)
    (entering : next.loop.entering = []) :
    next.holders.Subperm state.holders := by
  rw [holders, entering, List.append_nil]
  exact (sessions.trans (List.sublist_append_left _ _)).subperm

theorem subperm_same {state next : State}
    (sessions : next.sessions = state.sessions)
    (loop : next.loop = state.loop) :
    next.holders.Subperm state.holders := by
  rw [holders, holders, sessions, loop]

theorem returns_leaves (state : State) (fault : Option Bool) :
    (state.returns fault).sessions.Sublist state.sessions ∧
      (state.returns fault).loop.entering = [] := by
  unfold returns
  split
  · exact ⟨List.nil_sublist _, rfl⟩
  · exact ⟨List.Sublist.refl _, rfl⟩

theorem subperm_returns {state next : State} {fault : Option Bool}
    (sessions : next.sessions = state.sessions) :
    (next.returns fault).holders.Subperm state.holders := by
  have leaves := returns_leaves next fault
  rw [sessions] at leaves
  exact subperm_of_sublist leaves.1 leaves.2

theorem subperm_proceed (state : State) (after : After) :
    (state.proceed after).holders.Subperm state.holders := by
  cases after with
  | returns fault => exact subperm_returns rfl
  | closedByHost index fault => exact subperm_returns rfl
  | hello maxPayload => exact subperm_of_sublist (.refl _) rfl
  | allow index => exact subperm_of_sublist (.refl _) rfl
  | cleared => exact subperm_of_sublist (.refl _) rfl
  | stopped => exact subperm_of_sublist (.refl _) rfl

theorem holds_of_handle {state next : State} {spawned : Bool}
    (steps : Steps state (.handle spawned) next)
    (allots : Allots state next (.handle spawned)) :
    Holds state next (.handle spawned) := by
  have lengths := congrArg List.length allots.ids
  simp only [localIds, List.length_append, List.length_map] at lengths
  have stays : next.streams.length = state.streams.length →
      state.opensStream (.handle spawned) = false := by
    intro same
    refine Bool.eq_false_iff.mpr fun opens => ?_
    rw [same, opens] at lengths
    simp at lengths
  cases steps with
  | connect =>
      exact .fewer (stays rfl) (subperm_of_sublist (List.nil_sublist _) rfl)
  | openUndecodable => exact .fewer (stays rfl) (subperm_returns rfl)
  | openRefused reads command named allocates =>
      rcases allocates with rfl | rfl
      · exact .fewer (stays rfl) (subperm_of_sublist (.refl _) rfl)
      · exact .fewer (stays rfl) (subperm_of_sublist (.refl _) rfl)
  | openSpawned reads =>
      refine .opens ?_ reads.idle rfl
      refine Bool.eq_true_of_not_eq_false fun none => ?_
      rw [none] at lengths
      simp [spawn, allocate, countOpen, begin] at lengths
  | writeRefused => exact .fewer (stays rfl) (subperm_of_sublist (.refl _) rfl)
  | writeSync => exact .fewer (stays rfl) (subperm_of_sublist (.refl _) rfl)
  | writeInput => exact .fewer (stays rfl) (subperm_of_sublist (.refl _) rfl)
  | okay =>
      refine .fewer (stays ?_) (subperm_returns rfl)
      exact List.length_modify _ _ _
  | close =>
      refine .fewer (stays rfl) (subperm_of_sublist ?_ rfl)
      exact List.filter_sublist
  | ignored => exact .fewer (stays rfl) (subperm_returns rfl)
  | tooLarge =>
      exact .fewer (stays rfl) (subperm_of_sublist (List.nil_sublist _) rfl)

theorem subperm_replyLast (state : State) (event : Event)
    (result : SendResult) :
    (state.replyLast event result).holders.Subperm state.holders :=
  subperm_returns (reply_sessions _ _ _)

/-- The session that enters the table was about to. -/
theorem subperm_insertSession {state next : State} {index : Nat}
    (loop : state.loop = .acknowledgeOpen index)
    (sessions : next.sessions = state.sessions) :
    (next.insertSession index).holders.Subperm state.holders := by
  have after : (next.insertSession index).holders =
      (next.insertSession index).sessions := List.append_nil _
  rw [after, holders, loop, Loop.entering]
  refine List.Subperm.trans ?_ (List.perm_append_singleton _ _).symm.subperm
  rw [← sessions]
  exact (List.filter_sublist.cons_cons index).subperm

theorem subperm_of_loop {state next : State} {io : LoopIo}
    (steps : Steps state (.loop io) next) :
    next.holders.Subperm state.holders := by
  cases steps with
  | dropped => exact subperm_proceed _ _
  | drop => exact subperm_of_sublist (.refl _) rfl
  | join => exact subperm_of_sublist (.refl _) rfl
  | hello => exact subperm_replyLast _ _ _
  | acknowledgeOpen loop =>
      exact subperm_insertSession loop (reply_sessions _ _ _)
  | acknowledgeOpenFails =>
      refine subperm_of_sublist ?_ rfl
      rw [goto, reply_sessions]
  | allow => exact subperm_returns rfl
  | acknowledgeWrite =>
      refine subperm_of_sublist ?_ rfl
      rw [goto, reply_sessions]
  | acknowledgeWriteFails => exact subperm_returns (reply_sessions _ _ _)
  | inputSync => exact subperm_of_sublist (.refl _) rfl
  | input => exact subperm_of_sublist (.refl _) rfl
  | inputFails => exact subperm_of_sublist List.filter_sublist rfl
  | queued => exact subperm_returns rfl
  | queue => exact subperm_of_sublist (.refl _) rfl
  | acknowledgeInput => exact subperm_replyLast _ _ _
  | closeSession =>
      refine subperm_of_sublist (.refl _) ?_
      rw [goto]
      split <;> rfl
  | sendClose =>
      refine subperm_of_sublist ?_ rfl
      rw [goto, reply_sessions]
  | refuse => exact subperm_replyLast _ _ _

theorem subperm_of_output {state next : State} {index : Nat} {io : OutputIo}
    (steps : Steps state (.output index io) next) :
    next.holders.Subperm state.holders := by
  cases steps with
  | quiet => exact subperm_same rfl rfl
  | write =>
      exact subperm_same (send_sessions _ _ _) (send_loop _ _ _)
  | closeStream =>
      exact subperm_same (send_sessions _ _ _) (send_loop _ _ _)

theorem holds_of_step {state next : State} {action : Action}
    (steps : state.step action = some next) : Holds state next action := by
  have known := steps_of_step steps
  cases action with
  | hostSend packet =>
      cases known
      exact .fewer rfl (subperm_same rfl rfl)
  | hostReceive =>
      cases known
      exact .fewer rfl (subperm_same rfl rfl)
  | handle spawned => exact holds_of_handle known (allots_of_step steps)
  | readFails =>
      refine .fewer rfl ?_
      cases known with
      | stillDisconnected => exact .refl _
      | disconnect => exact subperm_of_sublist (List.nil_sublist _) rfl
  | leave =>
      refine .fewer rfl ?_
      cases known
      exact subperm_of_sublist (List.nil_sublist _) rfl
  | loop io => exact .fewer rfl (subperm_of_loop known)
  | output index io => exact .fewer rfl (subperm_of_output known)

theorem localIds_getElem? (state : State) (index : Nat) :
    state.localIds[index]? = state.streams[index]?.map Stream.localId := by
  rw [localIds, List.getElem?_map]

theorem Allots.kept {state next : State} {action : Action}
    (allots : Allots state next action) {index : Nat}
    (old : index < state.streams.length) :
    next.localIds[index]? = state.localIds[index]? := by
  rw [allots.ids]
  exact List.getElem?_append_left (by simpa [localIds] using old)

/-- The id behind those of the old streams. -/
theorem Allots.last {state next : State} {action : Action}
    (allots : Allots state next action) :
    next.localIds[state.streams.length]? =
      if state.opensStream action then some state.nextLocalId else none := by
  have length : state.localIds.length = state.streams.length := by
    simp [localIds]
  rw [allots.ids, List.getElem?_append_right (by omega), length, Nat.sub_self]
  split <;> rfl

end State

/-- Nothing leaves the table when its ids are not that of the session that
enters. -/
theorem State.insertSession_sessions {state : State} {index : Nat}
    (inBounds : index < state.streams.length)
    (apart : ∀ other ∈ state.sessions,
      state.localIds[other]? ≠ state.localIds[index]?) :
    (state.insertSession index).sessions = index :: state.sessions := by
  have found := List.getElem?_eq_getElem inBounds
  have none : state.sessions.filter (fun other =>
      state.streams[other]?.any fun stream =>
        stream.localId = (state.streams[index]?.map Stream.localId).getD 0) =
      [] := by
    refine List.filter_eq_nil_iff.mpr fun other member same => ?_
    refine apart other member ?_
    rw [localIds_getElem?, localIds_getElem?, found]
    rw [found] at same
    cases found' : state.streams[other]? with
    | none => simp [found'] at same
    | some live =>
        simp only [found', Option.any_some, decide_eq_true_eq] at same
        rw [Option.map_some, same]
        rfl
  simp only [insertSession]
  rw [none]
  simp

/-- While a session is about to enter the table, none leaves it. -/
theorem State.sessions_subset {state next : State} {action : Action}
    {index : Nat} (loop : state.loop = .acknowledgeOpen index)
    (inBounds : index < state.streams.length)
    (apart : ∀ other ∈ state.sessions,
      state.localIds[other]? ≠ state.localIds[index]?)
    (steps : state.step action = some next) :
    state.sessions ⊆ next.sessions := by
  cases action with
  | hostSend packet =>
      obtain rfl := Option.some.inj steps
      exact List.Subset.refl _
  | hostReceive =>
      simp only [step] at steps
      split at steps
      · obtain rfl := Option.some.inj steps
        exact List.Subset.refl _
      · simp at steps
  | handle spawned => simp [step, loop] at steps
  | readFails => simp [step, loop] at steps
  | leave => simp [step, loop] at steps
  | loop io =>
      simp only [step, stepLoop, loop] at steps
      cases fault : io.send.fault with
      | none =>
          rw [fault] at steps
          obtain rfl := Option.some.inj steps
          rw [insertSession_sessions]
          · simp
          · simpa using inBounds
          · simpa [localIds] using apart
      | some fault =>
          rw [fault] at steps
          obtain rfl := Option.some.inj steps
          simp [goto]
  | output other io =>
      have known := steps_of_step steps
      cases known with
      | quiet => exact List.Subset.refl _
      | write =>
          rw [sendWrite, update, send_sessions]
          exact List.Subset.refl _
      | closeStream =>
          rw [update, send_sessions]
          exact List.Subset.refl _

end Pocketboot.Adb
