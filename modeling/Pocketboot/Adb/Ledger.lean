import Pocketboot.Adb.Lives

/-!
# The ledger of the host

What the host has sent and received, and what the packet loop has taken of it:
the part of the state that only the host and the beginning of a handler change.
-/

namespace Pocketboot.Adb

/-- What the host knows a stream by, and its `OKAY`s that were accepted. -/
structure Account where
  service : AdbService
  localId : UInt32
  remoteId : UInt32
  accepted : Nat
  deriving DecidableEq, Repr

def Stream.account (stream : Stream) : Account where
  service := stream.service
  localId := stream.localId
  remoteId := stream.remoteId
  accepted := stream.accepted

structure Ledger where
  accounts : List Account
  nextLocalId : UInt32
  rx : List Packet
  hostSent : List Packet
  received : Nat
  opens : Nat

theorem map_modify {α β : Type} {view : α → β} {items : List α} {index : Nat}
    {change : α → α} {alter : β → β}
    (alters : ∀ item, items[index]? = some item →
      view (change item) = alter (view item)) :
    (items.modify index change).map view =
      (items.map view).modify index alter := by
  refine List.ext_getElem? fun other => ?_
  rw [List.getElem?_map, List.getElem?_modify, List.getElem?_modify,
    List.getElem?_map]
  cases found : items[other]? with
  | none => rfl
  | some item =>
      by_cases same : index = other
      · subst same
        simpa using alters item found
      · simp [same]

theorem mem_modify {α : Type} {items : List α} {index : Nat} {change : α → α}
    {item : α} (member : item ∈ items.modify index change) :
    item ∈ items ∨ ∃ before, items[index]? = some before ∧
      item = change before := by
  obtain ⟨other, found⟩ := List.mem_iff_getElem?.mp member
  rw [List.getElem?_modify] at found
  obtain ⟨before, known, rfl⟩ := Option.map_eq_some_iff.mp found
  split
  · rename_i same
    subst same
    exact .inr ⟨before, known, rfl⟩
  · exact .inl (List.mem_of_getElem? known)

namespace State

def ledger (state : State) : Ledger where
  accounts := state.streams.map Stream.account
  nextLocalId := state.nextLocalId
  rx := state.rx
  hostSent := state.hostSent
  received := state.received
  opens := state.opens

/-- The ledger stays, and the history only grows. -/
structure Carries (state next : State) : Prop where
  ledger : next.ledger = state.ledger
  history : state.history <+: next.history

namespace Carries

variable {state next last : State}

theorem trans (first : Carries state next) (second : Carries next last) :
    Carries state last where
  ledger := second.ledger.trans first.ledger
  history := first.history.trans second.history

theorem same (ledger : next.ledger = state.ledger)
    (history : next.history = state.history) : Carries state next where
  ledger := ledger
  history := by rw [history]

theorem record (event : Event) : Carries state (state.record event) where
  ledger := rfl
  history := List.prefix_append _ _

theorem reply (event : Event) (result : SendResult) :
    Carries state (state.reply event result) := by
  unfold State.reply
  split
  · exact ⟨rfl, List.prefix_append _ _⟩
  · exact same rfl rfl

theorem send (event : Event) (result : SendResult) :
    Carries state (state.send event result) := by
  unfold State.send
  split
  · exact record event
  · exact same rfl rfl

theorem update (index : Nat) {change : Stream → Stream}
    (keeps : ∀ stream, state.streams[index]? = some stream →
      (change stream).account = stream.account) :
    Carries state (state.update index change) := by
  refine same ?_ rfl
  unfold State.ledger State.update
  rw [@map_modify _ _ Stream.account _ _ _ id keeps, List.modify_id]

/-- A stream changes within a handler. -/
theorem change (index : Nat) (change : Stream → Stream) (loop : Loop)
    (keeps : ∀ stream, (change stream).account = stream.account) :
    Carries state ((state.update index change).goto loop) :=
  (update index fun stream _ => keeps stream).trans (same rfl rfl)

theorem returns (fault : Option Bool) : Carries state (state.returns fault) := by
  unfold State.returns
  split
  · exact same rfl rfl
  · exact same rfl rfl

theorem replyLast (event : Event) (result : SendResult) :
    Carries state (state.replyLast event result) :=
  (reply event result).trans (returns _)

end Carries

theorem account_quiet {stream next : Stream} {maxPayload : UInt32}
    {io : OutputIo} (quiet : stream.Quiet maxPayload io next) :
    next.account = stream.account := by
  cases quiet with
  | finish => rfl
  | takeCredit => rfl
  | read =>
      unfold Stream.read
      split
      · rfl
      · dsimp only
        split <;> rfl
  | closeOutput => rfl
  | receive waits received =>
      unfold Stream.receive at received
      split at received
      · split at received
        · obtain rfl := Option.some.inj received
          rfl
        · simp at received
      · dsimp only at received
        split at received
        · obtain rfl := Option.some.inj received
          rfl
        · split at received <;>
            (obtain rfl := Option.some.inj received; rfl)
  | readFile =>
      unfold Stream.readFile
      split
      · rfl
      · dsimp only
        split
        · rfl
        · split <;> rfl

/-- A step within a handler or of an output thread. -/
theorem carries_of_steps {state next : State} {action : Action}
    (steps : Steps state action next) (noSend : ∀ packet, action ≠ .hostSend packet)
    (noReceive : action ≠ .hostReceive)
    (noHandle : ∀ spawned, action ≠ .handle spawned) : Carries state next := by
  cases steps with
  | hostSend => exact absurd rfl (noSend _)
  | hostReceive => exact absurd rfl noReceive
  | connect => exact absurd rfl (noHandle _)
  | openUndecodable => exact absurd rfl (noHandle _)
  | openRefused => exact absurd rfl (noHandle _)
  | openSpawned => exact absurd rfl (noHandle _)
  | writeRefused => exact absurd rfl (noHandle _)
  | writeSync => exact absurd rfl (noHandle _)
  | writeInput => exact absurd rfl (noHandle _)
  | okay => exact absurd rfl (noHandle _)
  | close => exact absurd rfl (noHandle _)
  | ignored => exact absurd rfl (noHandle _)
  | tooLarge => exact absurd rfl (noHandle _)
  | stillDisconnected => exact .same rfl rfl
  | disconnect => exact .same rfl rfl
  | leave => exact .same rfl rfl
  | @dropped io after loop =>
      cases after with
      | returns fault => exact .returns fault
      | closedByHost index fault => exact (Carries.record _).trans (.returns fault)
      | hello maxPayload => exact .same rfl rfl
      | allow index => exact .same rfl rfl
      | cleared => exact .same rfl rfl
      | stopped => exact .same rfl rfl
  | drop => exact .change _ _ _ fun _ => rfl
  | join => exact .same rfl rfl
  | hello => exact .replyLast _ _
  | acknowledgeOpen => exact (Carries.reply _ _).trans (.same rfl rfl)
  | acknowledgeOpenFails => exact (Carries.reply _ _).trans (.same rfl rfl)
  | @allow io index loop =>
      have allowed : Carries state (state.update index Stream.allowOutput) :=
        .update index fun _ _ => rfl
      exact allowed.trans (.returns none)
  | acknowledgeWrite => exact (Carries.reply _ _).trans (.same rfl rfl)
  | acknowledgeWriteFails => exact (Carries.reply _ _).trans (.returns _)
  | inputSync => exact .change _ _ _ fun _ => rfl
  | input => exact .same rfl rfl
  | inputFails => exact .same rfl rfl
  | queued => exact .returns none
  | queue => exact .change _ _ _ fun _ => rfl
  | acknowledgeInput => exact .replyLast _ _
  | closeSession => exact .change _ _ _ fun _ => rfl
  | sendClose => exact (Carries.reply _ _).trans (.same rfl rfl)
  | refuse => exact .replyLast _ _
  | @quiet index io stream changed found quiet =>
      refine .update index fun stream' found' => ?_
      obtain rfl := Option.some.inj (found.symm.trans found')
      exact account_quiet quiet
  | write =>
      refine (Carries.send _ _).trans (Carries.update _ ?_)
      exact fun _ _ => rfl
  | closeStream =>
      refine (Carries.send _ _).trans (Carries.update _ ?_)
      exact fun _ _ => rfl

end State

/-! ## What a handler takes from the host -/

def Packet.IsOpen (packet : Packet) : Prop := packet.command = aOpen

/-- An `OKAY` of the host for the stream with these ids. -/
def Packet.IsOkayFor (localId remoteId : UInt32) (packet : Packet) : Prop :=
  packet.command = aOkay ∧ packet.arg0 = remoteId ∧ packet.arg1 = localId

instance (packet : Packet) : Decidable packet.IsOpen :=
  inferInstanceAs (Decidable (_ = _))

instance (localId remoteId : UInt32) (packet : Packet) :
    Decidable (packet.IsOkayFor localId remoteId) :=
  inferInstanceAs (Decidable (_ ∧ _))

def Account.accept (account : Account) : Account :=
  { account with accepted := account.accepted + 1 }

inductive Ledger.Takes (ledger : Ledger) : Ledger → Prop
  | packet {packet : Packet} {rest : List Packet}
      (rx : ledger.rx = packet :: rest) : Takes ledger { ledger with rx := rest }
  | opens {packet : Packet} {rest : List Packet}
      (rx : ledger.rx = packet :: rest) (isOpen : packet.IsOpen)
      {nextLocalId : UInt32}
      (allocates : nextLocalId = ledger.nextLocalId ∨
        nextLocalId = State.followingId ledger.nextLocalId) :
      Takes ledger { ledger with
        nextLocalId := nextLocalId
        rx := rest
        opens := ledger.opens + 1 }
  | spawns {packet : Packet} {rest : List Packet}
      (rx : ledger.rx = packet :: rest) (isOpen : packet.IsOpen)
      (service : AdbService) :
      Takes ledger { ledger with
        accounts := ledger.accounts ++
          [⟨service, ledger.nextLocalId, packet.arg0, 0⟩]
        nextLocalId := State.followingId ledger.nextLocalId
        rx := rest
        opens := ledger.opens + 1 }
  | accepts {packet : Packet} {rest : List Packet}
      (rx : ledger.rx = packet :: rest) {index : Nat} {account : Account}
      (found : ledger.accounts[index]? = some account)
      (isOkay : packet.IsOkayFor account.localId account.remoteId) :
      Takes ledger { ledger with
        accounts := ledger.accounts.modify index Account.accept
        rx := rest }

namespace State

theorem acknowledges_eq_some {state : State} {packet : Packet} {index : Nat}
    (accepts : state.acknowledges packet = some index) :
    ∃ stream, state.streams[index]? = some stream ∧
      stream.localId = packet.arg1 ∧ stream.remoteId = packet.arg0 := by
  obtain ⟨named, remote⟩ := Option.filter_eq_some_iff.mp accepts
  have isLocal := List.find?_some named
  cases found : state.streams[index]? with
  | none => simp [found] at remote
  | some stream =>
      simp only [found, Option.any_some, decide_eq_true_eq] at remote isLocal
      exact ⟨stream, rfl, isLocal, remote⟩

/-- A handler begins: what it takes from the host, and the wire as it was. -/
theorem takes_of_handle {state next : State} {spawned : Bool}
    (steps : Steps state (.handle spawned) next) :
    state.ledger.Takes next.ledger ∧ next.history = state.history := by
  cases steps with
  | connect reads => exact ⟨.packet reads.rx, rfl⟩
  | openUndecodable reads command =>
      exact ⟨.opens reads.rx command (.inl rfl), rfl⟩
  | openRefused reads command named allocates =>
      rcases allocates with rfl | rfl
      · exact ⟨.opens reads.rx command (.inl rfl), rfl⟩
      · exact ⟨.opens reads.rx command (.inr rfl), rfl⟩
  | @openSpawned packet rest spawned reads command name named service =>
      refine ⟨?_, rfl⟩
      have spawns : state.ledger.Takes _ := .spawns reads.rx command service
      have accounts : (((state.begin packet rest).countOpen.allocate.spawn
          (.spawn state.nextLocalId packet.arg0 service)).ledger.accounts) =
          state.ledger.accounts ++
            [⟨service, state.nextLocalId, packet.arg0, 0⟩] := by
        simp [ledger, spawn, Stream.account, Stream.spawn]
        rfl
      rw [show state.ledger.nextLocalId = state.nextLocalId from rfl,
        ← accounts] at spawns
      exact spawns
  | writeRefused reads => exact ⟨.packet reads.rx, rfl⟩
  | writeSync reads => exact ⟨.packet reads.rx, rfl⟩
  | writeInput reads => exact ⟨.packet reads.rx, rfl⟩
  | @okay packet rest spawned reads command index accepts =>
      refine ⟨?_, rfl⟩
      obtain ⟨stream, found, isLocal, isRemote⟩ := acknowledges_eq_some accepts
      have known : state.ledger.accounts[index]? = some stream.account := by
        simp [ledger, found]
      have accepted := Ledger.Takes.accepts reads.rx known
        ⟨command, isRemote.symm, isLocal.symm⟩
      have accounts : ((((state.begin packet rest).update index
          Stream.acknowledgeOutput).returns none).ledger.accounts) =
          state.ledger.accounts.modify index Account.accept :=
        map_modify fun _ _ => rfl
      rw [← accounts] at accepted
      exact accepted
  | close reads => exact ⟨.packet reads.rx, rfl⟩
  | ignored reads => exact ⟨.packet reads.rx, rfl⟩
  | tooLarge reads => exact ⟨.packet reads.rx, rfl⟩

end State

end Pocketboot.Adb
