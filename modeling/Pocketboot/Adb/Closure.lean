import Pocketboot.Adb.FlowControl

/-!
# The closing of a stream

After the `CLSE` of a stream, or the handling of the host's, no `OKAY` and no
`WRTE` with its ids is sent, unless its thread holds a credit when the packet
loop closes it, or has ended when the packet loop acknowledges a `WRTE`.
-/

namespace Pocketboot.Adb

open Transition

/-! ## The claim -/

def Packet.IsOfOpen (localId remoteId : UInt32) (packet : Packet) : Prop :=
  (packet.command = aOkay ∨ packet.command = aWrte) ∧
    packet.arg0 = localId ∧ packet.arg1 = remoteId

/-- The stream is closed from here on. -/
def Event.IsFinalOf (index : Nat) (event : Event) : Prop :=
  event = .closed index ∨ event = .closedByHost index

/-- The event is an `OKAY` or a `WRTE` with these ids on the wire. -/
def State.SendsOpen (state : State) (localId remoteId : UInt32)
    (event : Event) : Prop :=
  ∃ packet ∈ state.packetOf event, packet.IsOfOpen localId remoteId

/-- No `OKAY` and no `WRTE` with the ids of a stream follows its closing. -/
def ClosureFinal (state : State) : Prop :=
  ∀ (index : Nat) (stream : Stream), state.streams[index]? = some stream →
    Stops (Event.IsFinalOf index)
      (state.SendsOpen stream.localId stream.remoteId) state.history

/-! ## A late `WRTE` -/

/-- The thread takes its credit, the host closes the stream, the packet loop
replies, and then the thread sends what it has read. -/
def lateWriteRun : List Action :=
  [.hostSend shellPacket, .handle true, .loop idleLoop, .loop idleLoop,
    .loop idleLoop, .output 0 idleOutput, .hostSend ⟨aClse, 7, 1, []⟩,
    .handle true, .loop idleLoop, .loop idleLoop, .output 0 idleOutput,
    .output 0 idleOutput]

theorem server_writesAfterClose :
    ¬∀ state, server.Reachable state → ClosureFinal state := by
  intro final
  have seen : (server.runFrom startState lateWriteRun).map (fun state =>
      (state.streams[0]?.map fun stream => (stream.localId, stream.remoteId),
        state.history)) =
      some (some (1, 7),
        [.opened 0, .closed 0, .wrote 0 [104, 105, 10]]) := by
    decide +kernel
  obtain ⟨state, runs, view⟩ := Option.map_eq_some_iff.mp seen
  obtain ⟨ids, history⟩ := Prod.mk.inj view
  obtain ⟨stream, found, same⟩ := Option.map_eq_some_iff.mp ids
  obtain ⟨isLocal, isRemote⟩ := Prod.mk.inj same
  have stops := final state ⟨lateWriteRun, runs⟩ 0 stream found
  rw [history] at stops
  have last := (List.pairwise_cons.mp stops.of_cons).1
    (.wrote 0 [104, 105, 10]) (by simp) (.inl rfl)
  refine last ⟨⟨aWrte, stream.localId, stream.remoteId, [104, 105, 10]⟩, ?_,
    .inr rfl, rfl, rfl⟩
  simp [State.packetOf, found]

/-! ## Runs without a late packet -/

def Loop.closing : Loop → Option Nat
  | .close index _ => some index
  | _ => none

def Loop.acknowledging : Loop → Option Nat
  | .acknowledgeInput index => some index
  | _ => none

/-- The packet loop closes a stream only while its thread holds no credit, and
acknowledges input only while the thread has not ended; an `OPEN` does not get
the ids of an earlier stream. -/
def Careful (state : State) : Action → Prop
  | .loop _ =>
      (∀ index ∈ state.loop.closing, ∀ stream ∈ state.streams[index]?,
        stream.output.phase ≠ .holding) ∧
      ∀ index ∈ state.loop.acknowledging, ∀ stream ∈ state.streams[index]?,
        stream.output ≠ .done
  | .handle _ =>
      ∀ packet ∈ state.rx.head?, packet.IsOpen → ∀ stream ∈ state.streams,
        (stream.localId, stream.remoteId) ≠ (state.nextLocalId, packet.arg0)
  | _ => True

instance (state : State) : (action : Action) → Decidable (Careful state action)
  | .hostSend _ => inferInstanceAs (Decidable True)
  | .hostReceive => inferInstanceAs (Decidable True)
  | .handle _ => inferInstanceAs (Decidable (∀ packet ∈ state.rx.head?, _))
  | .readFails => inferInstanceAs (Decidable True)
  | .leave => inferInstanceAs (Decidable True)
  | .loop _ => inferInstanceAs (Decidable (_ ∧ _))
  | .output _ _ => inferInstanceAs (Decidable True)

def carefulServer : System State Action := server.restrict Careful

def Account.ids (account : Account) : UInt32 × UInt32 :=
  (account.localId, account.remoteId)

namespace State

structure Closing (state : State) : Prop where
  owned : Owned state
  lives : Lives (fun life => life.Regular ∧ life.Still) state
  distinct : (state.ledger.accounts.map Account.ids).Nodup

theorem Closing.initially : Closing startState where
  owned := .initially
  lives := by simp [Lives, startState]
  distinct := by simp [ledger, startState]

theorem phase_eq_done {output : Output} :
    output.phase = .done ↔ output = .done := by
  cases output <;> simp [Output.phase]

theorem allows_of_careful {state : State} {action : Action}
    (owned : Owned state) (careful : Careful state action) :
    Allows Life.careful state action := by
  rintro io rfl index stream found
  refine ⟨?_, ?_⟩
  · rintro (⟨payload, loop⟩ | loop)
    · exact .inl (decide_eq_true (owned.sync loop found))
    · refine .inr fun done => ?_
      exact careful.2 index (by rw [loop]; rfl) stream found
        (phase_eq_done.mp done)
  · intro byHost loop
    exact careful.1 index (by rw [loop]; rfl) stream found

theorem distinct_takes {ledger next : Ledger}
    (distinct : (ledger.accounts.map Account.ids).Nodup)
    (takes : ledger.Takes next)
    (fresh : ∀ packet ∈ ledger.rx.head?, packet.IsOpen →
      (ledger.nextLocalId, packet.arg0) ∉ ledger.accounts.map Account.ids) :
    (next.accounts.map Account.ids).Nodup := by
  cases takes with
  | packet => exact distinct
  | opens => exact distinct
  | spawns rx isOpen =>
      rw [List.map_append]
      refine List.nodup_append.mpr ⟨distinct, List.nodup_singleton _, ?_⟩
      rintro ids member last isLast rfl
      obtain rfl := List.mem_singleton.mp isLast
      exact fresh _ (by rw [rx]; rfl) isOpen member
  | @accepts packet rest rx index account found isOkay =>
      have same : (ledger.accounts.modify index Account.accept).map
          Account.ids = ledger.accounts.map Account.ids := by
        rw [@map_modify _ _ Account.ids _ _ Account.accept id fun _ _ => rfl,
          List.modify_id]
      exact same ▸ distinct

theorem Closing.step {state next : State} {action : Action}
    (closing : Closing state) (careful : Careful state action)
    (steps : Steps state action next) : Closing next where
  owned := closing.owned.step steps
  lives := by
    refine closing.lives.step closing.owned
      (allows_of_careful closing.owned careful) ?_ ?_ steps
    · exact fun sync => ⟨.start sync, .start sync⟩
    · rintro life next ⟨regular, still⟩ step
      exact ⟨regular.step step,
        still.step regular.placed regular.ordered regular.closes step⟩
  distinct := by
    have carries : Carries state next →
        (next.ledger.accounts.map Account.ids).Nodup := by
      intro carries
      rw [carries.ledger]
      exact closing.distinct
    cases action with
    | hostSend packet =>
        cases steps
        exact closing.distinct
    | hostReceive =>
        cases steps
        exact closing.distinct
    | handle spawned =>
        refine distinct_takes closing.distinct (takes_of_handle steps).1 ?_
        intro packet head isOpen member
        obtain ⟨account, known, same⟩ := List.mem_map.mp member
        obtain ⟨stream, member, rfl⟩ := List.mem_map.mp known
        exact careful packet head isOpen stream member same
    | readFails => exact carries (carries_of_steps steps (by simp) (by simp) (by simp))
    | leave => exact carries (carries_of_steps steps (by simp) (by simp) (by simp))
    | loop io => exact carries (carries_of_steps steps (by simp) (by simp) (by simp))
    | output index io =>
        exact carries (carries_of_steps steps (by simp) (by simp) (by simp))

theorem Closing.closureFinal {state : State} (closing : Closing state) :
    ClosureFinal state := by
  intro index stream found
  have life := (closing.lives index stream found).2
  have own : ∀ {other : Nat} {stream' : Stream},
      state.streams[other]? = some stream' →
      stream'.localId = stream.localId → stream'.remoteId = stream.remoteId →
      other = index := by
    intro other stream' found' isLocal isRemote
    have distinct := closing.distinct
    rw [ledger, List.map_map] at distinct
    refine (List.getElem?_inj ?_ distinct).mp ?_
    · simpa using (List.getElem?_eq_some_iff.mp found').1
    · simp [found, found', Stream.account, Account.ids, isLocal, isRemote]
  refine life.stops.of_filterMap ?_ ?_
  · rintro event (rfl | rfl)
    · exact ⟨.closed, if_pos rfl, .inl rfl⟩
    · exact ⟨.closedByHost, if_pos rfl, .inr rfl⟩
  · rintro event ⟨packet, known, command, isLocal, isRemote⟩
    have apart : ¬(aCnxn = aOkay ∨ aCnxn = aWrte) ∧
        ¬(aClse = aOkay ∨ aClse = aWrte) := by decide
    cases event with
    | hello =>
        obtain rfl := Option.some.inj known
        exact absurd command apart.1
    | opened other =>
        obtain ⟨stream', found', rfl⟩ := Option.map_eq_some_iff.mp known
        exact ⟨.opened, if_pos (own found' isLocal isRemote), .inl rfl⟩
    | acknowledged other =>
        obtain ⟨stream', found', rfl⟩ := Option.map_eq_some_iff.mp known
        exact ⟨.acknowledged, if_pos (own found' isLocal isRemote),
          .inr (.inl rfl)⟩
    | wrote other payload =>
        obtain ⟨stream', found', rfl⟩ := Option.map_eq_some_iff.mp known
        exact ⟨.wrote, if_pos (own found' isLocal isRemote), .inr (.inr rfl)⟩
    | closed other =>
        obtain ⟨stream', found', rfl⟩ := Option.map_eq_some_iff.mp known
        exact absurd command apart.2
    | refused =>
        obtain rfl := Option.some.inj known
        exact absurd command apart.2
    | closedByHost => simp [packetOf] at known

end State

theorem closing_inductive : carefulServer.Inductive State.Closing where
  initially := .initially
  kept := by
    intro state next action closing steps
    obtain ⟨careful, steps⟩ := System.restrict_step_eq_some.mp steps
    exact closing.step careful (State.steps_of_step steps)

/-- In a run of careful steps the closing of a stream is final. -/
theorem server_closureFinal {state : State}
    (reached : carefulServer.Reachable state) : ClosureFinal state :=
  (closing_inductive.reachable reached).closureFinal

/-- The host closes the stream before its thread takes a credit. -/
def closedRun : List Action :=
  [.hostSend shellPacket, .handle true, .loop idleLoop, .loop idleLoop,
    .loop idleLoop, .hostSend ⟨aClse, 7, 1, []⟩, .handle true,
    .loop idleLoop, .loop idleLoop]

theorem server_closureFinal_closedRun :
    ∃ state, carefulServer.Reachable state ∧ ClosureFinal state ∧
      state.history = [.opened 0, .closed 0] := by
  have seen : (carefulServer.runFrom startState closedRun).map State.history =
      some [.opened 0, .closed 0] := by
    decide +kernel
  obtain ⟨state, runs, history⟩ := Option.map_eq_some_iff.mp seen
  exact ⟨state, ⟨closedRun, runs⟩, server_closureFinal ⟨closedRun, runs⟩,
    history⟩

end Pocketboot.Adb
