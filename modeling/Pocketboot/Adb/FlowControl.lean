import Pocketboot.Adb.Ledger

/-!
# Flow control

Each `WRTE` spends a credit, and a host that acknowledges no more than it has
received never gives a stream two.
-/

namespace Pocketboot.Adb

open Transition

/-! ## A polite host -/

def Packet.IsWriteOf (localId remoteId : UInt32) (packet : Packet) : Prop :=
  packet.command = aWrte ∧ packet.arg0 = localId ∧ packet.arg1 = remoteId

instance (localId remoteId : UInt32) (packet : Packet) :
    Decidable (packet.IsWriteOf localId remoteId) :=
  inferInstanceAs (Decidable (_ ∧ _))

/-- The packet the action sends, when it is one of the host. -/
def Action.sends : Action → Option Packet
  | .hostSend packet => some packet
  | _ => none

namespace State

/-- The `OKAY`s of the host for these ids. -/
def okays (state : State) (localId remoteId : UInt32) : Nat :=
  state.hostSent.countP (·.IsOkayFor localId remoteId)

/-- The event is a `WRTE` with these ids on the wire. -/
def Writes (state : State) (localId remoteId : UInt32) (event : Event) : Prop :=
  ∃ packet ∈ state.packetOf event, packet.IsWriteOf localId remoteId

instance (state : State) (localId remoteId : UInt32) (event : Event) :
    Decidable (state.Writes localId remoteId event) :=
  inferInstanceAs (Decidable (∃ packet ∈ state.packetOf event, _))

/-- The `WRTE`s with these ids that the host has received. -/
def writesReceived (state : State) (localId remoteId : UInt32) : Nat :=
  (state.history.take state.received).countP (state.Writes localId remoteId)

end State

/-- The host sends at most one `OKAY` for each `WRTE` it has received, with
the ids of its stream, and fewer than 2^32 `OPEN`s. -/
def Polite (state : State) (action : Action) : Prop :=
  ∀ packet ∈ action.sends,
    (packet.command = aOkay →
      state.okays packet.arg1 packet.arg0 <
        state.writesReceived packet.arg1 packet.arg0) ∧
    (packet.IsOpen → state.hostSent.countP (·.IsOpen) + 1 < 2 ^ 32)

instance (state : State) (action : Action) : Decidable (Polite state action) :=
  inferInstanceAs (Decidable (∀ packet ∈ action.sends, _))

/-! ## Ids -/

/-- Every id has been given once, while there are fewer than 2^32 `OPEN`s. -/
structure Ledger.Identified (ledger : Ledger) : Prop where
  opens : ledger.opens + ledger.rx.countP (·.IsOpen) ≤
    ledger.hostSent.countP (·.IsOpen)
  few : ledger.hostSent.countP (·.IsOpen) < 2 ^ 32
  next : ledger.opens + 1 < 2 ^ 32 →
    ledger.nextLocalId.toNat ≤ ledger.opens + 1 ∧
      ∀ account ∈ ledger.accounts,
        account.localId.toNat < ledger.nextLocalId.toNat
  distinct : (ledger.accounts.map Account.localId).Nodup

/-- Every accepted `OKAY` is one that the host has sent. -/
structure Ledger.Credited (ledger : Ledger) : Prop where
  pending : ledger.rx <:+ ledger.hostSent
  accepted : ∀ account ∈ ledger.accounts,
    account.accepted +
        ledger.rx.countP (·.IsOkayFor account.localId account.remoteId) ≤
      ledger.hostSent.countP (·.IsOkayFor account.localId account.remoteId)

def Ledger.hostSend (ledger : Ledger) (packet : Packet) : Ledger :=
  { ledger with
    rx := ledger.rx ++ [packet]
    hostSent := ledger.hostSent ++ [packet] }

theorem toNat_followingId {id : UInt32} (bound : id.toNat + 1 < 2 ^ 32) :
    (State.followingId id).toNat = id.toNat + 1 := by
  have next : (id + 1).toNat = id.toNat + 1 := by
    rw [UInt32.toNat_add]
    simp only [UInt32.reduceToNat]
    omega
  unfold State.followingId
  change (if id + 1 ≤ 1 then (1 : UInt32) else id + 1).toNat = id.toNat + 1
  split
  · rename_i small
    have := UInt32.le_iff_toNat_le.mp small
    simp only [UInt32.reduceToNat] at this
    simp only [UInt32.reduceToNat]
    omega
  · exact next

namespace Ledger

theorem Identified.hostSend {ledger : Ledger} (identified : Identified ledger)
    {packet : Packet}
    (few : packet.IsOpen → ledger.hostSent.countP (·.IsOpen) + 1 < 2 ^ 32) :
    Identified (ledger.hostSend packet) where
  opens := by
    have := identified.opens
    simp only [Ledger.hostSend, List.countP_append]
    omega
  few := by
    have := identified.few
    simp only [Ledger.hostSend, List.countP_append, List.countP_singleton]
    split
    · rename_i isOpen
      exact few (of_decide_eq_true isOpen)
    · omega
  next := identified.next
  distinct := identified.distinct

theorem Identified.takes {ledger next : Ledger} (identified : Identified ledger)
    (takes : ledger.Takes next) : Identified next := by
  obtain ⟨opens, few, ids, distinct⟩ := identified
  cases takes with
  | packet rx =>
      refine ⟨?_, few, ids, distinct⟩
      rw [rx, List.countP_cons] at opens
      simp only
      omega
  | @opens packet rest rx isOpen nextLocalId allocates =>
      rw [rx, List.countP_cons, if_pos (decide_eq_true isOpen)] at opens
      refine ⟨by simp only; omega, few, fun more => ?_, distinct⟩
      simp only at more ⊢
      obtain ⟨bound, below⟩ := ids (by omega)
      rcases allocates with rfl | rfl
      · exact ⟨by omega, below⟩
      · rw [toNat_followingId (by omega)]
        exact ⟨by omega, fun account member => by have := below account member; omega⟩
  | @spawns packet rest rx isOpen service =>
      rw [rx, List.countP_cons, if_pos (decide_eq_true isOpen)] at opens
      obtain ⟨bound, below⟩ := ids (by omega)
      refine ⟨by simp only; omega, few, fun more => ?_, ?_⟩
      · simp only at more ⊢
        rw [toNat_followingId (by omega)]
        refine ⟨by omega, fun account member => ?_⟩
        rcases List.mem_append.mp member with before | last
        · have := below account before
          omega
        · rw [List.mem_singleton.mp last]
          simp
      · simp only [List.map_append, List.map_cons, List.map_nil]
        refine List.nodup_append.mpr ⟨distinct, List.nodup_singleton _, ?_⟩
        rintro id member last isLast rfl
        obtain rfl := List.mem_singleton.mp isLast
        obtain ⟨account, member, same⟩ := List.mem_map.mp member
        have := below account member
        rw [same] at this
        omega
  | @accepts packet rest rx index account found isOkay =>
      refine ⟨?_, few, fun more => ⟨(ids more).1, fun other member => ?_⟩, ?_⟩
      · rw [rx, List.countP_cons] at opens
        simp only
        omega
      · rcases mem_modify member with before | ⟨before, found, rfl⟩
        · exact (ids more).2 other before
        · exact (ids more).2 before (List.mem_of_getElem? found)
      · have ids : (ledger.accounts.modify index Account.accept).map
            Account.localId = ledger.accounts.map Account.localId := by
          rw [@map_modify _ _ Account.localId _ _ Account.accept id
            fun _ _ => rfl, List.modify_id]
        exact ids ▸ distinct

theorem Credited.hostSend {ledger : Ledger} (credited : Credited ledger)
    (packet : Packet) : Credited (ledger.hostSend packet) where
  pending := by
    obtain ⟨read, sent⟩ := credited.pending
    refine ⟨read, ?_⟩
    simp only [Ledger.hostSend, ← sent, List.append_assoc]
  accepted account member := by
    have := credited.accepted account member
    simp only [Ledger.hostSend, List.countP_append]
    omega

theorem Credited.takes {ledger next : Ledger} (credited : Credited ledger)
    (takes : ledger.Takes next) : Credited next := by
  obtain ⟨pending, accepted⟩ := credited
  -- Every packet that is read leaves as many `OKAY`s or fewer.
  have read : ∀ {packet rest}, ledger.rx = packet :: rest →
      rest <:+ ledger.hostSent ∧ ∀ account ∈ ledger.accounts,
        account.accepted +
            rest.countP (·.IsOkayFor account.localId account.remoteId) +
            (if packet.IsOkayFor account.localId account.remoteId then 1
              else 0) ≤
          ledger.hostSent.countP
            (·.IsOkayFor account.localId account.remoteId) := by
    intro packet rest rx
    rw [rx] at pending accepted
    refine ⟨(List.suffix_cons _ _).trans pending, fun account member => ?_⟩
    have := accepted account member
    simpa [List.countP_cons, Nat.add_assoc] using this
  cases takes with
  | packet rx =>
      obtain ⟨pending, accepted⟩ := read rx
      refine ⟨pending, fun account member => ?_⟩
      have := accepted account member
      simp only
      omega
  | opens rx isOpen allocates =>
      obtain ⟨pending, accepted⟩ := read rx
      refine ⟨pending, fun account member => ?_⟩
      have := accepted account member
      simp only
      omega
  | spawns rx isOpen =>
      obtain ⟨pending, accepted⟩ := read rx
      refine ⟨pending, fun account member => ?_⟩
      rcases List.mem_append.mp member with before | last
      · have := accepted account before
        simp only
        omega
      · rw [List.mem_singleton.mp last, Nat.zero_add]
        exact pending.sublist.countP_le
  | accepts rx found isOkay =>
      obtain ⟨pending, accepted⟩ := read rx
      refine ⟨pending, fun account member => ?_⟩
      rcases mem_modify member with before | ⟨before, known, rfl⟩
      · have := accepted account before
        simp only
        omega
      · obtain rfl := Option.some.inj (found.symm.trans known)
        have := accepted _ (List.mem_of_getElem? found)
        rw [if_pos isOkay] at this
        change _ + 1 + _ ≤ _
        rw [Nat.add_right_comm]
        exact this

end Ledger

/-! ## The wire as the host sees it -/

/-- The streams that were there keep their services and ids. -/
def SameIds (accounts next : List Account) : Prop :=
  ∀ (index : Nat) (account : Account), accounts[index]? = some account →
    ∃ account' : Account, next[index]? = some account' ∧
      account'.service = account.service ∧
      account'.localId = account.localId ∧ account'.remoteId = account.remoteId

theorem SameIds.of_eq {accounts next : List Account} (same : next = accounts) :
    SameIds accounts next :=
  fun _ account found => ⟨account, same ▸ found, rfl, rfl, rfl⟩

theorem Ledger.Takes.sameIds {ledger next : Ledger} (takes : ledger.Takes next) :
    SameIds ledger.accounts next.accounts := by
  cases takes with
  | packet => exact .of_eq rfl
  | opens => exact .of_eq rfl
  | spawns =>
      intro index account found
      refine ⟨account, ?_, rfl, rfl, rfl⟩
      have bound := (List.getElem?_eq_some_iff.mp found).1
      rwa [List.getElem?_append_left bound]
  | @accepts packet rest rx index account known isOkay =>
      intro other account found
      rw [List.getElem?_modify, found]
      by_cases same : index = other
      · exact ⟨account.accept, by simp [same], rfl, rfl, rfl⟩
      · exact ⟨account, by simp [same], rfl, rfl, rfl⟩

namespace State

theorem packetOf_eq {state next : State} {event : Event}
    (same : SameIds state.ledger.accounts next.ledger.accounts)
    (told : event.streams ≤ state.streams.length) :
    next.packetOf event = state.packetOf event := by
  have ids : ∀ {α : Type} (view : UInt32 → UInt32 → α) {index : Nat},
      index < state.streams.length →
      (next.streams[index]?.map fun stream =>
        view stream.localId stream.remoteId) =
      state.streams[index]?.map fun stream =>
        view stream.localId stream.remoteId := by
    intro α view index bound
    have found := List.getElem?_eq_getElem bound
    obtain ⟨account, known, _, isLocal, isRemote⟩ :=
      same index (state.streams[index].account) (by simp [ledger, found])
    simp only [ledger, List.getElem?_map, Option.map_eq_some_iff] at known
    obtain ⟨stream, known, rfl⟩ := known
    rw [found, known]
    simp only [Option.map_some, Option.some.injEq]
    exact congrArg₂ view isLocal isRemote
  cases event with
  | hello => rfl
  | opened index => exact ids (Packet.mk aOkay · · []) told
  | acknowledged index => exact ids (Packet.mk aOkay · · []) told
  | wrote index payload => exact ids (Packet.mk aWrte · · payload) told
  | closed index => exact ids (Packet.mk aClse · · []) told
  | refused => rfl
  | closedByHost => rfl

/-- What the host has received stays received. -/
theorem writesReceived_le {state next : State} (owned : Owned state)
    (same : SameIds state.ledger.accounts next.ledger.accounts)
    (history : state.history <+: next.history)
    (bound : state.received ≤ state.history.length)
    (received : state.received ≤ next.received) (localId remoteId : UInt32) :
    state.writesReceived localId remoteId ≤
      next.writesReceived localId remoteId := by
  obtain ⟨more, grown⟩ := history
  have taken : state.history.take state.received =
      next.history.take state.received := by
    rw [← grown, List.take_append_of_le_length bound]
  have counted : state.writesReceived localId remoteId =
      (next.history.take state.received).countP
        (next.Writes localId remoteId) := by
    rw [writesReceived, ← taken]
    refine List.countP_congr fun event member => ?_
    have told := owned.told event (List.mem_of_mem_take member)
    rw [decide_eq_true_iff, decide_eq_true_iff, Writes, Writes,
      packetOf_eq same told]
  rw [counted]
  exact (List.take_sublist_take_left received).countP_le

theorem unique_of_identified {state : State}
    (identified : state.ledger.Identified) {index other : Nat}
    {stream stream' : Stream} (found : state.streams[index]? = some stream)
    (found' : state.streams[other]? = some stream')
    (same : stream'.localId = stream.localId) : other = index := by
  have distinct := identified.distinct
  rw [ledger, List.map_map] at distinct
  refine (List.getElem?_inj ?_ distinct).mp ?_
  · simpa using (List.getElem?_eq_some_iff.mp found').1
  · simp [found, found', Stream.account, same]

/-- The packets with the ids of a stream are its own. -/
theorem writesReceived_le_count {state : State}
    (identified : state.ledger.Identified) {index : Nat} {stream : Stream}
    (found : state.streams[index]? = some stream) :
    state.writesReceived stream.localId stream.remoteId ≤
      (state.eventsOf index).count .wrote := by
  have seen : ∀ {event : Event},
      state.Writes stream.localId stream.remoteId event →
      event.seenBy index = some .wrote := by
    rintro event ⟨packet, known, isWrite, isLocal, _⟩
    have apart : aCnxn ≠ aWrte ∧ aOkay ≠ aWrte ∧ aClse ≠ aWrte := by decide
    cases event with
    | hello =>
        obtain rfl := Option.some.inj known
        exact absurd isWrite apart.1
    | opened =>
        obtain ⟨_, _, rfl⟩ := Option.map_eq_some_iff.mp known
        exact absurd isWrite apart.2.1
    | acknowledged =>
        obtain ⟨_, _, rfl⟩ := Option.map_eq_some_iff.mp known
        exact absurd isWrite apart.2.1
    | wrote other payload =>
        obtain ⟨stream', found', rfl⟩ := Option.map_eq_some_iff.mp known
        exact if_pos (unique_of_identified identified found found' isLocal)
    | closed =>
        obtain ⟨_, _, rfl⟩ := Option.map_eq_some_iff.mp known
        exact absurd isWrite apart.2.2
    | refused =>
        obtain rfl := Option.some.inj known
        exact absurd isWrite apart.2.2
    | closedByHost => simp [packetOf] at known
  calc state.writesReceived stream.localId stream.remoteId
      ≤ state.history.countP
          (state.Writes stream.localId stream.remoteId) :=
        (List.take_sublist _ _).countP_le
    _ ≤ (state.eventsOf index).count .wrote := by
        rw [eventsOf, List.count, List.countP_filterMap]
        refine List.countP_mono_left fun event _ writes => ?_
        rw [seen (of_decide_eq_true writes)]
        rfl

/-! ## What a polite host keeps -/

structure Courteous (state : State) : Prop where
  regular : Regular state
  identified : state.ledger.Identified
  credited : state.ledger.Credited
  received : state.received ≤ state.history.length
  okays : ∀ localId remoteId,
    state.okays localId remoteId ≤ state.writesReceived localId remoteId

theorem Courteous.initially : Courteous startState where
  regular := .initially
  identified := ⟨by simp [ledger, startState], by simp [ledger, startState],
    by simp [ledger, startState], by simp [ledger, startState]⟩
  credited := ⟨List.suffix_rfl, by simp [ledger, startState]⟩
  received := le_rfl
  okays := by simp [State.okays, startState]

theorem Courteous.step {state next : State} {action : Action}
    (courteous : Courteous state) (polite : Polite state action)
    (steps : Steps state action next) : Courteous next := by
  obtain ⟨regular, identified, credited, received, okays⟩ := courteous
  have regular' := regular.step steps
  -- What has been received stays received.
  have kept : SameIds state.ledger.accounts next.ledger.accounts →
      state.history <+: next.history → state.received ≤ next.received →
      ∀ localId remoteId, state.okays localId remoteId ≤
        next.writesReceived localId remoteId :=
    fun same history grows localId remoteId => (okays localId remoteId).trans
      (writesReceived_le regular.owned same history received grows _ _)
  have others : Carries state next → Courteous next := by
    intro carries
    have received' : next.received = state.received :=
      congrArg Ledger.received carries.ledger
    have sent : next.hostSent = state.hostSent :=
      congrArg Ledger.hostSent carries.ledger
    refine ⟨regular', carries.ledger ▸ identified, carries.ledger ▸ credited,
      ?_, fun localId remoteId => ?_⟩
    · rw [received']
      exact received.trans carries.history.length_le
    · have same : SameIds state.ledger.accounts next.ledger.accounts :=
        .of_eq (congrArg Ledger.accounts carries.ledger)
      rw [State.okays, sent]
      exact kept same carries.history received'.ge _ _
  cases action with
  | hostSend packet =>
      cases steps
      obtain ⟨okay, isOpen⟩ := polite packet rfl
      refine ⟨regular', identified.hostSend isOpen, credited.hostSend packet,
        received, fun localId remoteId => ?_⟩
      have before := okays localId remoteId
      simp only [State.okays, List.countP_append, List.countP_singleton]
      split
      · rename_i isOkay
        obtain ⟨command, rfl, rfl⟩ := of_decide_eq_true isOkay
        exact okay command
      · exact before
  | hostReceive =>
      cases steps with
      | hostReceive more =>
          refine ⟨regular', ?_, ?_, more, ?_⟩
          · exact ⟨identified.opens, identified.few, identified.next,
              identified.distinct⟩
          · exact ⟨credited.pending, credited.accepted⟩
          · exact kept (.of_eq rfl) List.prefix_rfl (Nat.le_succ _)
  | handle spawned =>
      obtain ⟨takes, history⟩ := takes_of_handle steps
      have still : next.received = state.received ∧
          next.hostSent = state.hostSent := by
        generalize ledger : next.ledger = taken at takes
        have received' : next.received = taken.received :=
          congrArg Ledger.received ledger
        have sent : next.hostSent = taken.hostSent :=
          congrArg Ledger.hostSent ledger
        rw [received', sent]
        cases takes <;> exact ⟨rfl, rfl⟩
      refine ⟨regular', identified.takes takes, credited.takes takes, ?_,
        fun localId remoteId => ?_⟩
      · rw [still.1, history]
        exact received
      · rw [State.okays, still.2]
        exact kept takes.sameIds (by rw [history]) still.1.ge _ _
  | readFails => exact others (carries_of_steps steps (by simp) (by simp) (by simp))
  | leave => exact others (carries_of_steps steps (by simp) (by simp) (by simp))
  | loop io => exact others (carries_of_steps steps (by simp) (by simp) (by simp))
  | output index io =>
      exact others (carries_of_steps steps (by simp) (by simp) (by simp))

end State

/-! ## The discipline of a stream -/

def Event.IsWriteOf (index : Nat) (event : Event) : Prop :=
  ∃ payload, event = .wrote index payload

/-- A packet the stream sends. -/
def Event.IsPacketOf (index : Nat) (event : Event) : Prop :=
  event = .opened index ∨ event = .acknowledged index ∨
    event.IsWriteOf index ∨ event = .closed index

/-- The `CNXN` reply to a connection made after the stream was opened. -/
def Event.IsLaterHello (index : Nat) (event : Event) : Prop :=
  ∃ streams maxPayload, event = .hello streams maxPayload ∧ index < streams

/-- The `WRTE`s of a stream. -/
def State.writes (state : State) (index : Nat) : Nat :=
  state.history.countP fun event => event.seenBy index = some .wrote

/-- The `OKAY`s for a stream that the packet loop has read. -/
def State.okaysRead (state : State) (stream : Stream) : Nat :=
  state.okays stream.localId stream.remoteId -
    state.rx.countP (·.IsOkayFor stream.localId stream.remoteId)

structure FlowControlled (state : State) (index : Nat) (stream : Stream) :
    Prop where
  /-- No other stream has its local id. -/
  unique : ∀ (other : Nat) (stream' : Stream),
    state.streams[other]? = some stream' →
    stream'.localId = stream.localId → other = index
  /-- No `WRTE` comes before the `OKAY` to the `OPEN`. -/
  opened : Follows (· = .opened index) (Event.IsWriteOf index) state.history
  /-- At most one `WRTE` is not acknowledged. -/
  acknowledged : state.writes index ≤ state.okaysRead stream + 1
  /-- An accepted `OKAY` finds no credit that is unspent. -/
  credit : ∀ (packet : Packet) (rest : List Packet), state.loop = .idle →
    state.rx = packet :: rest → packet.command = aOkay →
    state.acknowledges packet = some index →
    stream.flow.canWrite = false ∧ stream.output.phase ≠ .holding
  closedOnce : state.history.count (.closed index) ≤ 1
  /-- No packet of the stream follows the reply to a later `CNXN`. -/
  greeted : Stops (Event.IsLaterHello index) (Event.IsPacketOf index)
    state.history

namespace State

theorem seenBy_of_isPacketOf {event : Event} {index : Nat}
    (isPacket : event.IsPacketOf index) :
    ∃ seen, event.seenBy index = some seen ∧ seen.IsPacket := by
  rcases isPacket with rfl | rfl | ⟨payload, rfl⟩ | rfl <;>
    exact ⟨_, if_pos rfl, by simp [LifeEvent.IsPacket]⟩

theorem writes_eq_count (state : State) (index : Nat) :
    state.writes index = (state.eventsOf index).count .wrote := by
  rw [writes, eventsOf, List.count, List.countP_filterMap]
  refine List.countP_congr fun event _ => ?_
  cases event.seenBy index <;> simp

theorem count_closed (state : State) (index : Nat) :
    state.history.count (.closed index) =
      (state.eventsOf index).count .closed := by
  rw [eventsOf, List.count, List.count, List.countP_filterMap]
  refine List.countP_congr fun event _ => ?_
  cases event <;> simp [Event.seenBy] <;> split <;> simp_all

theorem Courteous.flowControlled {state : State} (courteous : Courteous state)
    {index : Nat} {stream : Stream}
    (found : state.streams[index]? = some stream) :
    FlowControlled state index stream := by
  obtain ⟨regular, identified, credited, received, okays⟩ := courteous
  have life := regular.lives index stream found
  have account : stream.account ∈ state.ledger.accounts :=
    List.mem_map_of_mem (List.mem_of_getElem? found)
  have accepted : stream.accepted +
      state.rx.countP (·.IsOkayFor stream.localId stream.remoteId) ≤
      state.okays stream.localId stream.remoteId :=
    credited.accepted _ account
  have sent : state.okays stream.localId stream.remoteId ≤
      state.writes index := by
    rw [writes_eq_count]
    exact (okays _ _).trans (writesReceived_le_count identified found)
  have spends : state.writes index + stream.flow.canWrite.toNat +
      (if stream.output.phase = .holding then 1 else 0) ≤
      stream.granted.toNat + stream.accepted := by
    rw [writes_eq_count]
    exact life.spends
  have granted : stream.granted.toNat ≤ 1 := Bool.toNat_le _
  refine ⟨?_, ?_, ?_, ?_, ?_, ?_⟩
  · exact fun other stream' found' same =>
      unique_of_identified identified found found' same
  · refine life.ordered.follows.of_filterMap ?_ ?_
    · rintro event seen sees rfl
      cases event <;> simp [Event.seenBy] at sees ⊢
      exact sees
    · rintro event ⟨payload, rfl⟩
      exact ⟨.wrote, if_pos rfl, rfl⟩
  · rw [okaysRead]
    omega
  · intro packet rest idle rx command accepts
    obtain ⟨stream', found', isLocal, isRemote⟩ := acknowledges_eq_some accepts
    obtain rfl := Option.some.inj (found.symm.trans found')
    have isOkay : packet.IsOkayFor stream.localId stream.remoteId :=
      ⟨command, isRemote.symm, isLocal.symm⟩
    rw [rx, List.countP_cons, if_pos (decide_eq_true isOkay)] at accepted
    constructor
    · cases credit : stream.flow.canWrite with
      | false => rfl
      | true =>
          rw [credit, Bool.toNat_true] at spends
          omega
    · intro holding
      rw [if_pos holding] at spends
      omega
  · rw [count_closed]
    have closes : (state.eventsOf index).count .closed + _ + _ ≤
        stream.flow.closed.toNat := life.closes
    have := Bool.toNat_le stream.flow.closed
    omega
  · refine life.ordered.stops.of_filterMap ?_ ?_
    · rintro event ⟨streams, maxPayload, rfl, later⟩
      exact ⟨.hello, if_pos later, rfl⟩
    · exact fun event isPacket => seenBy_of_isPacketOf isPacket

end State

/-- The server with a polite host. -/
def politeServer : System State Action := server.restrict Polite

theorem courteous_inductive : politeServer.Inductive State.Courteous where
  initially := .initially
  kept := by
    intro state next action courteous steps
    obtain ⟨polite, steps⟩ := System.restrict_step_eq_some.mp steps
    exact courteous.step polite (State.steps_of_step steps)

/-- With a polite host every stream is flow controlled, in every state of every
run. -/
theorem server_flowControl {state : State}
    (reached : politeServer.Reachable state) {index : Nat} {stream : Stream}
    (found : state.streams[index]? = some stream) :
    FlowControlled state index stream :=
  (courteous_inductive.reachable reached).flowControlled found

/-- A shell that writes three bytes, and the host acknowledges them. -/
def acknowledgedRun : List Action :=
  [.hostSend shellPacket, .handle true, .loop idleLoop, .loop idleLoop,
    .loop idleLoop, .output 0 idleOutput, .output 0 idleOutput,
    .output 0 idleOutput, .hostReceive, .hostReceive,
    .hostSend ⟨aOkay, 7, 1, []⟩]

theorem server_flowControl_acknowledgedRun :
    ∃ state stream, politeServer.Reachable state ∧
      state.streams[0]? = some stream ∧ FlowControlled state 0 stream ∧
      state.history = [.opened 0, .wrote 0 [104, 105, 10]] := by
  have seen : ((politeServer.runFrom startState acknowledgedRun).map
      fun state => (state.streams.length, state.history)) =
      some (1, [.opened 0, .wrote 0 [104, 105, 10]]) := by
    decide +kernel
  obtain ⟨state, runs, view⟩ := Option.map_eq_some_iff.mp seen
  obtain ⟨length, history⟩ := Prod.mk.inj view
  have found := List.getElem?_eq_getElem (show 0 < state.streams.length by omega)
  exact ⟨state, _, ⟨acknowledgedRun, runs⟩, found,
    server_flowControl ⟨acknowledgedRun, runs⟩ found, history⟩

end Pocketboot.Adb
