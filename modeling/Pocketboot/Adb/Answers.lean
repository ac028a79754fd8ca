import Pocketboot.Adb.Closure

/-!
# The answers to `OPEN` and `WRTE`

When a handler returns and all packets could be sent, the packet is answered,
unless it is an `OPEN` whose service name is not UTF-8.
-/

namespace Pocketboot.Adb

open Transition

/-! ## The claim -/

/-- An `OPEN` is answered by one packet: an `OKAY` with a local id of the
session table, or a `CLSE`. -/
def OpenAnswered (state : State) (record : Handled) : Prop :=
  ∃ reply, record.handling.replies.filterMap state.packetOf = [reply] ∧
    reply.arg1 = record.handling.packet.arg0 ∧
    (reply.command = aClse ∨
      reply.command = aOkay ∧ ∃ index ∈ record.sessions,
        ∃ stream ∈ state.streams[index]?, stream.localId = reply.arg0)

/-- A `WRTE` is answered by an `OKAY` or a `CLSE`, or the thread of the stream
it names had sent its `CLSE`. -/
def WriteAnswered (state : State) (record : Handled) : Prop :=
  (∃ reply ∈ record.handling.replies.filterMap state.packetOf,
    reply.arg1 = record.handling.packet.arg0 ∧
      (reply.command = aOkay ∨ reply.command = aClse)) ∨
  ∃ index, record.handling.named = some index ∧
    .closed index ∈ state.history.take record.events ∧
    .closed index ∉ record.handling.replies

structure Answered (state : State) (record : Handled) : Prop where
  opens : record.handling.packet.command = aOpen → OpenAnswered state record
  writes : record.handling.packet.command = aWrte → WriteAnswered state record

/-- The transport sends every packet. -/
def Reliable (_ : State) : Action → Prop
  | .loop io => io.send = .sent
  | .output _ io => io.send = .sent
  | _ => True

instance (state : State) : (action : Action) → Decidable (Reliable state action)
  | .hostSend _ => inferInstanceAs (Decidable True)
  | .hostReceive => inferInstanceAs (Decidable True)
  | .handle _ => inferInstanceAs (Decidable True)
  | .readFails => inferInstanceAs (Decidable True)
  | .leave => inferInstanceAs (Decidable True)
  | .loop _ => inferInstanceAs (Decidable (_ = _))
  | .output _ _ => inferInstanceAs (Decidable (_ = _))

def reliableServer : System State Action := server.restrict Reliable

/-- The packet is no `OPEN`, or its service name is UTF-8. -/
def Packet.Decodable (packet : Packet) : Prop :=
  packet.command = aOpen → (serviceName packet.payload).toOption.isSome

instance (packet : Packet) : Decidable packet.Decodable :=
  inferInstanceAs (Decidable (_ → _))

/-! ## A step keeps what was sent -/

namespace State

theorem onward_of_steps {state next : State} {action : Action}
    (steps : Steps state action next) :
    SameIds state.ledger.accounts next.ledger.accounts ∧
      state.history <+: next.history := by
  have carries : Carries state next → SameIds state.ledger.accounts
      next.ledger.accounts ∧ state.history <+: next.history :=
    fun carries => ⟨.of_eq (congrArg Ledger.accounts carries.ledger),
      carries.history⟩
  cases action with
  | hostSend packet =>
      cases steps
      exact ⟨.of_eq rfl, List.prefix_rfl⟩
  | hostReceive =>
      cases steps
      exact ⟨.of_eq rfl, List.prefix_rfl⟩
  | handle spawned =>
      obtain ⟨takes, history⟩ := takes_of_handle steps
      exact ⟨takes.sameIds, by rw [history]⟩
  | readFails => exact carries (carries_of_steps steps (by simp) (by simp) (by simp))
  | leave => exact carries (carries_of_steps steps (by simp) (by simp) (by simp))
  | loop io => exact carries (carries_of_steps steps (by simp) (by simp) (by simp))
  | output index io =>
      exact carries (carries_of_steps steps (by simp) (by simp) (by simp))

/-- The stream has this service and this remote id. -/
def Knows (state : State) (index : Nat) (service : AdbService)
    (remoteId : UInt32) : Prop :=
  ∃ stream, state.streams[index]? = some stream ∧ stream.service = service ∧
    stream.remoteId = remoteId

theorem Knows.onward {state next : State} {index : Nat} {service : AdbService}
    {remoteId : UInt32} (knows : state.Knows index service remoteId)
    (same : SameIds state.ledger.accounts next.ledger.accounts) :
    next.Knows index service remoteId := by
  obtain ⟨stream, found, rfl, rfl⟩ := knows
  obtain ⟨account, known, service, _, isRemote⟩ :=
    same index stream.account (by simp [ledger, found])
  simp only [ledger, List.getElem?_map, Option.map_eq_some_iff] at known
  obtain ⟨stream', found', rfl⟩ := known
  exact ⟨stream', found', service, isRemote⟩

/-! ## Answers in terms of events -/

/-- The replies to an `OPEN`. -/
def OpenSettled (state : State) (record : Handled) : Prop :=
  (∃ localId, record.handling.replies =
    [.refused localId record.handling.packet.arg0]) ∨
  ∃ index service, record.handling.replies = [.opened index] ∧
    index ∈ record.sessions ∧
    state.Knows index service record.handling.packet.arg0

/-- A reply to a `WRTE`. -/
def Replied (state : State) (handling : Handling) : Prop :=
  (∃ localId, .refused localId handling.packet.arg0 ∈ handling.replies) ∨
  ∃ index service, state.Knows index service handling.packet.arg0 ∧
    (.acknowledged index ∈ handling.replies ∨ .closed index ∈ handling.replies)

def WriteSettled (state : State) (record : Handled) : Prop :=
  state.Replied record.handling ∨
  ∃ index, record.handling.named = some index ∧
    .closed index ∈ state.history.take record.events ∧
    .closed index ∉ record.handling.replies

def Settled (state : State) (record : Handled) : Prop :=
  (record.handling.packet.Decodable ∧
    (record.handling.packet.command = aOpen → state.OpenSettled record) ∧
    (record.handling.packet.command = aWrte → state.WriteSettled record)) ∨
  ¬record.handling.packet.Decodable ∧ record.handling.replies = []

theorem Replied.onward {state next : State} {handling : Handling}
    (replied : state.Replied handling)
    (same : SameIds state.ledger.accounts next.ledger.accounts) :
    next.Replied handling := by
  rcases replied with refused | ⟨index, service, knows, sent⟩
  · exact .inl refused
  · exact .inr ⟨index, service, knows.onward same, sent⟩

theorem Settled.onward {state next : State} {record : Handled}
    (settled : state.Settled record)
    (same : SameIds state.ledger.accounts next.ledger.accounts)
    (history : state.history <+: next.history) : next.Settled record := by
  rcases settled with ⟨decodable, opens, writes⟩ | undecodable
  · refine .inl ⟨decodable, fun isOpen => ?_, fun isWrite => ?_⟩
    · rcases opens isOpen with refused | ⟨index, service, sent, listed, knows⟩
      · exact .inl refused
      · exact .inr ⟨index, service, sent, listed, knows.onward same⟩
    · rcases writes isWrite with replied | ⟨index, named, closed, other⟩
      · exact .inl (replied.onward same)
      · refine .inr ⟨index, named, ?_, other⟩
        exact (history.take record.events).subset closed
  · exact .inr undecodable

theorem Settled.answered_iff {state : State} {record : Handled}
    (settled : state.Settled record) :
    Answered state record ↔ record.handling.packet.Decodable := by
  rcases settled with ⟨decodable, opens, writes⟩ | ⟨undecodable, silent⟩
  · refine ⟨fun _ => decodable, fun _ => ⟨fun isOpen => ?_, fun isWrite => ?_⟩⟩
    · rcases opens isOpen with ⟨localId, sent⟩ |
        ⟨index, service, sent, listed, stream, found, _, isRemote⟩
      · exact ⟨⟨aClse, localId, record.handling.packet.arg0, []⟩,
          by simp [sent, packetOf], rfl, .inl rfl⟩
      · exact ⟨⟨aOkay, stream.localId, stream.remoteId, []⟩,
          by simp [sent, packetOf, found], isRemote,
          .inr ⟨rfl, index, listed, stream, found, rfl⟩⟩
    · rcases writes isWrite with (⟨localId, sent⟩ |
        ⟨index, service, ⟨stream, found, _, isRemote⟩, sent⟩) | closed
      · exact .inl ⟨⟨aClse, localId, record.handling.packet.arg0, []⟩,
          List.mem_filterMap.mpr ⟨_, sent, rfl⟩, rfl, .inr rfl⟩
      · rcases sent with sent | sent
        · exact .inl ⟨⟨aOkay, stream.localId, stream.remoteId, []⟩,
            List.mem_filterMap.mpr ⟨_, sent, by simp [packetOf, found]⟩,
            isRemote, .inl rfl⟩
        · exact .inl ⟨⟨aClse, stream.localId, stream.remoteId, []⟩,
            List.mem_filterMap.mpr ⟨_, sent, by simp [packetOf, found]⟩,
            isRemote, .inr rfl⟩
      · exact .inr closed
  · refine ⟨fun answered => ?_, fun decodable => absurd decodable undecodable⟩
    intro isOpen
    obtain ⟨reply, sent, _⟩ := answered.opens isOpen
    simp [silent] at sent

/-! ## The packet that is handled -/

/-- The thread has closed the stream, and has sent `CLSE` or is about to. -/
def Announced (state : State) (index : Nat) : Prop :=
  .closed index ∈ state.history ∨
    ∃ stream, state.streams[index]? = some stream ∧ stream.output = .sendClose

/-- An `OPEN` that is handled, by where the packet loop is. -/
def OpenAnswers (state : State) (handling : Handling) : Loop → Prop
  | .refuse _ remoteId =>
      handling.replies = [] ∧ remoteId = handling.packet.arg0
  | .acknowledgeOpen index =>
      handling.replies = [] ∧
        ∃ service, state.Knows index service handling.packet.arg0
  | .drop _ (.allow index) =>
      handling.replies = [.opened index] ∧
        ∃ service, state.Knows index service handling.packet.arg0
  | .join _ _ (.allow index) =>
      handling.replies = [.opened index] ∧
        ∃ service, state.Knows index service handling.packet.arg0
  | .allow index =>
      handling.replies = [.opened index] ∧
        ∃ service, state.Knows index service handling.packet.arg0
  | _ => False

/-- A stream that is closed in a handler: the loop has replied, or its thread
has sent `CLSE` or will have when it is joined. -/
def Closes (state : State) (handling : Handling) (left : List Nat) : Prop :=
  state.Replied handling ∨ ∃ index service, handling.named = some index ∧
    state.Knows index service handling.packet.arg0 ∧
    (.closed index ∈ state.history ∨ index ∈ left ∧ state.Announced index)

/-- A `WRTE` that is handled, by where the packet loop is. -/
def WriteAnswers (state : State) (handling : Handling) : Loop → Prop
  | .refuse _ remoteId => remoteId = handling.packet.arg0
  | .acknowledgeWrite index _ =>
      handling.named = some index ∧
        ∃ service, state.Knows index service handling.packet.arg0
  | .input index _ =>
      handling.named = some index ∧
        ∃ service, state.Knows index service handling.packet.arg0 ∧
          (service = .sync → .acknowledged index ∈ handling.replies)
  | .queue index _ _ =>
      handling.named = some index ∧
        ∃ service, state.Knows index service handling.packet.arg0 ∧
          .acknowledged index ∈ handling.replies
  | .acknowledgeInput index =>
      ∃ service, state.Knows index service handling.packet.arg0
  | .close index false =>
      handling.named = some index ∧
        ∃ service, state.Knows index service handling.packet.arg0
  | .sendClose index false =>
      ∃ service, state.Knows index service handling.packet.arg0
  | .drop left (.returns none) => state.Closes handling left
  | .join index left (.returns none) => state.Closes handling (index :: left)
  | _ => False

/-- The packet loop is on its way to an answer. -/
structure Answers (state : State) (handling : Handling) : Prop where
  decodable : handling.packet.Decodable
  opens : handling.packet.command = aOpen →
    state.OpenAnswers handling state.loop
  writes : handling.packet.command = aWrte →
    state.WriteAnswers handling state.loop

/-- A stream that is open for the packet loop. -/
def Serves (state : State) (index : Nat) : Prop :=
  index ∈ state.sessions ∨ ∃ byHost, state.loop = .close index byHost

/-- No packet is handled here. -/
def Rests : Loop → Prop
  | .idle => True
  | .stopped => True
  | .drop _ .cleared => True
  | .drop _ .stopped => True
  | .join _ _ .cleared => True
  | .join _ _ .stopped => True
  | _ => False

structure Replying (state : State) : Prop where
  regular : Regular state
  rests : Rests state.loop → state.handling = none
  closers : ∀ index stream, state.streams[index]? = some stream →
    state.Serves index → stream.flow.closed = true → state.Announced index
  answers : ∀ handling ∈ state.handling, state.Answers handling
  handled : ∀ record ∈ state.handled, state.Settled record

theorem Replying.initially : Replying startState where
  regular := .initially
  rests _ := rfl
  closers := by simp [startState]
  answers := by simp [startState]
  handled := by simp [startState]

/-! ## How a handler ends -/

/-- What holds of a handler when it returns, whatever its place was. -/
def Ends (state : State) (handling : Handling) : Prop :=
  state.Settled ⟨handling, state.sessions, state.history.length⟩

theorem handling_returns (state : State) (fault : Option Bool) :
    (state.returns fault).handling = none := by
  unfold returns
  split <;> rfl

theorem handled_returns (state : State) (fault : Option Bool) :
    (state.returns fault).handled = state.handled ++
      state.handling.toList.map fun handling =>
        ⟨handling, state.sessions, state.history.length⟩ := by
  unfold returns
  split <;> rfl

theorem streams_returns (state : State) (fault : Option Bool) :
    (state.returns fault).streams = state.streams := by
  unfold returns
  split <;> rfl

theorem history_returns (state : State) (fault : Option Bool) :
    (state.returns fault).history = state.history := by
  unfold returns
  split <;> rfl

theorem serves_returns {state : State} {fault : Option Bool} {index : Nat}
    (serves : (state.returns fault).Serves index) : index ∈ state.sessions := by
  unfold returns at serves
  split at serves
  · rcases serves with listed | ⟨byHost, loop⟩
    · simp [clear] at listed
    · simp [clear] at loop
  · rcases serves with listed | ⟨byHost, loop⟩
    · exact listed
    · simp [goto] at loop

/-- The parts of the invariant that a step within a handler keeps. -/
structure Rest (state : State) : Prop where
  closers : ∀ index stream, state.streams[index]? = some stream →
    index ∈ state.sessions → stream.flow.closed = true → state.Announced index
  handled : ∀ record ∈ state.handled, state.Settled record

theorem Rest.returns {state : State} {fault : Option Bool}
    (rest : Rest state)
    (ends : ∀ handling ∈ state.handling, state.Ends handling)
    (regular : Regular (state.returns fault)) :
    Replying (state.returns fault) := by
  have same : SameIds state.ledger.accounts
      (state.returns fault).ledger.accounts :=
    .of_eq (by rw [ledger, ledger, streams_returns])
  have history : state.history <+: (state.returns fault).history := by
    rw [history_returns]
  refine ⟨regular, fun _ => handling_returns _ _, ?_, ?_, ?_⟩
  · intro index stream found serves closed
    rw [streams_returns] at found
    have announced :=
      rest.closers index stream found (serves_returns serves) closed
    unfold Announced at announced ⊢
    rwa [history_returns, streams_returns]
  · simp [handling_returns]
  · intro record member
    rw [handled_returns] at member
    refine Settled.onward ?_ same history
    rcases List.mem_append.mp member with before | last
    · exact rest.handled record before
    · obtain ⟨handling, known, rfl⟩ := List.mem_map.mp last
      exact ends handling (Option.mem_toList.mp known)

theorem sameIds_update {state : State} {index : Nat}
    {change : Stream → Stream}
    (keeps : ∀ stream, (change stream).service = stream.service ∧
      (change stream).localId = stream.localId ∧
      (change stream).remoteId = stream.remoteId) :
    SameIds state.ledger.accounts
      (state.update index change).ledger.accounts := by
  intro other account found
  simp only [ledger, List.getElem?_map, Option.map_eq_some_iff] at found
  obtain ⟨stream, found, rfl⟩ := found
  simp only [ledger, State.update, List.getElem?_map, List.getElem?_modify,
    found]
  by_cases same : index = other
  · exact ⟨(change stream).account, by simp [same], keeps stream⟩
  · exact ⟨stream.account, by simp [same], rfl, rfl, rfl⟩

theorem announced_update {state : State} {index other : Nat}
    {change : Stream → Stream}
    (output : ∀ stream, (change stream).output = stream.output)
    (announced : state.Announced other) :
    (state.update index change).Announced other := by
  rcases announced with sent | ⟨stream, found, waits⟩
  · exact .inl sent
  · refine .inr ⟨if index = other then change stream else stream, ?_, ?_⟩
    · rw [State.update, List.getElem?_modify, found]
      rfl
    · split
      · rwa [output]
      · exact waits

theorem Replying.rest {state : State} (replying : Replying state) :
    Rest state where
  closers index stream found listed :=
    replying.closers index stream found (.inl listed)
  handled := replying.handled

namespace Rest

variable {state next : State}

theorem same (rest : Rest state) (streams : next.streams = state.streams)
    (sessions : next.sessions = state.sessions)
    (history : next.history = state.history)
    (handled : next.handled = state.handled) : Rest next where
  closers := by
    unfold Announced
    rw [streams, sessions, history]
    exact rest.closers
  handled record member := by
    rw [handled] at member
    refine (rest.handled record member).onward (.of_eq ?_) (by rw [history])
    rw [ledger, ledger, streams]

theorem reply (rest : Rest state) (event : Event) (result : SendResult) :
    Rest (state.reply event result) where
  closers index stream found listed closed := by
    rw [reply_streams] at found
    rw [reply_sessions] at listed
    rcases rest.closers index stream found listed closed with sent | waits
    · have carries : Carries state (state.reply event result) :=
        .reply event result
      exact .inl (carries.history.subset sent)
    · refine .inr ?_
      rwa [reply_streams]
  handled record member := by
    have handled : (state.reply event result).handled = state.handled := by
      unfold State.reply
      split <;> rfl
    rw [handled] at member
    have carries : Carries state (state.reply event result) := .reply event result
    exact (rest.handled record member).onward
      (.of_eq (congrArg Ledger.accounts carries.ledger)) carries.history

/-- A stream changes that is not in the table, or stays open as it was. -/
theorem update (rest : Rest state) (index : Nat) {change : Stream → Stream}
    (keeps : ∀ stream, (change stream).service = stream.service ∧
      (change stream).localId = stream.localId ∧
      (change stream).remoteId = stream.remoteId)
    (output : ∀ stream, (change stream).output = stream.output)
    (stays : index ∉ state.sessions ∨ ∀ stream,
      (change stream).flow.closed = stream.flow.closed) :
    Rest (state.update index change) where
  closers other stream found listed closed := by
    obtain ⟨before, known, rfl⟩ : ∃ before, state.streams[other]? =
        some before ∧ (if index = other then change before else before) =
          stream := by
      rw [State.update, List.getElem?_modify] at found
      exact Option.map_eq_some_iff.mp found
    refine announced_update output ?_
    refine rest.closers other before known listed ?_
    split at closed
    · rename_i same
      subst same
      rcases stays with outside | stays
      · exact absurd listed outside
      · rwa [stays] at closed
    · exact closed
  handled record member :=
    (rest.handled record member).onward (sameIds_update keeps)
      List.prefix_rfl

/-- A session leaves the table. -/
theorem remove (rest : Rest state) (index : Nat) :
    Rest (state.remove index) where
  closers other stream found listed closed :=
    rest.closers other stream found (List.mem_of_mem_filter listed) closed
  handled record member :=
    (rest.handled record member).onward (.of_eq rfl) List.prefix_rfl

/-- The handler goes on. -/
theorem enters (rest : Rest state) {loop : Loop}
    (regular : Regular (state.goto loop))
    (rests : Rests loop → state.handling = none)
    (closing : ∀ index byHost, loop = .close index byHost →
      ∀ stream, state.streams[index]? = some stream →
        stream.flow.closed = true → state.Announced index)
    (answers : ∀ handling ∈ state.handling,
      (state.goto loop).Answers handling) : Replying (state.goto loop) where
  regular := regular
  rests := rests
  closers index stream found serves closed := by
    rcases serves with listed | ⟨byHost, isClose⟩
    · exact rest.closers index stream found listed closed
    · exact closing index byHost isClose stream found closed
  answers := answers
  handled record member :=
    (rest.handled record member).onward (.of_eq rfl) List.prefix_rfl

/-- All sessions are dropped. -/
theorem clears (rest : Rest state) {after : After}
    (regular : Regular (state.clear after))
    (rests : Rests (.drop state.sessions after) → state.handling = none)
    (answers : ∀ handling ∈ state.handling,
      handling.packet.command ≠ aOpen ∧ handling.packet.command ≠ aWrte) :
    Replying (state.clear after) where
  regular := regular
  rests := rests
  closers := by simp [State.clear, Serves]
  answers handling member := by
    obtain ⟨noOpen, noWrite⟩ := answers handling member
    exact ⟨fun isOpen => absurd isOpen noOpen,
      fun isOpen => absurd isOpen noOpen, fun isWrite => absurd isWrite noWrite⟩
  handled record member :=
    (rest.handled record member).onward (.of_eq rfl) List.prefix_rfl

end Rest

/-! ## What a step of an output thread keeps -/

theorem Closes.onward {state next : State} {handling : Handling}
    {left : List Nat} (closes : state.Closes handling left)
    (same : SameIds state.ledger.accounts next.ledger.accounts)
    (history : state.history <+: next.history)
    (announced : ∀ index, state.Announced index → next.Announced index) :
    next.Closes handling left := by
  rcases closes with replied | ⟨index, service, named, knows, closed⟩
  · exact .inl (replied.onward same)
  · refine .inr ⟨index, service, named, knows.onward same, ?_⟩
    exact closed.imp (fun sent => history.subset sent)
      fun ⟨member, waits⟩ => ⟨member, announced index waits⟩

theorem Answers.onward {state next : State} {handling : Handling}
    (answers : state.Answers handling)
    (same : SameIds state.ledger.accounts next.ledger.accounts)
    (history : state.history <+: next.history)
    (announced : ∀ index, state.Announced index → next.Announced index)
    (loop : next.loop = state.loop) : next.Answers handling := by
  refine ⟨answers.decodable, fun isOpen => ?_, fun isWrite => ?_⟩
  · have opens := answers.opens isOpen
    rw [loop]
    revert opens
    have knows : ∀ index, (∃ service,
        state.Knows index service handling.packet.arg0) →
        ∃ service, next.Knows index service handling.packet.arg0 :=
      fun index ⟨service, knows⟩ => ⟨service, knows.onward same⟩
    cases state.loop with
    | refuse localId remoteId => exact id
    | acknowledgeOpen index => exact And.imp_right (knows index)
    | allow index => exact And.imp_right (knows index)
    | drop left after =>
        cases after with
        | allow index => exact And.imp_right (knows index)
        | _ => exact id
    | join i left after =>
        cases after with
        | allow index => exact And.imp_right (knows index)
        | _ => exact id
    | _ => exact id
  · have writes := answers.writes isWrite
    rw [loop]
    revert writes
    cases state.loop with
    | refuse localId remoteId => exact id
    | acknowledgeWrite index payload =>
        exact fun ⟨named, service, knows⟩ =>
          ⟨named, service, knows.onward same⟩
    | input index payload =>
        exact fun ⟨named, service, knows, sent⟩ =>
          ⟨named, service, knows.onward same, sent⟩
    | queue index left accepted =>
        exact fun ⟨named, service, knows, sent⟩ =>
          ⟨named, service, knows.onward same, sent⟩
    | acknowledgeInput index =>
        exact fun ⟨service, knows⟩ => ⟨service, knows.onward same⟩
    | close index byHost =>
        cases byHost with
        | true => exact id
        | false =>
            exact fun ⟨named, service, knows⟩ =>
              ⟨named, service, knows.onward same⟩
    | sendClose index byHost =>
        cases byHost with
        | true => exact id
        | false => exact fun ⟨service, knows⟩ => ⟨service, knows.onward same⟩
    | drop left after =>
        cases after with
        | returns fault =>
            cases fault with
            | none => exact fun closes => closes.onward same history announced
            | some _ => exact id
        | _ => exact id
    | join i left after =>
        cases after with
        | returns fault =>
            cases fault with
            | none => exact fun closes => closes.onward same history announced
            | some _ => exact id
        | _ => exact id
    | _ => exact id

/-! ## Every step keeps the way to an answer -/

theorem commands_differ : aOpen ≠ aWrte ∧ aCnxn ≠ aOpen ∧ aCnxn ≠ aWrte ∧
    aOkay ≠ aOpen ∧ aOkay ≠ aWrte ∧ aClse ≠ aOpen ∧ aClse ≠ aWrte := by
  decide

theorem begin_handling {state : State} {packet : Packet}
    (rest : List Packet) {handling : Handling}
    (member : handling ∈ (state.begin packet rest).handling) :
    handling = ⟨packet, state.lookup packet.arg1, []⟩ :=
  (Option.some.inj member).symm

theorem settled_other {state : State} {record : Handled}
    (decodable : record.handling.packet.Decodable)
    (noOpen : record.handling.packet.command ≠ aOpen)
    (noWrite : record.handling.packet.command ≠ aWrte) :
    state.Settled record :=
  .inl ⟨decodable, fun isOpen => absurd isOpen noOpen,
    fun isWrite => absurd isWrite noWrite⟩

theorem Replying.handle {state next : State} {spawned : Bool}
    (replying : Replying state) (steps : Steps state (.handle spawned) next) :
    Replying next := by
  have regular := replying.regular.step steps
  have begins : ∀ packet rest, Rest (state.begin packet rest) :=
    fun _ _ => replying.rest.same rfl rfl rfl rfl
  obtain ⟨openWrite, connectOpen, connectWrite, okayOpen, okayWrite, closeOpen,
    closeWrite⟩ := commands_differ
  cases steps with
  | @connect packet rest spawned reads command =>
      have agreed : Rest { state.begin packet rest with
          maxPayload := max maxPayloadV1 (min packet.arg1 Adb.maxPayload) } :=
        (begins packet rest).same rfl rfl rfl rfl
      refine agreed.clears regular False.elim fun handling member => ?_
      obtain rfl := begin_handling rest member
      exact ⟨command ▸ connectOpen, command ▸ connectWrite⟩
  | @openUndecodable packet rest spawned reads command error name =>
      refine Rest.returns ((begins packet rest).same rfl rfl rfl rfl)
        (fun handling member => ?_) regular
      obtain rfl := begin_handling rest member
      refine .inr ⟨fun decodable => ?_, rfl⟩
      have named := decodable command
      simp [name, Run.toOption] at named
  | @openRefused packet rest spawned reads command name named before allocates =>
      have decodable : packet.Decodable := fun _ => by
        simp [named, Run.toOption]
      have refuses : ∀ mid : State, Rest mid →
          mid.handling = (state.begin packet rest).handling →
          Regular (mid.goto (.refuse 0 packet.arg0)) →
          Replying (mid.goto (.refuse 0 packet.arg0)) := by
        intro mid rest' same regular
        refine rest'.enters regular False.elim (by simp) fun handling member => ?_
        rw [same] at member
        obtain rfl := begin_handling rest member
        exact ⟨decodable, fun _ => ⟨rfl, rfl⟩,
          fun isWrite => absurd (command.symm.trans isWrite) openWrite⟩
      rcases allocates with rfl | rfl
      · exact refuses _ ((begins packet rest).same rfl rfl rfl rfl) rfl regular
      · exact refuses _ ((begins packet rest).same rfl rfl rfl rfl) rfl regular
  | @openSpawned packet rest spawned reads command name named service =>
      have decodable : packet.Decodable := fun _ => by
        simp [named, Run.toOption]
      have listed := replying.regular.owned.spawned
      have appended : Rest { (state.begin packet rest).countOpen.allocate with
          streams := state.streams ++
            [Stream.spawn state.nextLocalId packet.arg0 service] } := by
        have kept : SameIds state.ledger.accounts
            ((state.streams ++ [Stream.spawn state.nextLocalId packet.arg0
              service]).map Stream.account) := by
          intro index account found
          refine ⟨account, ?_, rfl, rfl, rfl⟩
          have bound := (List.getElem?_eq_some_iff.mp found).1
          rw [List.map_append]
          exact (List.getElem?_append_left bound).trans found
        refine ⟨fun index stream found member closed => ?_,
          fun record member => (replying.handled record member).onward kept
            List.prefix_rfl⟩
        have bound := listed index (List.mem_append_left _ member)
        have found' : state.streams[index]? = some stream := by
          rwa [List.getElem?_append_left bound] at found
        refine (replying.closers index stream found' (.inl member) closed).imp
          id fun ⟨stream', known, waits⟩ => ⟨stream', ?_, waits⟩
        rwa [List.getElem?_append_left bound]
      refine appended.enters regular False.elim (by simp) fun handling member => ?_
      obtain rfl := begin_handling rest member
      refine ⟨decodable, fun _ => ⟨rfl, service, ?_⟩,
        fun isWrite => absurd (command.symm.trans isWrite) openWrite⟩
      exact ⟨.spawn state.nextLocalId packet.arg0 service,
        List.getElem?_concat_length, rfl, rfl⟩
  | @writeRefused packet rest spawned reads command localId =>
      have noOpen : packet.command ≠ aOpen := command ▸ openWrite.symm
      refine (begins packet rest).enters regular False.elim (by simp)
        fun handling member => ?_
      obtain rfl := begin_handling rest member
      exact ⟨fun isOpen => absurd isOpen noOpen,
        fun isOpen => absurd isOpen noOpen, fun _ => rfl⟩
  | @writeSync packet rest spawned reads command index named stream found
      remote sync =>
      have noOpen : packet.command ≠ aOpen := command ▸ openWrite.symm
      refine (begins packet rest).enters regular False.elim (by simp)
        fun handling member => ?_
      obtain rfl := begin_handling rest member
      exact ⟨fun isOpen => absurd isOpen noOpen,
        fun isOpen => absurd isOpen noOpen,
        fun _ => ⟨named, stream.service, stream, found, rfl, remote⟩⟩
  | @writeInput packet rest spawned reads command index named stream found
      remote other =>
      have noOpen : packet.command ≠ aOpen := command ▸ openWrite.symm
      refine (begins packet rest).enters regular False.elim (by simp)
        fun handling member => ?_
      obtain rfl := begin_handling rest member
      exact ⟨fun isOpen => absurd isOpen noOpen,
        fun isOpen => absurd isOpen noOpen,
        fun _ => ⟨named, stream.service, ⟨stream, found, rfl, remote⟩,
          fun sync => absurd sync other⟩⟩
  | @okay packet rest spawned reads command index accepts =>
      have noOpen : packet.command ≠ aOpen := command ▸ okayOpen
      have accepted : Rest ((state.begin packet rest).update index
          Stream.acknowledgeOutput) := by
        refine (begins packet rest).update index (fun _ => ⟨rfl, rfl, rfl⟩)
          (fun _ => rfl) (.inr fun stream => ?_)
        simp [Stream.acknowledgeOutput]
      refine accepted.returns (fun handling member => ?_) regular
      obtain rfl := begin_handling rest member
      exact settled_other (fun isOpen => absurd isOpen noOpen) noOpen
        (command ▸ okayWrite)
  | @close packet rest spawned reads command index named =>
      have noOpen : packet.command ≠ aOpen := command ▸ closeOpen
      have removed : Rest ((state.begin packet rest).remove index) :=
        (begins packet rest).remove index
      refine removed.enters regular False.elim ?_ fun handling member => ?_
      · intro other byHost same stream found closed
        obtain ⟨rfl, _⟩ := Loop.close.inj same
        exact replying.closers _ stream found (.inl (lookup_mem named)) closed
      · obtain rfl := begin_handling rest member
        exact ⟨fun isOpen => absurd isOpen noOpen,
          fun isOpen => absurd isOpen noOpen,
          fun isWrite => absurd isWrite (command ▸ closeWrite)⟩
  | @ignored packet rest spawned reads command =>
      refine (begins packet rest).returns (fun handling member => ?_) regular
      obtain rfl := begin_handling rest member
      exact settled_other (fun isOpen => absurd isOpen command.1) command.1
        command.2
  | @tooLarge packet rest spawned reads =>
      have none' : state.handling = none :=
        replying.rests (by rw [reads.idle]; trivial)
      have read : Rest { state with rx := rest } :=
        replying.rest.same rfl rfl rfl rfl
      refine read.clears regular (fun _ => none') fun handling member => ?_
      rw [Option.mem_def, none'] at member
      simp at member

/-- What holds of the packet that is handled, at a place of the loop. -/
theorem Replying.here {state : State} {loop : Loop} (replying : Replying state)
    (same : state.loop = loop) {handling : Handling}
    (member : handling ∈ state.handling) :
    handling.packet.Decodable ∧
      (handling.packet.command = aOpen → state.OpenAnswers handling loop) ∧
      (handling.packet.command = aWrte → state.WriteAnswers handling loop) := by
  subst same
  obtain ⟨decodable, opens, writes⟩ := replying.answers handling member
  exact ⟨decodable, opens, writes⟩

/-- A session that the loop closes has been closed by its thread, or else the
loop sends `CLSE`. -/
theorem Replying.closeSession {state : State} {index : Nat} {byHost : Bool}
    {stream : Stream} (replying : Replying state)
    (loop : state.loop = .close index byHost)
    (found : state.streams[index]? = some stream)
    (regular : Regular ((state.update index Stream.close).goto
      (if stream.flow.close.1 then .sendClose index byHost
        else .drop [index] (afterClose index byHost none)))) :
    Replying ((state.update index Stream.close).goto
      (if stream.flow.close.1 then .sendClose index byHost
        else .drop [index] (afterClose index byHost none))) := by
  have distinct := replying.regular.owned.distinct
  rw [loop] at distinct
  have outside : index ∉ state.sessions := fun member =>
    (List.nodup_append.mp distinct).2.2 index member index (.head _) rfl
  have keeps : ∀ stream : Stream, stream.close.service = stream.service ∧
      stream.close.localId = stream.localId ∧
      stream.close.remoteId = stream.remoteId := fun _ => ⟨rfl, rfl, rfl⟩
  have rest : Rest (state.update index Stream.close) :=
    replying.rest.update index keeps (fun _ => rfl) (.inl outside)
  have same : SameIds state.ledger.accounts
      (state.update index Stream.close).ledger.accounts := sameIds_update keeps
  refine rest.enters regular ?_ ?_ fun handling member => ?_
  · split
    · exact False.elim
    · cases byHost <;> exact False.elim
  · intro other byHost' isClose
    split at isClose <;> simp at isClose
  · obtain ⟨decodable, opens, writes⟩ := replying.here loop member
    refine ⟨decodable, fun isOpen => (opens isOpen).elim, fun isWrite => ?_⟩
    have closing := writes isWrite
    cases byHost with
    | true => exact closing.elim
    | false =>
        obtain ⟨named, service, knows⟩ := closing
        cases closed : stream.flow.closed with
        | false =>
            have isFirst : stream.flow.close.1 = true := by simp [closed]
            change WriteAnswers _ _ (if _ then _ else _)
            rw [if_pos isFirst]
            exact ⟨service, knows.onward same⟩
        | true =>
            have isLater : ¬stream.flow.close.1 = true := by simp [closed]
            change WriteAnswers _ _ (if _ then _ else _)
            rw [if_neg isLater]
            have announced := replying.closers index stream found
              (.inr ⟨false, loop⟩) closed
            have waits : (state.update index Stream.close).Announced index :=
              announced_update (fun _ => rfl) announced
            exact .inr ⟨index, service, named, knows.onward same,
              .inr ⟨.head _, waits⟩⟩

theorem reply_handling {state : State} {event : Event} {handling : Handling}
    (member : handling ∈ (state.reply event .sent).handling) :
    ∃ before ∈ state.handling, handling =
      { before with replies := before.replies ++ [event] } := by
  obtain ⟨before, known, rfl⟩ := Option.map_eq_some_iff.mp member
  exact ⟨before, known, rfl⟩

/-- The last reply of a handler. -/
theorem Replying.replyLast {state : State} {event : Event}
    (replying : Replying state)
    (regular : Regular (state.replyLast event .sent))
    (ends : ∀ handling ∈ state.handling, handling.packet.Decodable ∧
      (handling.packet.command = aOpen →
        state.OpenSettled ⟨{ handling with
          replies := handling.replies ++ [event] }, state.sessions, 0⟩) ∧
      (handling.packet.command = aWrte →
        state.Replied { handling with
          replies := handling.replies ++ [event] })) :
    Replying (state.replyLast event .sent) := by
  refine (replying.rest.reply event .sent).returns (fun handling member => ?_)
    regular
  obtain ⟨before, known, rfl⟩ := reply_handling member
  obtain ⟨decodable, opens, writes⟩ := ends before known
  exact .inl ⟨decodable, opens, fun isWrite => .inl (writes isWrite)⟩

theorem Replying.loop {state next : State} {io : LoopIo}
    (replying : Replying state) (sends : io.send = .sent)
    (steps : Steps state (.loop io) next) : Replying next := by
  have regular := replying.regular.step steps
  have rest := replying.rest
  have owned := replying.regular.owned
  have noFailure : ∀ {disconnect delivered : Bool},
      io.send ≠ .failed disconnect delivered := by simp [sends]
  cases steps with
  | @dropped io after loop =>
      cases after with
      | returns fault =>
          refine rest.returns (fun handling member => ?_) regular
          obtain ⟨decodable, opens, writes⟩ := replying.here loop member
          refine .inl ⟨decodable, fun isOpen => (opens isOpen).elim,
            fun isWrite => ?_⟩
          have closing := writes isWrite
          cases fault with
          | some _ => exact closing.elim
          | none =>
              rcases closing with replied | ⟨index, service, named, knows, closed⟩
              · exact .inl replied
              · have sent := closed.resolve_right fun waits => by simp at waits
                by_cases own : .closed index ∈ handling.replies
                · exact .inl (.inr ⟨index, service, knows, .inr own⟩)
                · exact .inr ⟨index, named, by
                    rwa [List.take_length], own⟩
      | closedByHost index fault =>
          have recorded : Rest (state.record (.closedByHost index)) := by
            have carries : Carries state (state.record (.closedByHost index)) :=
              .record _
            refine ⟨fun other stream found listed closed => ?_,
              fun record member => (rest.handled record member).onward
                (.of_eq rfl) carries.history⟩
            exact (rest.closers other stream found listed closed).imp
              (fun sent => carries.history.subset sent) id
          refine recorded.returns (fun handling member => ?_) regular
          obtain ⟨decodable, opens, writes⟩ := replying.here loop member
          exact settled_other decodable (fun isOpen => (opens isOpen).elim)
            fun isWrite => (writes isWrite).elim
      | hello maxPayload =>
          refine rest.enters regular False.elim (by simp)
            fun handling member => ?_
          obtain ⟨decodable, opens, writes⟩ := replying.here loop member
          exact ⟨decodable, fun isOpen => (opens isOpen).elim,
            fun isWrite => (writes isWrite).elim⟩
      | allow index =>
          refine rest.enters regular False.elim (by simp)
            fun handling member => ?_
          obtain ⟨decodable, opens, writes⟩ := replying.here loop member
          exact ⟨decodable, opens, fun isWrite => (writes isWrite).elim⟩
      | cleared =>
          have none' : state.handling = none :=
            replying.rests (by rw [loop]; trivial)
          refine rest.enters regular (fun _ => none') (by simp)
            fun handling member => ?_
          rw [Option.mem_def, none'] at member
          simp at member
      | stopped =>
          have none' : state.handling = none :=
            replying.rests (by rw [loop]; trivial)
          refine rest.enters regular (fun _ => none') (by simp)
            fun handling member => ?_
          rw [Option.mem_def, none'] at member
          simp at member
  | @drop io left after loop picked =>
      have distinct := owned.distinct
      rw [loop] at distinct
      have outside : io.pick ∉ state.sessions := fun member =>
        (List.nodup_append.mp distinct).2.2 _ member _ picked rfl
      have keeps : ∀ stream : Stream, stream.close.service = stream.service ∧
          stream.close.localId = stream.localId ∧
          stream.close.remoteId = stream.remoteId := fun _ => ⟨rfl, rfl, rfl⟩
      have closed : Rest (state.update io.pick Stream.close) :=
        rest.update io.pick keeps (fun _ => rfl) (.inl outside)
      have same : SameIds state.ledger.accounts
          (state.update io.pick Stream.close).ledger.accounts :=
        sameIds_update keeps
      have held : ∀ index ∈ left, index ∈ io.pick :: left.erase io.pick :=
        (List.perm_cons_erase picked).subset
      refine closed.enters regular ?_ (by simp) fun handling member => ?_
      · intro rests
        refine replying.rests ?_
        rw [loop]
        cases after <;> exact rests
      · obtain ⟨decodable, opens, writes⟩ := replying.here loop member
        refine ⟨decodable, fun isOpen => ?_, fun isWrite => ?_⟩
        · have opening := opens isOpen
          cases after with
          | allow index =>
              obtain ⟨sent, service, knows⟩ := opening
              exact ⟨sent, service, knows.onward same⟩
          | _ => exact opening
        · have writing := writes isWrite
          cases after with
          | returns fault =>
              cases fault with
              | some _ => exact writing
              | none =>
                  have kept := Closes.onward writing same List.prefix_rfl
                    fun index => announced_update fun _ => rfl
                  exact kept.imp id fun ⟨index, service, named, knows, ends⟩ =>
                    ⟨index, service, named, knows, ends.imp id
                      fun ⟨member, waits⟩ => ⟨held index member, waits⟩⟩
          | _ => exact writing
  | @join io index left after loop stream found done =>
      refine rest.enters regular ?_ (by simp) fun handling member => ?_
      · intro rests
        refine replying.rests ?_
        rw [loop]
        cases after <;> exact rests
      · obtain ⟨decodable, opens, writes⟩ := replying.here loop member
        refine ⟨decodable, fun isOpen => ?_, fun isWrite => ?_⟩
        · have opening := opens isOpen
          cases after <;> exact opening
        · have writing := writes isWrite
          cases after with
          | returns fault =>
              cases fault with
              | some _ => exact writing
              | none =>
                  refine writing.imp id
                    fun ⟨other, service, named, knows, ends⟩ =>
                      ⟨other, service, named, knows, ?_⟩
                  rcases ends with sent | ⟨member, sent | ⟨stream', found', waits⟩⟩
                  · exact .inl sent
                  · exact .inl sent
                  · rcases List.mem_cons.mp member with rfl | member
                    -- A thread that has been joined has sent its packet.
                    · obtain rfl := Option.some.inj (found.symm.trans found')
                      simp [done] at waits
                    · exact .inr ⟨member, .inr ⟨stream', found', waits⟩⟩
          | _ => exact writing
  | @hello io maxPayload loop =>
      have neither : ∀ handling ∈ state.handling, handling.packet.Decodable ∧
          handling.packet.command ≠ aOpen ∧
          handling.packet.command ≠ aWrte := by
        intro handling member
        obtain ⟨decodable, opens, writes⟩ := replying.here loop member
        exact ⟨decodable, fun isOpen => (opens isOpen).elim,
          fun isWrite => (writes isWrite).elim⟩
      refine (rest.reply _ _).returns (fun handling member => ?_) regular
      have known : ∃ before ∈ state.handling,
          handling.packet = before.packet := by
        unfold State.reply at member
        split at member
        · obtain ⟨before, known, rfl⟩ := Option.map_eq_some_iff.mp member
          exact ⟨before, known, rfl⟩
        · exact ⟨handling, member, rfl⟩
      obtain ⟨before, known, same⟩ := known
      obtain ⟨decodable, noOpen, noWrite⟩ := neither before known
      rw [← same] at decodable noOpen noWrite
      exact settled_other decodable noOpen noWrite
  | @acknowledgeOpen io index loop sent =>
      have replied := rest.reply (.opened index) .sent
      have opened : ∀ stream, state.streams[index]? = some stream →
          stream.flow.closed = false := fun stream found =>
        ((replying.regular.lives index stream found).placed.fresh
          (.inl (place_held (by rw [loop]; simp)))).2
      have inserted : Rest { state.reply (.opened index) .sent with
          sessions := ((state.reply (.opened index) .sent).insertSession
            index).sessions } := by
        refine ⟨fun other stream found listed closed => ?_, replied.handled⟩
        rcases List.mem_cons.mp listed with rfl | kept
        · rw [opened stream found] at closed
          simp at closed
        · exact replied.closers other stream found
            (List.mem_of_mem_filter kept) closed
      refine inserted.enters regular False.elim (by simp)
        fun handling member => ?_
      obtain ⟨before, known, rfl⟩ := reply_handling member
      obtain ⟨decodable, opens, writes⟩ := replying.here loop known
      refine ⟨decodable, fun isOpen => ?_, fun isWrite => (writes isWrite).elim⟩
      obtain ⟨silent, knows⟩ := opens isOpen
      exact ⟨by simp [silent], knows⟩
  | acknowledgeOpenFails loop failed => exact absurd failed noFailure
  | @allow io index loop =>
      have allowed : Rest (state.update index Stream.allowOutput) :=
        rest.update index (fun _ => ⟨rfl, rfl, rfl⟩) (fun _ => rfl)
          (.inr fun stream => by simp [Stream.allowOutput])
      refine allowed.returns (fun handling member => ?_) regular
      obtain ⟨decodable, opens, writes⟩ := replying.here loop member
      refine .inl ⟨decodable, fun isOpen => ?_,
        fun isWrite => (writes isWrite).elim⟩
      obtain ⟨sent, service, knows⟩ := opens isOpen
      have listed : index ∈ state.sessions := owned.listed index (by
        rw [loop]
        exact .head _)
      exact .inr ⟨index, service, sent, listed,
        knows.onward (sameIds_update fun _ => ⟨rfl, rfl, rfl⟩)⟩
  | @acknowledgeWrite io index payload loop sent =>
      refine (rest.reply (.acknowledged index) .sent).enters regular False.elim
        (by simp) fun handling member => ?_
      obtain ⟨before, known, rfl⟩ := reply_handling member
      obtain ⟨decodable, opens, writes⟩ := replying.here loop known
      refine ⟨decodable, fun isOpen => (opens isOpen).elim, fun isWrite => ?_⟩
      obtain ⟨named, service, knows⟩ := writes isWrite
      exact ⟨named, service, knows, fun _ => by simp⟩
  | acknowledgeWriteFails loop failed => exact absurd failed noFailure
  | @inputSync io index payload loop stream found sync input pushed accepted =>
      have changed : Rest (state.update index fun stream =>
          { stream with input }) :=
        rest.update index (fun _ => ⟨rfl, rfl, rfl⟩) (fun _ => rfl)
          (.inr fun _ => rfl)
      refine changed.enters regular False.elim (by simp)
        fun handling member => ?_
      obtain ⟨decodable, opens, writes⟩ := replying.here loop member
      refine ⟨decodable, fun isOpen => (opens isOpen).elim, fun isWrite => ?_⟩
      obtain ⟨named, service, knows, sent⟩ := writes isWrite
      have isSync : service = .sync := by
        obtain ⟨other, found', rfl, _⟩ := knows
        obtain rfl := Option.some.inj (found.symm.trans found')
        exact sync
      exact ⟨named, service, knows.onward
        (sameIds_update fun _ => ⟨rfl, rfl, rfl⟩), sent isSync⟩
  | @input io index payload loop stream found other =>
      refine rest.enters regular False.elim (by simp)
        fun handling member => ?_
      obtain ⟨decodable, opens, writes⟩ := replying.here loop member
      refine ⟨decodable, fun isOpen => (opens isOpen).elim, fun isWrite => ?_⟩
      obtain ⟨named, service, knows, _⟩ := writes isWrite
      exact ⟨service, knows⟩
  | @inputFails io index loop =>
      have listed : index ∈ state.sessions := by
        refine owned.listed index ?_
        rcases loop with ⟨payload, loop, _⟩ | ⟨left, accepted, loop⟩ <;>
          rw [loop] <;> exact .head _
      refine (rest.remove index).enters regular False.elim ?_
        fun handling member => ?_
      · intro other byHost same stream found closed
        obtain ⟨rfl, _⟩ := Loop.close.inj same
        exact replying.closers _ stream found (.inl listed) closed
      · rcases loop with ⟨payload, loop, _⟩ | ⟨left, accepted, loop⟩
        · obtain ⟨decodable, opens, writes⟩ := replying.here loop member
          refine ⟨decodable, fun isOpen => (opens isOpen).elim,
            fun isWrite => ?_⟩
          obtain ⟨named, service, knows, _⟩ := writes isWrite
          exact ⟨named, service, knows⟩
        · obtain ⟨decodable, opens, writes⟩ := replying.here loop member
          refine ⟨decodable, fun isOpen => (opens isOpen).elim,
            fun isWrite => ?_⟩
          obtain ⟨named, service, knows, _⟩ := writes isWrite
          exact ⟨named, service, knows⟩
  | @queued io index loop =>
      refine rest.returns (fun handling member => ?_) regular
      obtain ⟨decodable, opens, writes⟩ := replying.here loop member
      refine .inl ⟨decodable, fun isOpen => (opens isOpen).elim,
        fun isWrite => ?_⟩
      obtain ⟨named, service, knows, sent⟩ := writes isWrite
      exact .inl (.inr ⟨index, service, knows, .inl sent⟩)
  | @queue io index response left accepted loop =>
      have changed : Rest (state.update index fun stream =>
          { stream with channel := stream.channel ++ [response] }) :=
        rest.update index (fun _ => ⟨rfl, rfl, rfl⟩) (fun _ => rfl)
          (.inr fun _ => rfl)
      refine changed.enters regular False.elim (by simp)
        fun handling member => ?_
      obtain ⟨decodable, opens, writes⟩ := replying.here loop member
      refine ⟨decodable, fun isOpen => (opens isOpen).elim, fun isWrite => ?_⟩
      obtain ⟨named, service, knows, sent⟩ := writes isWrite
      exact ⟨named, service, knows.onward
        (sameIds_update fun _ => ⟨rfl, rfl, rfl⟩), sent⟩
  | @acknowledgeInput io index loop =>
      rw [sends] at regular ⊢
      refine replying.replyLast regular fun handling member => ?_
      obtain ⟨decodable, opens, writes⟩ := replying.here loop member
      refine ⟨decodable, fun isOpen => (opens isOpen).elim, fun isWrite => ?_⟩
      obtain ⟨service, knows⟩ := writes isWrite
      exact .inr ⟨index, service, knows, .inl (by simp)⟩
  | closeSession loop found => exact replying.closeSession loop found regular
  | @sendClose io index byHost loop =>
      rw [sends] at regular ⊢
      refine (rest.reply (.closed index) .sent).enters regular ?_ (by simp)
        fun handling member => ?_
      · cases byHost <;> exact False.elim
      obtain ⟨before, known, rfl⟩ := reply_handling member
      obtain ⟨decodable, opens, writes⟩ := replying.here loop known
      refine ⟨decodable, fun isOpen => (opens isOpen).elim, fun isWrite => ?_⟩
      have closing := writes isWrite
      cases byHost with
      | true => exact closing.elim
      | false =>
          obtain ⟨service, knows⟩ := closing
          exact .inl (.inr ⟨index, service, knows, .inr (by simp)⟩)
  | @refuse io localId remoteId loop =>
      rw [sends] at regular ⊢
      refine replying.replyLast regular fun handling member => ?_
      obtain ⟨decodable, opens, writes⟩ := replying.here loop member
      refine ⟨decodable, fun isOpen => ?_, fun isWrite => ?_⟩
      · obtain ⟨silent, rfl⟩ := opens isOpen
        exact .inl ⟨localId, by simp [silent]⟩
      · have isRemote : remoteId = handling.packet.arg0 := writes isWrite
        exact .inl ⟨localId, by simp [isRemote]⟩

/-! ## Steps outside of a handler -/

@[simp] theorem send_handling (state : State) (event : Event)
    (result : SendResult) :
    (state.send event result).handling = state.handling := by
  unfold send
  split <;> rfl

@[simp] theorem send_handled (state : State) (event : Event)
    (result : SendResult) :
    (state.send event result).handled = state.handled := by
  unfold send
  split <;> rfl

/-- The packet loop stays where it is. -/
theorem Replying.onward {state next : State} (replying : Replying state)
    (regular : Regular next)
    (kept : SameIds state.ledger.accounts next.ledger.accounts ∧
      state.history <+: next.history)
    (loop : next.loop = state.loop) (sessions : next.sessions = state.sessions)
    (handling : next.handling = state.handling)
    (handled : next.handled = state.handled)
    (announced : ∀ index, state.Announced index → next.Announced index)
    (closers : ∀ index stream, next.streams[index]? = some stream →
      stream.flow.closed = true → next.Announced index ∨
        ∃ before, state.streams[index]? = some before ∧
          before.flow.closed = true) : Replying next where
  regular := regular
  rests := by
    rw [loop, handling]
    exact replying.rests
  closers index stream found serves closed := by
    unfold Serves at serves
    rw [sessions, loop] at serves
    rcases closers index stream found closed with done | ⟨before, known, closed⟩
    · exact done
    · exact announced index
        (replying.closers index before known serves closed)
  answers current member := by
    rw [handling] at member
    exact (replying.answers current member).onward kept.1 kept.2 announced loop
  handled record member := by
    rw [handled] at member
    exact (replying.handled record member).onward kept.1 kept.2

theorem output_ne_sendClose {stream next : Stream} {maxPayload : UInt32}
    {io : OutputIo} (quiet : stream.Quiet maxPayload io next) :
    stream.output ≠ .sendClose := by
  cases quiet with
  | finish waits =>
      rcases waits with waits | ⟨_, _, waits⟩ <;> simp [waits]
  | takeCredit waits =>
      rcases waits with ⟨waits, _⟩ | ⟨_, _, waits, _⟩ <;> simp [waits]
  | read reads => simp [reads]
  | closeOutput ended => simp [ended]
  | receive waits => simp [waits]
  | readFile reads => simp [reads]

/-- Only the end of its output closes a stream. -/
theorem closed_quiet {stream next : Stream} {maxPayload : UInt32}
    {io : OutputIo} (quiet : stream.Quiet maxPayload io next)
    (closed : next.flow.closed = true) :
    stream.flow.closed = true ∨ next.output = .sendClose := by
  cases quiet with
  | finish => exact .inl closed
  | takeCredit waits credit => simp [OutputFlow.new] at closed
  | read =>
      left
      unfold Stream.read at closed
      split at closed
      · exact closed
      · dsimp only at closed
        split at closed <;> exact closed
  | closeOutput =>
      cases before : stream.flow.closed with
      | true => exact .inl rfl
      | false => exact .inr (by simp [Stream.closeOutput, before])
  | receive waits received =>
      left
      unfold Stream.receive at received
      split at received
      · split at received
        · obtain rfl := Option.some.inj received
          exact closed
        · simp at received
      · dsimp only at received
        split at received
        · obtain rfl := Option.some.inj received
          exact closed
        · split at received <;>
            (obtain rfl := Option.some.inj received; exact closed)
  | readFile =>
      left
      unfold Stream.readFile at closed
      split at closed
      · exact closed
      · dsimp only at closed
        split at closed
        · exact closed
        · split at closed <;> exact closed

/-- An output thread that is not about to send `CLSE` takes a step. -/
theorem announced_change {state : State} {index other : Nat} {stream : Stream}
    {change : Stream → Stream}
    (found : state.streams[index]? = some stream)
    (before : stream.output ≠ .sendClose)
    (announced : state.Announced other) :
    (state.update index change).Announced other := by
  rcases announced with sent | ⟨stream', found', waits⟩
  · exact .inl sent
  · by_cases same : index = other
    · subst same
      obtain rfl := Option.some.inj (found.symm.trans found')
      exact absurd waits before
    · refine .inr ⟨stream', ?_, waits⟩
      rw [streams_update_ne _ _ _ _ (Ne.symm same)]
      exact found'

theorem announced_send {state : State} {event : Event} {result : SendResult}
    {index : Nat} (announced : state.Announced index) :
    (state.send event result).Announced index := by
  have carries : Carries state (state.send event result) := .send event result
  unfold Announced
  rw [send_streams]
  exact announced.imp (fun sent => carries.history.subset sent) id

theorem Replying.output {state next : State} {index : Nat} {io : OutputIo}
    (replying : Replying state) (sends : io.send = .sent)
    (steps : Steps state (.output index io) next) : Replying next := by
  have regular := replying.regular.step steps
  have kept := onward_of_steps steps
  cases steps with
  | @quiet index io stream changed found quiet =>
      have silent := output_ne_sendClose quiet
      refine replying.onward regular kept rfl rfl rfl rfl
        (fun other => announced_change found silent) ?_
      intro other stream' found' closed
      by_cases same : other = index
      · subst same
        rw [streams_update_self, found] at found'
        obtain rfl := Option.some.inj found'
        rcases closed_quiet quiet closed with before | waits
        · exact .inr ⟨stream, found, before⟩
        · refine .inl (.inr ⟨changed, ?_, waits⟩)
          rw [streams_update_self, found]
          rfl
      · rw [streams_update_ne _ _ _ _ same] at found'
        exact .inr ⟨stream', found', closed⟩
  | @write index io stream found payload sent failed writes =>
      have silent : stream.output ≠ .sendClose := by
        rcases writes with ⟨output, _⟩ | ⟨_, output, _⟩ <;> simp [output]
      unfold sendWrite at regular kept ⊢
      refine replying.onward regular kept (send_loop _ _ _)
        (send_sessions _ _ _) (send_handling _ _ _) (send_handled _ _ _)
        (fun other announced => ?_) ?_
      · exact announced_change (by rw [send_streams]; exact found) silent
          (announced_send announced)
      · intro other stream' found' closed
        refine .inr ?_
        by_cases same : other = index
        · subst same
          rw [streams_update_self, send_streams, found] at found'
          obtain rfl := Option.some.inj found'
          exact ⟨stream, found, closed⟩
        · rw [streams_update_ne _ _ _ _ same, send_streams] at found'
          exact ⟨stream', found', closed⟩
  | @closeStream index io stream found waits =>
      rw [sends] at regular kept ⊢
      have told : ∀ other, state.Announced other →
          ((state.send (.closed index) .sent).update index
            (Stream.setOutput · .done)).Announced other := by
        intro other announced
        by_cases same : other = index
        · subst same
          refine .inl ?_
          simp [update, send, record, SendResult.delivered]
        · have later : (state.send (.closed index) .sent).Announced other :=
            announced_send announced
          rcases later with sent | ⟨stream', found', waits⟩
          · exact .inl sent
          · refine .inr ⟨stream', ?_, waits⟩
            rwa [streams_update_ne _ _ _ _ same]
      refine replying.onward regular kept rfl rfl rfl rfl told ?_
      intro other stream' found' closed
      refine .inr ?_
      by_cases same : other = index
      · subst same
        rw [streams_update_self, send_streams, found] at found'
        obtain rfl := Option.some.inj found'
        exact ⟨stream, found, closed⟩
      · rw [streams_update_ne _ _ _ _ same, send_streams] at found'
        exact ⟨stream', found', closed⟩

theorem Replying.step {state next : State} {action : Action}
    (replying : Replying state) (reliable : Reliable state action)
    (steps : Steps state action next) : Replying next := by
  have regular := replying.regular.step steps
  cases action with
  | hostSend packet =>
      cases steps
      exact replying.onward regular ⟨.of_eq rfl, List.prefix_rfl⟩ rfl rfl rfl rfl
        (fun _ => id) fun _ stream found closed => .inr ⟨stream, found, closed⟩
  | hostReceive =>
      cases steps
      exact replying.onward regular ⟨.of_eq rfl, List.prefix_rfl⟩ rfl rfl rfl rfl
        (fun _ => id) fun _ stream found closed => .inr ⟨stream, found, closed⟩
  | handle spawned => exact replying.handle steps
  | readFails =>
      cases steps with
      | stillDisconnected idle => exact replying
      | disconnect idle =>
          have none' : state.handling = none :=
            replying.rests (by rw [idle]; trivial)
          have told : Rest { state with disconnected := true } :=
            replying.rest.same rfl rfl rfl rfl
          refine told.clears regular (fun _ => none') fun handling member => ?_
          rw [Option.mem_def, none'] at member
          simp at member
  | leave =>
      cases steps with
      | leave idle =>
          have none' : state.handling = none :=
            replying.rests (by rw [idle]; trivial)
          refine replying.rest.clears regular (fun _ => none')
            fun handling member => ?_
          rw [Option.mem_def, none'] at member
          simp at member
  | loop io => exact replying.loop reliable steps
  | output index io => exact replying.output reliable steps

end State

theorem replying_inductive : reliableServer.Inductive State.Replying where
  initially := .initially
  kept := by
    intro state next action replying steps
    obtain ⟨reliable, steps⟩ := System.restrict_step_eq_some.mp steps
    exact replying.step reliable (State.steps_of_step steps)

/-- When its handler has returned, exactly a decodable packet is answered. -/
theorem server_answers_iff {state : State}
    (reached : reliableServer.Reachable state) {record : Handled}
    (member : record ∈ state.handled) :
    Answered state record ↔ record.handling.packet.Decodable :=
  ((replying_inductive.reachable reached).handled record member).answered_iff

/-- The host opens a shell and writes to it. -/
def writtenRun : List Action :=
  [.hostSend shellPacket, .handle true, .loop idleLoop, .loop idleLoop,
    .loop idleLoop, .hostSend ⟨aWrte, 7, 1, [108, 115, 10]⟩, .handle true,
    .loop idleLoop, .loop idleLoop]

theorem server_answers_writtenRun :
    ∃ state record, reliableServer.Reachable state ∧
      state.handled.getLast? = some record ∧
      record.handling.packet.command = aWrte ∧ Answered state record := by
  have seen : ((reliableServer.runFrom startState writtenRun).bind
      fun state => state.handled.getLast?.map fun record =>
        record.handling.packet) = some ⟨aWrte, 7, 1, [108, 115, 10]⟩ := by
    decide +kernel
  obtain ⟨state, runs, view⟩ := Option.bind_eq_some_iff.mp seen
  obtain ⟨record, last, packet⟩ := Option.map_eq_some_iff.mp view
  have decodable : record.handling.packet.Decodable := by
    rw [packet]
    decide
  refine ⟨state, record, ⟨writtenRun, runs⟩, last, by rw [packet], ?_⟩
  exact (server_answers_iff ⟨writtenRun, runs⟩
    (List.mem_of_getLast? last)).mpr decodable

/-! ## An `OPEN` without an answer -/

/-- The service name is one byte that is not UTF-8. -/
def undecodableRun : List Action :=
  [.hostSend ⟨aOpen, 7, 0, [255]⟩, .handle true]

theorem server_ignoresUndecodableOpen :
    ¬∀ state, reliableServer.Reachable state →
      ∀ record ∈ state.handled, Answered state record := by
  intro answers
  have seen : ((reliableServer.runFrom startState undecodableRun).bind
      fun state => state.handled.head?.map fun record =>
        (record.handling.packet.command, record.handling.replies)) =
      some (aOpen, []) := by
    decide +kernel
  obtain ⟨state, runs, view⟩ := Option.bind_eq_some_iff.mp seen
  obtain ⟨record, first, packet⟩ := Option.map_eq_some_iff.mp view
  obtain ⟨command, silent⟩ := Prod.mk.inj packet
  have answered := answers state ⟨undecodableRun, runs⟩ record
    (List.mem_of_head? first)
  obtain ⟨reply, sent, _⟩ := answered.opens command
  simp [silent] at sent

end Pocketboot.Adb
