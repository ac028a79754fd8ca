import Pocketboot.Adb.Ownership

/-!
# Every stream lives by the rules

The server, seen from one of its streams, takes the steps of a life.
-/

namespace Pocketboot.Adb

open Relation

/-- What one stream sees of an event. -/
def Event.seenBy (index : Nat) : Event → Option LifeEvent
  | .hello streams _ => if index < streams then some .hello else none
  | .opened i => if i = index then some .opened else none
  | .acknowledged i => if i = index then some .acknowledged else none
  | .wrote i _ => if i = index then some .wrote else none
  | .closed i => if i = index then some .closed else none
  | .refused _ _ => none
  | .closedByHost i => if i = index then some .closedByHost else none

def After.place (index : Nat) : After → Option Place
  | .allow i => if i = index then some .granting else none
  | _ => none

/-- Where the packet loop has the session of a stream. -/
def Loop.place (index : Nat) : Loop → Option Place
  | .drop left after =>
      if index ∈ left then some .leaving else after.place index
  | .join i left after =>
      if index ∈ i :: left then some .leaving else after.place index
  | .acknowledgeOpen i => if i = index then some .spawned else none
  | .allow i => if i = index then some .granting else none
  | .close i _ => if i = index then some .leaving else none
  | .sendClose i _ => if i = index then some .sendingClose else none
  | _ => none

section

variable (index i : Nat)

@[simp] theorem place_drop (left : List Nat) (after : After) :
    (Loop.drop left after).place index =
      if index ∈ left then some .leaving else after.place index := rfl

@[simp] theorem place_join (left : List Nat) (after : After) :
    (Loop.join i left after).place index =
      if index ∈ i :: left then some .leaving else after.place index := rfl

@[simp] theorem place_acknowledgeOpen : (Loop.acknowledgeOpen i).place index =
    if i = index then some .spawned else none := rfl

@[simp] theorem place_allow : (Loop.allow i).place index =
    if i = index then some .granting else none := rfl

@[simp] theorem place_close (byHost : Bool) :
    (Loop.close i byHost).place index =
      if i = index then some .leaving else none := rfl

@[simp] theorem place_sendClose (byHost : Bool) :
    (Loop.sendClose i byHost).place index =
      if i = index then some .sendingClose else none := rfl

end

namespace State

def place (state : State) (index : Nat) : Place :=
  (state.loop.place index).getD
    (if index ∈ state.sessions then .listed else .gone)

def eventsOf (state : State) (index : Nat) : List LifeEvent :=
  state.history.filterMap (Event.seenBy index)

/-- The life of a stream so far. -/
def life (state : State) (index : Nat) (stream : Stream) : Life where
  sync := decide (stream.service = .sync)
  place := state.place index
  flow := stream.flow
  phase := stream.output.phase
  granted := stream.granted
  accepted := stream.accepted
  events := state.eventsOf index

/-! ## What a step changes for a stream -/

section

variable (state : State) (event : Event) (result : SendResult)
  (index other : Nat) (change : Stream → Stream)

@[simp] theorem place_record :
    (state.record event).place index = state.place index := rfl

@[simp] theorem place_reply :
    (state.reply event result).place index = state.place index := by
  simp [place]

@[simp] theorem place_send :
    (state.send event result).place index = state.place index := by
  simp [place]

@[simp] theorem place_update :
    (state.update other change).place index = state.place index := rfl

@[simp] theorem eventsOf_record :
    (state.record event).eventsOf index =
      state.eventsOf index ++ (event.seenBy index).toList := by
  simp [eventsOf, record, List.filterMap_append, List.filterMap_cons]
  cases event.seenBy index <;> rfl

@[simp] theorem eventsOf_update :
    (state.update other change).eventsOf index = state.eventsOf index := rfl

@[simp] theorem eventsOf_goto (loop : Loop) :
    (state.goto loop).eventsOf index = state.eventsOf index := rfl

theorem eventsOf_reply :
    (state.reply event result).eventsOf index = state.eventsOf index ++
      if result.delivered then (event.seenBy index).toList else [] := by
  unfold reply
  split
  · exact eventsOf_record state event index
  · simp

theorem eventsOf_send :
    (state.send event result).eventsOf index = state.eventsOf index ++
      if result.delivered then (event.seenBy index).toList else [] := by
  unfold send
  split
  · exact eventsOf_record state event index
  · simp

@[simp] theorem streams_update_self :
    (state.update index change).streams[index]? =
      state.streams[index]?.map change := by
  simp [update]

theorem streams_update_ne (differs : other ≠ index) :
    (state.update index change).streams[other]? = state.streams[other]? := by
  simp [update, differs.symm]

end

/-- The life a stream has, or that of a new one. -/
def Begins (state : State) (index : Nat) (life : Life) : Prop :=
  (∃ sync, life = Life.start sync) ∨
    ∃ stream, state.streams[index]? = some stream ∧
      life = state.life index stream

/-- Every stream goes on from the life it had, or starts one. -/
def LivesOn (guards : Life.Guards) (state next : State) : Prop :=
  ∀ index stream, next.streams[index]? = some stream →
    ∃ life, state.Begins index life ∧
      ReflTransGen (Life.Step guards) life (next.life index stream)

namespace LivesOn

variable {guards : Life.Guards} {state next last : State}

theorem trans (first : LivesOn guards state next)
    (second : LivesOn guards next last) : LivesOn guards state last := by
  intro index stream found
  obtain ⟨between, ⟨sync, rfl⟩ | ⟨stream', found', rfl⟩, later⟩ :=
    second index stream found
  · exact ⟨_, .inl ⟨sync, rfl⟩, later⟩
  · obtain ⟨life, begins, earlier⟩ := first index stream' found'
    exact ⟨life, begins, earlier.trans later⟩

theorem goesOn
    (steps : ∀ index stream', next.streams[index]? = some stream' →
      ∃ stream, state.streams[index]? = some stream ∧
        ReflTransGen (Life.Step guards) (state.life index stream)
          (next.life index stream')) :
    LivesOn guards state next := by
  intro index stream' found
  obtain ⟨stream, found', later⟩ := steps index stream' found
  exact ⟨_, .inr ⟨stream, found', rfl⟩, later⟩

/-- Nothing changes that a life shows. -/
theorem same (streams : next.streams = state.streams)
    (sessions : next.sessions = state.sessions)
    (loop : next.loop = state.loop) (history : next.history = state.history) :
    LivesOn guards state next := by
  refine goesOn fun index stream found => ⟨stream, streams ▸ found, ?_⟩
  have equal : next.life index stream = state.life index stream := by
    simp [life, place, eventsOf, sessions, loop, history]
  rw [equal]

/-- Only the places change. -/
theorem moves (streams : next.streams = state.streams)
    (history : next.history = state.history)
    (moved : ∀ index stream, state.streams[index]? = some stream →
      next.place index ≠ state.place index →
      Life.Step guards (state.life index stream)
        { state.life index stream with place := next.place index }) :
    LivesOn guards state next := by
  refine goesOn fun index stream found => ?_
  rw [streams] at found
  refine ⟨stream, found, ?_⟩
  have equal : next.life index stream =
      { state.life index stream with place := next.place index } := by
    simp [life, eventsOf, history]
  rw [equal]
  by_cases stays : next.place index = state.place index
  · rw [stays]
    exact .refl
  · exact .single (moved index stream found stays)

/-- An event happens. -/
theorem record {event : Event}
    (happens : ∀ index stream seen, state.streams[index]? = some stream →
      event.seenBy index = some seen →
      Life.Step guards (state.life index stream)
        { state.life index stream with
          events := state.eventsOf index ++ [seen] }) :
    LivesOn guards state (state.record event) := by
  refine goesOn fun index stream found => ⟨stream, found, ?_⟩
  cases seen : event.seenBy index with
  | none =>
      have equal : (state.record event).life index stream =
          state.life index stream := by
        simp [life, seen]
      rw [equal]
  | some seen' =>
      have equal : (state.record event).life index stream =
          { state.life index stream with
            events := state.eventsOf index ++ [seen'] } := by
        simp [life, seen]
      rw [equal]
      exact .single (happens index stream seen' found seen)

theorem reply {event : Event} {result : SendResult}
    (happens : ∀ index stream seen, state.streams[index]? = some stream →
      event.seenBy index = some seen →
      Life.Step guards (state.life index stream)
        { state.life index stream with
          events := state.eventsOf index ++ [seen] }) :
    LivesOn guards state (state.reply event result) := by
  unfold State.reply
  split
  · exact (record happens).trans (same rfl rfl rfl rfl)
  · exact same rfl rfl rfl rfl

/-- One stream's event happens. -/
theorem replyTo {index : Nat} {event : Event} {seen : LifeEvent}
    {result : SendResult}
    (sees : ∀ other, event.seenBy other =
      if index = other then some seen else none)
    (happens : ∀ stream, state.streams[index]? = some stream →
      Life.Step guards (state.life index stream)
        { state.life index stream with
          events := state.eventsOf index ++ [seen] }) :
    LivesOn guards state (state.reply event result) := by
  refine reply fun other stream seen' found sees' => ?_
  rw [sees] at sees'
  split at sees'
  · rename_i same
    subst same
    obtain rfl := Option.some.inj sees'
    exact happens stream found
  · simp at sees'

/-- One stream takes a step, and nothing changes for the others. -/
theorem only (index : Nat)
    (others : ∀ other, other ≠ index →
      next.streams[other]? = state.streams[other]? ∧
        next.place other = state.place other ∧
        next.eventsOf other = state.eventsOf other)
    (steps : ∀ stream', next.streams[index]? = some stream' →
      ∃ stream, state.streams[index]? = some stream ∧
        ReflTransGen (Life.Step guards) (state.life index stream)
          (next.life index stream')) :
    LivesOn guards state next := by
  refine goesOn fun other stream found => ?_
  by_cases same : other = index
  · subst same
    exact steps stream found
  · obtain ⟨streams, place, events⟩ := others other same
    rw [streams] at found
    refine ⟨stream, found, ?_⟩
    have equal : next.life other stream = state.life other stream := by
      simp [life, place, events]
    rw [equal]

/-- One stream changes. -/
theorem update {index : Nat} {change : Stream → Stream}
    (steps : ∀ stream, state.streams[index]? = some stream →
      ReflTransGen (Life.Step guards) (state.life index stream)
        (state.life index (change stream))) :
    LivesOn guards state (state.update index change) := by
  refine only index (fun other differs => ?_) fun stream' found => ?_
  · exact ⟨streams_update_ne _ _ _ _ differs, rfl, rfl⟩
  · rw [streams_update_self] at found
    obtain ⟨stream, found', rfl⟩ := Option.map_eq_some_iff.mp found
    exact ⟨stream, found', steps stream found'⟩

end LivesOn

/-! ## Places -/

theorem place_listed {state : State} {index : Nat}
    (free : state.loop.place index = none) (member : index ∈ state.sessions) :
    state.place index = .listed := by
  simp [place, free, member]

theorem place_gone {state : State} {index : Nat}
    (free : state.loop.place index = none) (outside : index ∉ state.sessions) :
    state.place index = .gone := by
  simp [place, free, outside]

theorem place_held {state : State} {index : Nat} {place : Place}
    (held : state.loop.place index = some place) :
    state.place index = place := by
  simp [State.place, held]

namespace LivesOn

variable {guards : Life.Guards} {state : State}

theorem goto {loop : Loop}
    (places : ∀ index, loop.place index = state.loop.place index) :
    LivesOn guards state (state.goto loop) := by
  refine moves rfl rfl fun index stream found moved => (moved ?_).elim
  change (loop.place index).getD _ = _
  rw [places]
  rfl

/-- An output thread sends a packet, or fails to, and goes on. -/
theorem sends {index : Nat} {stream : Stream} {event : Event}
    {seen : LifeEvent} {result : SendResult} {output : Output}
    (found : state.streams[index]? = some stream)
    (sees : ∀ other, event.seenBy other =
      if index = other then some seen else none)
    (steps : ∀ events, AtMost seen events →
      Life.Step guards (state.life index stream)
        { state.life index stream with
          phase := output.phase
          events := state.eventsOf index ++ events }) :
    LivesOn guards state ((state.send event result).update index
      (Stream.setOutput · output)) := by
  refine only index (fun other differs => ?_) fun stream' found' => ?_
  · refine ⟨?_, by simp, ?_⟩
    · rw [streams_update_ne _ _ _ _ differs, send_streams]
    · simp [eventsOf_send, sees, differs.symm]
  · rw [streams_update_self, send_streams, found] at found'
    obtain rfl := Option.some.inj found'
    refine ⟨stream, found, .single ?_⟩
    have once : AtMost seen (if result.delivered then [seen] else []) := by
      split
      · exact .inr rfl
      · exact .inl rfl
    have taken := steps _ once
    unfold life at taken ⊢
    rw [place_update, place_send, eventsOf_update, eventsOf_send, sees,
      if_pos rfl]
    exact taken

/-- All sessions leave the table. -/
theorem clear {after : After} (free : ∀ index, state.loop.place index = none)
    (after' : ∀ index, after.place index = none) :
    LivesOn guards state (state.clear after) := by
  refine moves rfl rfl fun index stream found moved => ?_
  by_cases member : index ∈ state.sessions
  · have left : (state.clear after).place index = .leaving :=
      place_held (by simp [State.clear, member])
    rw [left]
    exact .unlist (place_listed (free index) member)
  · refine (moved ?_).elim
    rw [place_gone (free index) member]
    exact place_gone (by simp [State.clear, member, after'])
      (by simp [State.clear])

theorem returns {fault : Option Bool}
    (free : ∀ index, state.loop.place index = none) :
    LivesOn guards state (state.returns fault) := by
  unfold State.returns
  split
  · refine trans (same rfl rfl rfl rfl) (clear ?_ fun _ => rfl)
    exact free
  · have finished : LivesOn guards state state.finishHandler :=
      same rfl rfl rfl rfl
    exact finished.trans (goto fun index => (free index).symm)

/-- A session leaves the table to be closed. -/
theorem remove {index : Nat} {byHost : Bool}
    (free : ∀ index, state.loop.place index = none)
    (listed : index ∈ state.sessions) :
    LivesOn guards state
      ((state.remove index).goto (.close index byHost)) := by
  refine moves rfl rfl fun other stream found moved => ?_
  by_cases same : index = other
  · subst same
    have left : ((state.remove index).goto (.close index byHost)).place index =
        .leaving := place_held (by simp [State.goto])
    rw [left]
    exact .unlist (place_listed (free index) listed)
  · refine (moved ?_).elim
    simp [State.place, State.goto, State.remove, free, same, Ne.symm same]

/-- A session is held by the packet loop until it is joined. -/
theorem gotoDrop {index : Nat} {after : After}
    (held : state.loop.place index = some .leaving)
    (others : ∀ other, other ≠ index → state.loop.place other = none)
    (after' : ∀ other, after.place other = none) :
    LivesOn guards state (state.goto (.drop [index] after)) := by
  refine goto fun other => ?_
  by_cases same : other = index
  · subst same
    simp [held]
  · simp [same, others other same, after']

end LivesOn

/-- A step of the packet loop meets the guards of the stream it is about. -/
def Allows (guards : Life.Guards) (state : State) (action : Action) : Prop :=
  ∀ io, action = .loop io → ∀ index stream,
    state.streams[index]? = some stream →
    ((∃ payload, state.loop = .acknowledgeWrite index payload) ∨
        state.loop = .acknowledgeInput index →
      guards.acknowledge (state.life index stream)) ∧
    ∀ byHost, state.loop = .close index byHost →
      guards.close (state.life index stream)

/-- A sync thread without a credit goes on, or is done. -/
theorem life_idle {guards : Life.Guards} {state : State} {index : Nat}
    {stream next : Stream} (sync : stream.service = .sync)
    (idle : stream.output.phase = .idle)
    (same : next = { stream with
      output := next.output
      channel := next.channel })
    (goes : next.output.phase = .idle ∨ next.output.phase = .done) :
    ReflTransGen (Life.Step guards) (state.life index stream)
      (state.life index next) := by
  rw [same]
  rcases goes with stays | done
  · have equal : state.life index
        { stream with output := next.output, channel := next.channel } =
        state.life index stream := by
      simp [life, stays, idle]
    rw [equal]
  · have equal : state.life index
        { stream with output := next.output, channel := next.channel } =
        { state.life index stream with phase := .done } := by
      simp [life, done]
    rw [equal]
    exact .single (.finish idle (.inl (by simp [life, sync])))

theorem phase_failedFor (message : Text) :
    (failedFor message).phase = .idle ∨ (failedFor message).phase = .done := by
  unfold failedFor
  split
  · exact .inl rfl
  · exact .inr rfl

theorem life_quiet {guards : Life.Guards} {state : State} {index : Nat}
    {stream next : Stream} {maxPayload : UInt32} {io : OutputIo}
    (serves : stream.output.Serves stream.service)
    (quiet : stream.Quiet maxPayload io next) :
    ReflTransGen (Life.Step guards) (state.life index stream)
      (state.life index next) := by
  cases quiet with
  | finish waits closed =>
      have idle : stream.output.phase = .idle := by
        rcases waits with waits | ⟨payload, next, waits⟩ <;> rw [waits] <;> rfl
      exact .single (.finish idle (.inr closed))
  | takeCredit waits credit =>
      have phases : stream.output.phase = .idle ∧
          ∀ granted : Output, granted = .read ∨
            (∃ payload next, granted = .sendFor payload next) →
          granted.phase = .holding := by
        refine ⟨?_, ?_⟩
        · rcases waits with ⟨waits, _⟩ | ⟨payload, next, waits, _⟩ <;>
            rw [waits] <;> rfl
        · rintro granted (rfl | ⟨payload, next, rfl⟩) <;> rfl
      have holding := phases.2 _ (waits.imp And.right
        fun ⟨payload, next, _, granted⟩ => ⟨payload, next, granted⟩)
      have taken : Life.Step guards (state.life index stream) _ :=
        .takeCredit phases.1 credit
      rw [← holding] at taken
      exact .single taken
  | read reads =>
      rw [reads] at serves
      have holding : stream.output.phase = .holding := by rw [reads]; rfl
      have ends : ReflTransGen (Life.Step guards) (state.life index stream)
          (state.life index (stream.setOutput .ended)) := by
        have written : Life.Step guards (state.life index stream) _ :=
          .write holding (.inl rfl) (.inr (.inl ⟨rfl, decide_eq_false serves⟩))
        rw [List.append_nil] at written
        exact .single written
      unfold Stream.read
      split
      · exact ends
      · dsimp only
        split
        · exact ends
        · rename_i content _ _
          have equal : state.life index
              (stream.setOutput (.send (content.take shellChunk))) =
              state.life index stream := by
            simp only [life, Stream.setOutput, holding]
            rfl
          rw [equal]
  | closeOutput ended =>
      have phase : stream.output.phase = .ended := by rw [ended]; rfl
      have closed : Life.Step guards (state.life index stream) _ :=
        .closeOutput phase
      have equal : state.life index stream.closeOutput =
          { state.life index stream with
            flow := stream.flow.close.2
            phase := if stream.flow.close.1 then .sendClose else .done } := by
        simp only [life, Stream.closeOutput]
        split <;> rfl
      rw [equal]
      exact .single closed
  | receive waits received =>
      rw [waits] at serves
      have idle : stream.output.phase = .idle := by rw [waits]; rfl
      unfold Stream.receive at received
      split at received
      · split at received
        · obtain rfl := Option.some.inj received
          exact life_idle serves idle rfl (.inr rfl)
        · simp at received
      · dsimp only at received
        split at received
        · obtain rfl := Option.some.inj received
          exact life_idle serves idle rfl (.inl rfl)
        · split at received
          · obtain rfl := Option.some.inj received
            exact life_idle serves idle rfl (phase_failedFor _)
          · obtain rfl := Option.some.inj received
            exact life_idle serves idle rfl (.inl rfl)
  | readFile reads =>
      rw [reads] at serves
      have idle : stream.output.phase = .idle := by rw [reads]; rfl
      unfold Stream.readFile
      split
      · exact life_idle serves idle rfl (phase_failedFor _)
      · dsimp only
        split
        · exact life_idle serves idle rfl (.inl rfl)
        · split
          · exact life_idle serves idle rfl (.inl rfl)
          · exact life_idle serves idle rfl (.inr rfl)

theorem life_close {guards : Life.Guards} {state : State} {index : Nat}
    {stream : Stream} (leaving : state.place index = .leaving) :
    ReflTransGen (Life.Step guards) (state.life index stream)
      (state.life index stream.close) := .single (.drop leaving)

/-- A session that another one replaces in the table. -/
theorem life_replaced {guards : Life.Guards} {state : State}
    {index other : Nat} {stream : Stream}
    (free : state.loop.place other = none) (differs : other ≠ index)
    (moved : (state.insertSession index).place other ≠ state.place other) :
    Life.Step guards (state.life other stream)
      { state.life other stream with
        place := (state.insertSession index).place other } := by
  have granted : (After.allow index).place other = none := by
    simp [After.place, differs.symm]
  cases loop : (state.insertSession index).loop.place other with
  | none =>
      refine (moved ?_).elim
      have kept : other ∈ (state.insertSession index).sessions ↔
          other ∈ state.sessions := by
        simp only [State.insertSession, place_drop, granted] at loop ⊢
        split at loop
        · simp at loop
        · rename_i stays
          rw [List.mem_cons, List.mem_filter, decide_eq_true stays]
          simp [differs]
      simp [State.place, loop, free, kept]
  | some place =>
      simp only [State.insertSession, place_drop, granted] at loop
      split at loop
      · rename_i replaced
        obtain rfl := Option.some.inj loop
        have leaving : (state.insertSession index).place other = .leaving :=
          place_held (by
            simp only [State.insertSession, place_drop]
            rw [if_pos replaced])
        rw [leaving]
        exact .unlist (place_listed free (List.mem_of_mem_filter replaced))
      · simp at loop

/-- A new stream starts its life. -/
theorem life_spawn {guards : Life.Guards} {state : State} (owned : Owned state)
    (free : ∀ index, state.loop.place index = none) (localId remoteId : UInt32)
    (service : AdbService) :
    LivesOn guards state (state.spawn (.spawn localId remoteId service)) := by
  intro index stream found
  simp only [State.spawn, List.getElem?_append] at found
  split at found
  · rename_i bound
    refine ⟨_, .inr ⟨stream, found, rfl⟩, ?_⟩
    have differs : state.streams.length ≠ index := by omega
    have equal : (state.spawn (.spawn localId remoteId service)).life index
        stream = state.life index stream := by
      simp [life, place, State.spawn, eventsOf, free, differs]
      rfl
    rw [equal]
  · rename_i bound
    have last : index = state.streams.length := by
      have := (List.getElem?_eq_some_iff.mp found).1
      simp only [List.length_singleton] at this
      omega
    subst last
    obtain rfl := List.mem_singleton.mp (List.mem_of_getElem? found)
    refine ⟨_, .inl ⟨decide (service = .sync), rfl⟩, ?_⟩
    have silent : state.eventsOf state.streams.length = [] := by
      refine List.filterMap_eq_nil_iff.mpr fun event member => ?_
      have told := owned.told event member
      cases event <;> simp only [Event.streams, Event.seenBy] at told ⊢ <;>
        rw [if_neg (by omega)]
    have equal : (state.spawn (.spawn localId remoteId service)).life
        state.streams.length (.spawn localId remoteId service) =
        Life.start (decide (service = .sync)) := by
      have idle : (Stream.spawn localId remoteId service).output.phase =
          .idle := by cases service <;> rfl
      have placed : (state.spawn (.spawn localId remoteId service)).place
          state.streams.length = .spawned :=
        place_held (by simp [State.spawn])
      unfold life
      rw [idle, placed]
      change Life.mk _ _ _ _ _ _ (state.eventsOf state.streams.length) = _
      rw [silent]
      rfl
    rw [equal]

/-- Every step is, for every stream, some steps of its life. -/
theorem livesOn_of_steps {guards : Life.Guards} {state next : State}
    {action : Action} (owned : Owned state) (allows : Allows guards state action)
    (steps : Steps state action next) : LivesOn guards state next := by
  have free : ∀ {loop : Loop}, state.loop = loop →
      (∀ index, loop.place index = none) →
      ∀ index, state.loop.place index = none := by
    rintro loop rfl
    exact id
  have begins : ∀ packet rest, LivesOn guards state (state.begin packet rest) :=
    fun _ _ => .same rfl rfl rfl rfl
  have outside : ∀ {loop : Loop} {index : Nat}, state.loop = loop →
      index ∈ loop.owned → index ∉ state.sessions := by
    rintro loop index rfl held member
    exact (List.nodup_append.mp owned.distinct).2.2 index member index held rfl
  have listedAt : ∀ {loop : Loop} {index : Nat}, state.loop = loop →
      index ∈ loop.listed → index ∈ state.sessions := by
    rintro loop index rfl member
    exact owned.listed index member
  cases steps with
  | hostSend => exact .same rfl rfl rfl rfl
  | hostReceive => exact .same rfl rfl rfl rfl
  | @connect packet rest spawned reads =>
      refine (LivesOn.trans (begins packet rest) ?_)
      refine LivesOn.trans ?_ (LivesOn.clear ?_ fun _ => rfl)
      · exact .same rfl rfl rfl rfl
      · exact free reads.idle fun _ => rfl
  | @openUndecodable packet rest spawned reads =>
      refine LivesOn.trans ?_ (LivesOn.returns ?_)
      · exact .same rfl rfl rfl rfl
      · exact free reads.idle fun _ => rfl
  | @openRefused packet rest spawned reads command name named before allocates =>
      have idle := free reads.idle fun _ => rfl
      rcases allocates with rfl | rfl
      · refine LivesOn.trans (.same rfl rfl rfl rfl)
          (LivesOn.goto fun index => (idle index).symm)
      · refine LivesOn.trans (.same rfl rfl rfl rfl)
          (LivesOn.goto fun index => (idle index).symm)
  | @openSpawned packet rest spawned reads command name named service =>
      have idle := free reads.idle fun _ => rfl
      have allocated : Owned (state.begin packet rest).countOpen.allocate :=
        owned.same rfl rfl rfl rfl
      exact LivesOn.trans (.same rfl rfl rfl rfl)
        (life_spawn allocated idle _ _ service)
  | writeRefused reads =>
      exact (begins _ _).trans
        (.goto fun index => (free reads.idle (fun _ => rfl) index).symm)
  | writeSync reads =>
      exact (begins _ _).trans
        (.goto fun index => (free reads.idle (fun _ => rfl) index).symm)
  | writeInput reads =>
      exact (begins _ _).trans
        (.goto fun index => (free reads.idle (fun _ => rfl) index).symm)
  | okay reads command accepts =>
      have idle := free reads.idle fun _ => rfl
      refine (begins _ _).trans (.trans (.update fun stream found => ?_)
        (.returns idle))
      exact .single (.accept (place_listed (idle _) (acknowledges_mem accepts)))
  | close reads command named =>
      exact (begins _ _).trans
        (.remove (free reads.idle fun _ => rfl) (lookup_mem named))
  | ignored reads =>
      exact (begins _ _).trans (.returns (free reads.idle fun _ => rfl))
  | tooLarge reads =>
      refine LivesOn.trans ?_ (LivesOn.clear ?_ fun _ => rfl)
      · exact .same rfl rfl rfl rfl
      · exact free reads.idle fun _ => rfl
  | stillDisconnected idle => exact .same rfl rfl rfl rfl
  | disconnect idle =>
      refine LivesOn.trans ?_ (LivesOn.clear ?_ fun _ => rfl)
      · exact .same rfl rfl rfl rfl
      · exact free idle fun _ => rfl
  | leave idle => exact .clear (free idle fun _ => rfl) fun _ => rfl
  | @dropped io after loop =>
      have held : ∀ index, state.loop.place index = after.place index := by
        intro index
        rw [loop]
        simp
      cases after with
      | returns fault => exact .returns held
      | closedByHost index fault =>
          refine LivesOn.trans (.record fun other stream seen found sees => ?_)
            (LivesOn.returns held)
          have unlisted := owned.unlisted index (by
            rw [loop]
            exact .head _)
          simp only [Event.seenBy] at sees
          split at sees
          · rename_i same
            subst same
            obtain rfl := Option.some.inj sees
            exact .forget (place_gone (held _) unlisted.1)
          · simp at sees
      | hello maxPayload => exact .goto fun index => (held index).symm
      | allow index => exact .goto fun index => (held index).symm
      | cleared => exact .goto fun index => (held index).symm
      | stopped => exact .goto fun index => (held index).symm
  | @drop io left after loop picked =>
      have place : ∀ index, (Loop.join io.pick (left.erase io.pick) after).place
          index = state.loop.place index := by
        intro index
        rw [loop]
        have same : index ∈ io.pick :: left.erase io.pick ↔ index ∈ left :=
          (List.perm_cons_erase picked).symm.mem_iff
        simp only [place_join, place_drop, same]
      refine LivesOn.trans (.update fun stream found => life_close ?_)
        (.goto place)
      exact place_held (by rw [loop]; simp [picked])
  | @join io index left after loop stream found done =>
      have distinct := owned.distinct
      rw [loop] at distinct
      have apart := (List.nodup_append.mp distinct).2.1
      have gone := outside loop (.head _)
      refine .moves rfl rfl fun other stream' found' moved => ?_
      by_cases same : other = index
      · subst same
        obtain rfl := Option.some.inj (found.symm.trans found')
        have away : other ∉ left := (List.nodup_cons.mp apart).1
        have free : after.place other = none := by
          cases after with
          | allow i =>
              have listed := listedAt loop (.head _)
              have differs : i ≠ other := fun same => gone (same ▸ listed)
              simp [After.place, differs]
          | returns fault => rfl
          | closedByHost i fault => rfl
          | hello maxPayload => rfl
          | cleared => rfl
          | stopped => rfl
        have left' : (state.goto (.drop left after)).place other = .gone :=
          place_gone (by simp [State.goto, away, free]) gone
        rw [left']
        refine .join (place_held (by rw [loop]; simp)) ?_
        simp [life, done, Output.phase]
      · refine (moved ?_).elim
        simp only [State.place, State.goto, loop, place_drop, place_join,
          List.mem_cons, same, false_or]
        rfl
  | @hello io maxPayload loop =>
      have idle := free loop fun _ => rfl
      have cleared : state.sessions = [] := owned.greets (by rw [loop]; trivial)
      refine LivesOn.trans (.reply fun index stream seen found sees => ?_)
        (.returns (by simpa using idle))
      simp only [Event.seenBy] at sees
      split at sees
      · obtain rfl := Option.some.inj sees
        exact .greet (place_gone (idle index) (by simp [cleared]))
      · simp at sees
  | @acknowledgeOpen io index loop sent =>
      have spawned : state.place index = .spawned :=
        place_held (by rw [loop]; simp)
      have fresh := outside loop (.head _)
      have told : LivesOn guards state (state.reply (.opened index) .sent) :=
        .replyTo (fun _ => rfl) fun stream found => .acknowledgeOpen spawned
      refine told.trans (.moves rfl rfl fun other stream found moved => ?_)
      by_cases same : other = index
      · subst same
        have granting : ((state.reply (.opened other) .sent).insertSession
            other).place other = .granting := by
          refine place_held ?_
          simp [State.insertSession, After.place, fresh]
        rw [granting]
        refine .insert (by simpa [life] using spawned) ?_
        simp [life, eventsOf_reply, SendResult.delivered, Event.seenBy]
      · exact life_replaced (by simp [loop, Ne.symm same]) same moved
  | @acknowledgeOpenFails io index loop disconnect delivered failed =>
      have spawned : state.place index = .spawned :=
        place_held (by rw [loop]; simp)
      have told : LivesOn guards state (state.reply (.opened index) io.send) :=
        .replyTo (fun _ => rfl) fun stream found => .acknowledgeOpen spawned
      refine told.trans (.moves rfl rfl fun other stream found moved => ?_)
      by_cases same : other = index
      · subst same
        have leaving : ((state.reply (.opened other) io.send).goto
            (.drop [other] (.returns (some disconnect)))).place other =
            .leaving := place_held (by simp [State.goto])
        rw [leaving]
        exact .abandon (by simpa [life] using spawned)
      · refine (moved ?_).elim
        simp [State.place, State.goto, loop, same, Ne.symm same, After.place]
  | @allow io index loop =>
      have listed := listedAt loop (.head _)
      refine .only index (fun other differs => ?_) fun stream' found => ?_
      · refine ⟨streams_update_ne _ _ _ _ differs, ?_, rfl⟩
        simp [State.place, State.returns, State.goto, loop, differs.symm]
        rfl
      · have found' : (state.update index Stream.allowOutput).streams[index]? =
            some stream' := found
        rw [streams_update_self] at found'
        obtain ⟨stream, known, rfl⟩ := Option.map_eq_some_iff.mp found'
        have granting : state.place index = .granting :=
          place_held (by rw [loop]; simp)
        have place : ((state.update index Stream.allowOutput).returns
            none).place index = .listed := place_listed rfl listed
        have granted : Life.Step guards (state.life index stream) _ :=
          .grant granting
        refine ⟨stream, known, .single ?_⟩
        rw [← place] at granted
        exact granted
  | @acknowledgeWrite io index payload loop sent =>
      have idle := free loop fun _ => rfl
      have listed := place_listed (idle index) (listedAt loop (.head _))
      refine LivesOn.trans (.replyTo (fun _ => rfl) fun stream found =>
        .acknowledge listed ((allows io rfl index stream found).1
          (.inl ⟨payload, loop⟩))) (LivesOn.goto fun index => ?_)
      rw [reply_loop]
      exact (idle index).symm
  | @acknowledgeWriteFails io index payload loop disconnect delivered failed =>
      have idle := free loop fun _ => rfl
      have listed := place_listed (idle index) (listedAt loop (.head _))
      exact LivesOn.trans (.replyTo (fun _ => rfl) fun stream found =>
        .acknowledge listed ((allows io rfl index stream found).1
          (.inl ⟨payload, loop⟩))) (.returns (by simpa using idle))
  | @inputSync io index payload loop stream found sync input pushed accepted =>
      have idle := free loop fun _ => rfl
      have changed : LivesOn guards state
          (state.update index fun stream => { stream with input }) :=
        .update fun _ _ => .refl
      exact changed.trans (.goto fun index => (idle index).symm)
  | input loop found other =>
      exact .goto fun index => (free loop (fun _ => rfl) index).symm
  | inputFails loop =>
      rcases loop with ⟨payload, loop, _⟩ | ⟨left, accepted, loop⟩
      · exact .remove (free loop fun _ => rfl) (listedAt loop (.head _))
      · exact .remove (free loop fun _ => rfl) (listedAt loop (.head _))
  | queued loop => exact .returns (free loop fun _ => rfl)
  | @queue io index response left accepted loop =>
      have idle := free loop fun _ => rfl
      have changed : LivesOn guards state (state.update index fun stream =>
          { stream with channel := stream.channel ++ [response] }) :=
        .update fun _ _ => .refl
      exact changed.trans (.goto fun index => (idle index).symm)
  | @acknowledgeInput io index loop =>
      have idle := free loop fun _ => rfl
      have listed := place_listed (idle index) (listedAt loop (.head _))
      exact LivesOn.trans (.replyTo (fun _ => rfl) fun stream found =>
        .acknowledge listed ((allows io rfl index stream found).1 (.inr loop)))
        (.returns (by simpa using idle))
  | @closeSession io index byHost loop stream found =>
      have leaving : state.place index = .leaving :=
        place_held (by rw [loop]; simp)
      have closed : Life.Step guards (state.life index stream) _ :=
        .close leaving ((allows io rfl index stream found).2 byHost loop)
      refine .only index (fun other differs => ?_) fun stream' found' => ?_
      · refine ⟨streams_update_ne _ _ _ _ differs, ?_, rfl⟩
        split <;> cases byHost <;>
          simp [State.place, State.goto, loop, differs, differs.symm,
            afterClose, After.place] <;> rfl
      · have found'' : (state.update index Stream.close).streams[index]? =
            some stream' := found'
        rw [streams_update_self, found] at found''
        obtain rfl := Option.some.inj found''
        refine ⟨stream, found, .single ?_⟩
        have place : ((state.update index Stream.close).goto
            (if stream.flow.close.1 then .sendClose index byHost
              else .drop [index] (afterClose index byHost none))).place index =
            if stream.flow.close.1 then .sendingClose else .leaving := by
          refine place_held ?_
          split <;> simp [State.goto]
        rw [show (state.life index stream).flow = stream.flow from rfl,
          ← place] at closed
        exact closed
  | @sendClose io index byHost loop =>
      have sending : state.place index = .sendingClose :=
        place_held (by rw [loop]; simp)
      refine .only index (fun other differs => ?_) fun stream found => ?_
      · refine ⟨by simp [State.goto], ?_, ?_⟩
        · cases byHost <;>
            simp [State.place, State.goto, loop, differs, differs.symm,
              afterClose, After.place]
        · simp [eventsOf_reply, Event.seenBy, differs.symm]
      · have found' : (state.reply (.closed index) io.send).streams[index]? =
            some stream := found
        rw [reply_streams] at found'
        refine ⟨stream, found', .single ?_⟩
        have sent : AtMost .closed
            (if io.send.delivered then [LifeEvent.closed] else []) := by
          split
          · exact .inr rfl
          · exact .inl rfl
        have closes : Life.Step guards (state.life index stream) _ :=
          .sendClose sending sent
        have place : ((state.reply (.closed index) io.send).goto
            (.drop [index] (afterClose index byHost io.send.fault))).place
              index = .leaving := place_held (by simp [State.goto])
        have events : ((state.reply (.closed index) io.send).goto
            (.drop [index] (afterClose index byHost io.send.fault))).eventsOf
              index = state.eventsOf index ++
                if io.send.delivered then [.closed] else [] := by
          simp [eventsOf_reply, Event.seenBy]
        rw [← place] at closes
        unfold life at closes ⊢
        rw [events]
        exact closes
  | refuse loop =>
      have idle := free loop fun _ => rfl
      refine LivesOn.trans (.reply fun index stream seen found sees => ?_)
        (.returns (by simpa using idle))
      simp [Event.seenBy] at sees
  | quiet found quiet =>
      refine .update fun stream found' => ?_
      obtain rfl := Option.some.inj (found.symm.trans found')
      exact life_quiet (owned.serves found) quiet
  | @write index io stream found payload sent failed sends =>
      refine .sends found (fun _ => rfl) fun events once => ?_
      have holding : stream.output.phase = .holding := by
        rcases sends with ⟨output, _⟩ | ⟨next, output, _⟩ <;> rw [output] <;> rfl
      refine .write holding once ?_
      have serves := owned.serves found
      rcases sends with ⟨output, rfl, rfl⟩ | ⟨next, output, rfl, rfl⟩
      · rw [output] at serves
        split
        · exact .inl rfl
        · exact .inr (.inl ⟨rfl, decide_eq_false serves⟩)
      · rw [output] at serves
        split
        · left
          cases next <;> rfl
        · exact .inr (.inr ⟨rfl, decide_eq_true serves⟩)
  | closeStream found sends =>
      refine .sends found (fun _ => rfl) fun events once => ?_
      exact .sendCloseOutput (by rw [life, sends]; rfl) once

/-- A property of every stream's life. -/
def Lives (holds : Life → Prop) (state : State) : Prop :=
  ∀ index stream, state.streams[index]? = some stream →
    holds (state.life index stream)

/-- What the steps of a life keep, the steps of the server keep. -/
theorem Lives.step {guards : Life.Guards} {holds : Life → Prop}
    {state next : State} {action : Action} (lives : Lives holds state)
    (owned : Owned state) (allows : Allows guards state action)
    (start : ∀ sync, holds (Life.start sync))
    (kept : ∀ {life next}, holds life → Life.Step guards life next → holds next)
    (steps : Steps state action next) : Lives holds next := by
  intro index stream found
  obtain ⟨life, begins, later⟩ :=
    livesOn_of_steps owned allows steps index stream found
  have before : holds life := by
    rcases begins with ⟨sync, rfl⟩ | ⟨stream', found', rfl⟩
    · exact start sync
    · exact lives index stream' found'
  generalize next.life index stream = after at later ⊢
  induction later with
  | refl => exact before
  | tail earlier step induction => exact kept induction step

end State

namespace Life

/-- What the rules keep of every life. -/
structure Regular (life : Life) : Prop where
  placed : Placed life
  ordered : Ordered life
  spends : Spends life
  closes : ClosesOnce life

theorem Regular.start (sync : Bool) : Regular (Life.start sync) :=
  ⟨.start sync, .start sync, .start sync, .start sync⟩

theorem Regular.step {guards : Guards} {life next : Life}
    (regular : Regular life) (step : Step guards life next) : Regular next where
  placed := regular.placed.step step
  ordered := regular.ordered.step regular.placed step
  spends := regular.spends.step regular.placed step
  closes := regular.closes.step step

/-- No requirement. -/
def free : Guards where
  acknowledge _ := True
  close _ := True

end Life

/-- What every run keeps of all streams. -/
structure State.Regular (state : State) : Prop where
  owned : Owned state
  lives : Lives Life.Regular state

theorem State.Regular.initially : Regular startState where
  owned := .initially
  lives := by simp [Lives, startState]

theorem State.Regular.step {state next : State} {action : Action}
    (regular : Regular state) (steps : Steps state action next) :
    Regular next where
  owned := regular.owned.step steps
  lives := by
    have allows : Allows Life.free state action :=
      fun _ _ _ _ _ => ⟨fun _ => trivial, fun _ _ => trivial⟩
    exact regular.lives.step regular.owned allows .start .step steps

end Pocketboot.Adb
