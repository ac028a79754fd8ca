import Pocketboot.Adb.Steps
import Pocketboot.Adb.Life

/-!
# Who holds a stream

A session is in the table, with the packet loop, or gone.  This is what the
steps of the server keep, and it says where each stream is in its life.
-/

namespace Pocketboot.Adb

/-- The packet loop returns to the sessions of these streams in the table. -/
def After.listed : After → List Nat
  | .allow index => [index]
  | _ => []

def After.unlisted : After → List Nat
  | .closedByHost index _ => [index]
  | _ => []

def After.greets : After → Prop
  | .hello _ => True
  | _ => False

namespace Loop

/-- The streams whose sessions the packet loop holds outside of the table. -/
def owned : Loop → List Nat
  | drop left _ => left
  | join index left _ => index :: left
  | acknowledgeOpen index => [index]
  | close index _ => [index]
  | sendClose index _ => [index]
  | _ => []

def listed : Loop → List Nat
  | drop _ after => after.listed
  | join _ _ after => after.listed
  | allow index => [index]
  | acknowledgeWrite index _ => [index]
  | input index _ => [index]
  | queue index _ _ => [index]
  | acknowledgeInput index => [index]
  | _ => []

def unlisted : Loop → List Nat
  | drop _ after => after.unlisted
  | join _ _ after => after.unlisted
  | _ => []

/-- The `CNXN` reply is to come. -/
def greets : Loop → Prop
  | drop _ after => after.greets
  | join _ _ after => after.greets
  | hello _ => True
  | _ => False

end Loop

/-- The number of streams an event speaks of. -/
def Event.streams : Event → Nat
  | .hello streams _ => streams
  | .opened index => index + 1
  | .acknowledged index => index + 1
  | .wrote index _ => index + 1
  | .closed index => index + 1
  | .refused _ _ => 0
  | .closedByHost index => index + 1

/-- The output thread is one of its service. -/
def Output.Serves (service : AdbService) : Output → Prop
  | .awaitCredit => service ≠ .sync
  | .read => service ≠ .sync
  | .send _ => service ≠ .sync
  | .ended => service ≠ .sync
  | .receive => service = .sync
  | .readFile _ _ => service = .sync
  | .awaitCreditFor _ _ => service = .sync
  | .sendFor _ _ => service = .sync
  | .sendClose => service ≠ .sync
  | .done => True

namespace State

section

variable (state : State) (event : Event) (result : SendResult)

@[simp] theorem reply_loop : (state.reply event result).loop = state.loop := by
  unfold reply
  split <;> rfl

@[simp] theorem reply_sessions :
    (state.reply event result).sessions = state.sessions := by
  unfold reply
  split <;> rfl

@[simp] theorem reply_streams :
    (state.reply event result).streams = state.streams := by
  unfold reply
  split <;> rfl

@[simp] theorem send_loop : (state.send event result).loop = state.loop := by
  unfold send
  split <;> rfl

@[simp] theorem send_sessions :
    (state.send event result).sessions = state.sessions := by
  unfold send
  split <;> rfl

@[simp] theorem send_streams :
    (state.send event result).streams = state.streams := by
  unfold send
  split <;> rfl

end

structure Owned (state : State) : Prop where
  distinct : (state.sessions ++ state.loop.owned).Nodup
  spawned : ∀ index ∈ state.sessions ++ state.loop.owned,
    index < state.streams.length
  listed : ∀ index ∈ state.loop.listed, index ∈ state.sessions
  unlisted : ∀ index ∈ state.loop.unlisted,
    index ∉ state.sessions ∧ index < state.streams.length
  greets : state.loop.greets → state.sessions = []
  told : ∀ event ∈ state.history, event.streams ≤ state.streams.length
  serves : ∀ {index : Nat} {stream : Stream},
    state.streams[index]? = some stream → stream.output.Serves stream.service
  sync : ∀ {index : Nat} {payload : Bytes} {stream : Stream},
    state.loop = .acknowledgeWrite index payload →
    state.streams[index]? = some stream → stream.service = .sync

namespace Owned

variable {state : State}

theorem initially : Owned startState := by
  constructor <;> simp [startState, Loop.owned, Loop.listed, Loop.unlisted,
    Loop.greets]

/-- Nothing changes but what does not matter here. -/
theorem same {next : State} (owned : Owned state)
    (streams : next.streams = state.streams)
    (sessions : next.sessions = state.sessions)
    (loop : next.loop = state.loop) (history : next.history = state.history) :
    Owned next := by
  obtain ⟨distinct, spawned, listed, unlisted, greets, told, serves, sync⟩ := owned
  constructor <;> simp only [streams, sessions, loop, history] <;> assumption

theorem record (owned : Owned state) (event : Event)
    (told : event.streams ≤ state.streams.length) :
    Owned (state.record event) := by
  refine { owned with told := fun other member => ?_ }
  rcases List.mem_append.mp member with before | last
  · exact owned.told other before
  · rwa [List.mem_singleton.mp last]

theorem reply (owned : Owned state) (event : Event) {result : SendResult}
    (told : event.streams ≤ state.streams.length) :
    Owned (state.reply event result) := by
  unfold State.reply
  split
  · exact (owned.record event told).same rfl rfl rfl rfl
  · exact owned

theorem send (owned : Owned state) (event : Event) {result : SendResult}
    (told : event.streams ≤ state.streams.length) :
    Owned (state.send event result) := by
  unfold State.send
  split
  · exact owned.record event told
  · exact owned

theorem update (owned : Owned state) {index : Nat} {change : Stream → Stream}
    (keeps : ∀ stream, state.streams[index]? = some stream →
      (change stream).service = stream.service ∧
        (change stream).output.Serves stream.service) :
    Owned (state.update index change) := by
  have found : ∀ {other : Nat} {stream : Stream},
      (state.streams.modify index change)[other]? = some stream →
      ∃ before, state.streams[other]? = some before ∧
        stream.service = before.service ∧
        stream.output.Serves before.service := by
    intro other stream found
    rw [List.getElem?_modify] at found
    obtain ⟨before, found', rfl⟩ := Option.map_eq_some_iff.mp found
    refine ⟨before, found', ?_⟩
    split
    · rename_i same
      subst same
      exact keeps before found'
    · exact ⟨rfl, owned.serves found'⟩
  obtain ⟨distinct, spawned, listed, unlisted, greets, told, serves, sync⟩ := owned
  refine ⟨distinct, ?_, listed, ?_, greets, ?_, ?_, ?_⟩
  · simpa [State.update] using spawned
  · simpa [State.update] using unlisted
  · simpa [State.update] using told
  · intro other stream found'
    obtain ⟨before, _, service, serves⟩ := found found'
    rwa [service]
  · intro other payload stream loop found'
    obtain ⟨before, known, service, _⟩ := found found'
    rw [service]
    exact sync loop known

theorem goto (owned : Owned state) {loop : Loop}
    (held : loop.owned.Sublist state.loop.owned)
    (listed : ∀ index ∈ loop.listed, index ∈ state.sessions)
    (unlisted : ∀ index ∈ loop.unlisted,
      index ∉ state.sessions ∧ index < state.streams.length)
    (greets : loop.greets → state.sessions = [])
    (sync : ∀ {index : Nat} {payload : Bytes} {stream : Stream}, loop = .acknowledgeWrite index payload →
      state.streams[index]? = some stream → stream.service = .sync) :
    Owned (state.goto loop) where
  distinct := owned.distinct.sublist (held.append_left _)
  spawned index member := owned.spawned index
    ((held.append_left state.sessions).subset member)
  listed := listed
  unlisted := unlisted
  greets := greets
  told := owned.told
  serves := owned.serves
  sync := sync

theorem clear (owned : Owned state) {after : After}
    (listed : after.listed = []) (unlisted : after.unlisted = []) :
    Owned (state.clear after) where
  distinct := by
    simpa [State.clear, Loop.owned] using (List.nodup_append.mp owned.distinct).1
  spawned index member := owned.spawned index
    (List.mem_append_left _ (by simpa [State.clear, Loop.owned] using member))
  listed := by simp [State.clear, Loop.listed, listed]
  unlisted := by simp [State.clear, Loop.unlisted, unlisted]
  greets _ := rfl
  told := owned.told
  serves := owned.serves
  sync := by simp [State.clear]

theorem gotoIdle (owned : Owned state) : Owned (state.goto .idle) :=
  owned.goto (List.nil_sublist _) (by simp [Loop.listed])
    (by simp [Loop.unlisted]) (by simp [Loop.greets]) (by simp)

theorem returns (owned : Owned state) {fault : Option Bool} :
    Owned (state.returns fault) := by
  unfold State.returns
  split
  · refine Owned.clear ?_ rfl rfl
    exact owned.same rfl rfl rfl rfl
  · refine Owned.gotoIdle ?_
    exact owned.same rfl rfl rfl rfl

/-- A place within a handler where no session is held. -/
theorem enters (owned : Owned state) {loop : Loop} (held : loop.owned = [])
    (unlisted : loop.unlisted = []) (greets : ¬loop.greets)
    (listed : ∀ index ∈ loop.listed, index ∈ state.sessions)
    (sync : ∀ {index : Nat} {payload : Bytes} {stream : Stream},
      loop = .acknowledgeWrite index payload →
      state.streams[index]? = some stream → stream.service = .sync) :
    Owned (state.goto loop) :=
  owned.goto (by simp [held]) listed (by simp [unlisted])
    (fun greeting => (greets greeting).elim) sync

/-- A session that is held is joined after its closing. -/
theorem dropClosed (owned : Owned state) {index : Nat} (byHost : Bool)
    (fault : Option Bool) (held : state.loop.owned = [index]) :
    Owned (state.goto (.drop [index] (afterClose index byHost fault))) := by
  have distinct := owned.distinct
  have spawned := owned.spawned index
  rw [held] at distinct spawned
  have outside : index ∉ state.sessions := fun member =>
    (List.nodup_append.mp distinct).2.2 index member index (.head _) rfl
  have bound := spawned (List.mem_append_right _ (.head _))
  refine owned.goto ?_ ?_ ?_ ?_ (by simp)
  · rw [held]
    exact List.Sublist.refl _
  · cases byHost <;> simp [afterClose, Loop.listed, After.listed]
  · cases byHost <;> simp [afterClose, Loop.unlisted, After.unlisted,
      outside, bound]
  · cases byHost <;> simp [afterClose, Loop.greets, After.greets]

theorem replyLast (owned : Owned state) (event : Event) {result : SendResult}
    (told : event.streams ≤ state.streams.length) :
    Owned (state.replyLast event result) := (owned.reply event told).returns

/-- A session leaves the table to be closed. -/
theorem remove (owned : Owned state) {index : Nat} {byHost : Bool}
    (listed : index ∈ state.sessions) :
    Owned ((state.remove index).goto (.close index byHost)) where
  distinct := by
    simp only [State.goto, State.remove, Loop.owned]
    refine List.nodup_append.mpr ⟨?_, by simp, by simp⟩
    exact (List.nodup_append.mp owned.distinct).1.filter _
  spawned other member := by
    simp only [State.goto, State.remove, Loop.owned, List.mem_append,
      List.mem_filter, List.mem_singleton] at member
    refine owned.spawned other (List.mem_append_left _ ?_)
    rcases member with ⟨member, _⟩ | rfl
    · exact member
    · exact listed
  listed := by simp [State.goto, Loop.listed]
  unlisted := by simp [State.goto, Loop.unlisted]
  greets := by simp [State.goto, Loop.greets]
  told := owned.told
  serves := owned.serves
  sync := by simp [State.goto]

end Owned

theorem lookup_mem {state : State} {localId : UInt32} {index : Nat}
    (named : state.lookup localId = some index) : index ∈ state.sessions :=
  List.mem_of_find?_eq_some named

theorem acknowledges_mem {state : State} {packet : Packet} {index : Nat}
    (accepts : state.acknowledges packet = some index) :
    index ∈ state.sessions :=
  lookup_mem (Option.filter_eq_some_iff.mp accepts).1

end State

/-! ## The output thread stays one of its service -/

theorem Stream.serves_spawn (localId remoteId : UInt32) (service : AdbService) :
    (Stream.spawn localId remoteId service).output.Serves service := by
  cases service <;> simp [Stream.spawn, Output.Serves]

theorem serves_failedFor {service : AdbService} (message : Text)
    (sync : service = .sync) : (failedFor message).Serves service := by
  unfold failedFor
  split <;> simp [Output.Serves, sync]

theorem Stream.Quiet.serves {maxPayload : UInt32} {io : OutputIo}
    {stream next : Stream} (quiet : stream.Quiet maxPayload io next)
    (serves : stream.output.Serves stream.service) :
    next.service = stream.service ∧ next.output.Serves stream.service := by
  cases quiet with
  | finish => exact ⟨rfl, trivial⟩
  | takeCredit waits credit =>
      refine ⟨rfl, ?_⟩
      rcases waits with ⟨waits, rfl⟩ | ⟨payload, next, waits, rfl⟩
      · rwa [waits] at serves
      · rwa [waits] at serves
  | read reads =>
      rw [reads] at serves
      unfold Stream.read
      split
      · exact ⟨rfl, serves⟩
      · dsimp only
        split
        · exact ⟨rfl, serves⟩
        · exact ⟨rfl, serves⟩
  | closeOutput ended =>
      rw [ended] at serves
      refine ⟨rfl, ?_⟩
      simp only [Stream.closeOutput]
      split
      · exact serves
      · trivial
  | receive waits received =>
      rw [waits] at serves
      unfold Stream.receive at received
      split at received
      · split at received
        · obtain rfl := Option.some.inj received
          exact ⟨rfl, trivial⟩
        · simp at received
      · dsimp only at received
        split at received
        · obtain rfl := Option.some.inj received
          exact ⟨rfl, serves⟩
        · split at received
          · obtain rfl := Option.some.inj received
            exact ⟨rfl, serves_failedFor _ serves⟩
          · obtain rfl := Option.some.inj received
            exact ⟨rfl, serves⟩
  | readFile reads =>
      rw [reads] at serves
      unfold Stream.readFile
      split
      · exact ⟨rfl, serves_failedFor _ serves⟩
      · dsimp only
        split
        · exact ⟨rfl, serves⟩
        · split
          · exact ⟨rfl, serves⟩
          · exact ⟨rfl, trivial⟩

theorem serves_resume {service : AdbService} (next : SyncNext)
    (sync : service = .sync) : (State.resume next).Serves service := by
  cases next <;> exact sync

namespace State

theorem Owned.spawn {state : State} (owned : Owned state) {stream : Stream}
    (serves : stream.output.Serves stream.service) :
    Owned (state.spawn stream) where
  distinct := by
    have bound : state.streams.length ∉ state.sessions := fun member => by
      have := owned.spawned _ (List.mem_append_left _ member)
      omega
    refine List.nodup_append.mpr ⟨(List.nodup_append.mp owned.distinct).1, ?_⟩
    simp only [State.spawn, Loop.owned]
    refine ⟨List.nodup_singleton _, ?_⟩
    rintro index member other last rfl
    exact bound (List.mem_singleton.mp last ▸ member)
  spawned index member := by
    have before := owned.spawned index
    simp only [State.spawn, Loop.owned, List.mem_append, List.mem_singleton,
      List.length_append, List.length_singleton] at member before ⊢
    rcases member with member | rfl
    · have := before (.inl member)
      omega
    · omega
  listed := by simp [State.spawn, Loop.listed]
  unlisted := by simp [State.spawn, Loop.unlisted]
  greets := by simp [State.spawn, Loop.greets]
  told event member := by
    have := owned.told event member
    simp only [State.spawn, List.length_append, List.length_singleton]
    omega
  serves {index other} found := by
    simp only [State.spawn, List.getElem?_append] at found
    split at found
    · exact owned.serves found
    · obtain rfl : stream = other := by
        exact (List.mem_singleton.mp (List.mem_of_getElem? found)).symm
      exact serves
  sync := by simp [State.spawn]

theorem Owned.insertSession {state : State} (owned : Owned state) {index : Nat}
    (loop : state.loop = .acknowledgeOpen index) :
    Owned (state.insertSession index) := by
  have distinct := owned.distinct
  rw [loop] at distinct
  simp only [Loop.owned] at distinct
  obtain ⟨table, _, apart⟩ := List.nodup_append.mp distinct
  have outside : index ∉ state.sessions := fun member =>
    apart index member index (by simp) rfl
  have spawned := owned.spawned
  rw [loop] at spawned
  simp only [Loop.owned] at spawned
  refine ⟨?_, ?_, ?_, ?_, ?_, owned.told, owned.serves, ?_⟩
  · simp only [State.insertSession, Loop.owned]
    rw [List.cons_append, List.nodup_cons]
    refine ⟨by simp [outside], ?_⟩
    refine List.nodup_append.mpr ⟨table.filter _, table.filter _, ?_⟩
    rintro other kept same replaced rfl
    exact of_decide_eq_true (List.mem_filter.mp kept).2 replaced
  · intro other member
    refine spawned other ?_
    simp only [State.insertSession, Loop.owned, List.cons_append,
      List.mem_cons, List.mem_append, List.mem_filter] at member ⊢
    rcases member with rfl | ⟨kept, _⟩ | ⟨replaced, _⟩
    · simp
    · exact .inl kept
    · exact .inl replaced
  · simp [State.insertSession, Loop.listed, After.listed]
  · simp [State.insertSession, Loop.unlisted, After.unlisted]
  · simp [State.insertSession, Loop.greets, After.greets]
  · simp [State.insertSession]

/-- Every step keeps who holds which stream. -/
theorem Owned.step {state next : State} {action : Action} (owned : Owned state)
    (steps : Steps state action next) : Owned next := by
  have begins : ∀ packet rest, Owned (state.begin packet rest) :=
    fun _ _ => owned.same rfl rfl rfl rfl
  have listedAt : ∀ {loop : Loop} {index : Nat}, state.loop = loop →
      index ∈ loop.listed → index ∈ state.sessions := by
    rintro loop index rfl member
    exact owned.listed index member
  have unlistedAt : ∀ {loop : Loop} {index : Nat}, state.loop = loop →
      index ∈ loop.unlisted →
        index ∉ state.sessions ∧ index < state.streams.length := by
    rintro loop index rfl member
    exact owned.unlisted index member
  have greetsAt : ∀ {loop : Loop}, state.loop = loop → loop.greets →
      state.sessions = [] := by
    rintro loop rfl
    exact owned.greets
  have spawnedAt : ∀ {loop : Loop} {index : Nat}, state.loop = loop →
      index ∈ loop.listed ++ loop.owned → index < state.streams.length := by
    rintro loop index rfl member
    refine owned.spawned index ?_
    rcases List.mem_append.mp member with listed | held
    · exact List.mem_append_left _ (owned.listed index listed)
    · exact List.mem_append_right _ held
  have outside : ∀ {loop : Loop} {index : Nat}, state.loop = loop →
      index ∈ loop.owned → index ∉ state.sessions := by
    rintro loop index rfl held member
    exact (List.nodup_append.mp owned.distinct).2.2 index member index held rfl
  have changes : ∀ {before : State} {index : Nat} {change : Stream → Stream},
      Owned before →
      (∀ stream, (change stream).service = stream.service ∧
        (change stream).output = stream.output) →
      Owned (before.update index change) := by
    intro before index change owned keeps
    refine owned.update fun stream found => ⟨(keeps stream).1, ?_⟩
    rw [(keeps stream).2]
    exact owned.serves found
  cases steps with
  | hostSend => exact owned.same rfl rfl rfl rfl
  | hostReceive => exact owned.same rfl rfl rfl rfl
  | @connect packet rest spawned reads =>
      refine Owned.clear ?_ rfl rfl
      exact (begins packet rest).same rfl rfl rfl rfl
  | @openUndecodable packet rest spawned reads =>
      refine Owned.returns ?_
      exact (begins packet rest).same rfl rfl rfl rfl
  | @openRefused packet rest spawned reads command name named before allocates =>
      refine Owned.enters ?_ rfl rfl id (by simp [Loop.listed]) (by simp)
      rcases allocates with rfl | rfl
      · exact (begins packet rest).same rfl rfl rfl rfl
      · exact (begins packet rest).same rfl rfl rfl rfl
  | @openSpawned packet rest spawned reads command name named service =>
      have allocated : Owned (state.begin packet rest).countOpen.allocate :=
        (begins packet rest).same rfl rfl rfl rfl
      exact allocated.spawn (Stream.serves_spawn _ _ service)
  | writeRefused reads command localId =>
      exact (begins _ _).enters rfl rfl id (by simp [Loop.listed]) (by simp)
  | writeSync reads command named found remote sync =>
      refine (begins _ _).enters rfl rfl id ?_ ?_
      · rintro index (_ | ⟨_, ⟨⟩⟩)
        exact lookup_mem named
      · intro index payload other loop found'
        obtain ⟨rfl, _⟩ := Loop.acknowledgeWrite.inj loop
        obtain rfl := Option.some.inj (found.symm.trans found')
        exact sync
  | writeInput reads command named found remote other =>
      refine (begins _ _).enters rfl rfl id ?_ (by simp)
      rintro index (_ | ⟨_, ⟨⟩⟩)
      exact lookup_mem named
  | okay reads command accepts =>
      refine Owned.returns ?_
      exact changes (begins _ _) fun stream => ⟨rfl, rfl⟩
  | close reads command named => exact (begins _ _).remove (lookup_mem named)
  | ignored reads command => exact (begins _ _).returns
  | tooLarge reads =>
      refine Owned.clear ?_ rfl rfl
      exact owned.same rfl rfl rfl rfl
  | stillDisconnected idle => exact owned
  | disconnect idle =>
      refine Owned.clear ?_ rfl rfl
      exact owned.same rfl rfl rfl rfl
  | leave idle => exact owned.clear rfl rfl
  | @dropped io after loop =>
      cases after with
      | returns fault => exact owned.returns
      | closedByHost index fault =>
          have unlisted : index ∉ state.sessions ∧ _ :=
            unlistedAt loop (.head _)
          exact Owned.returns (owned.record (.closedByHost index) unlisted.2)
      | hello maxPayload =>
          exact owned.goto (by simp [Loop.owned]) (by simp [Loop.listed])
            (by simp [Loop.unlisted]) (fun _ => greetsAt loop trivial) (by simp)
      | allow index =>
          exact owned.enters rfl rfl id (fun _ member => listedAt loop member)
            (by simp)
      | cleared => exact owned.gotoIdle
      | stopped =>
          exact owned.enters rfl rfl id (by simp [Loop.listed]) (by simp)
  | @drop io left after loop picked =>
      have held : (io.pick :: left.erase io.pick).Perm left :=
        (List.perm_cons_erase picked).symm
      have updated : Owned (state.update io.pick Stream.close) :=
        changes owned fun stream => ⟨rfl, rfl⟩
      have distinct := owned.distinct
      have spawned := updated.spawned
      rw [loop] at distinct
      change ∀ index ∈ state.sessions ++ state.loop.owned, _ at spawned
      rw [loop] at spawned
      exact { updated with
        distinct := ((held.append_left state.sessions).nodup_iff).mpr distinct
        spawned := fun index member =>
          spawned index ((held.append_left state.sessions).subset member)
        listed := fun index member => listedAt loop member
        unlisted := fun index member => by
          have unlisted : index ∉ state.sessions ∧ _ := unlistedAt loop member
          simpa [State.goto, State.update] using unlisted
        greets := fun greeting => greetsAt loop greeting
        sync := by simp [State.goto] }
  | join loop found done =>
      refine owned.goto ?_ (fun _ member => listedAt loop member)
        (fun _ member => unlistedAt loop member)
        (fun greeting => greetsAt loop greeting) (by simp)
      rw [loop]
      exact List.sublist_cons_self _ _
  | hello loop => exact owned.replyLast (.hello _ _) le_rfl
  | @acknowledgeOpen io index loop sent =>
      have bound : index < state.streams.length := spawnedAt loop (.head _)
      exact Owned.insertSession (owned.reply (.opened index) bound) loop
  | @acknowledgeOpenFails io index loop disconnect delivered failed =>
      have bound : index < state.streams.length := spawnedAt loop (.head _)
      refine Owned.goto (owned.reply (.opened index) bound) ?_ (by simp [Loop.listed, After.listed])
        (by simp [Loop.unlisted, After.unlisted])
        (by simp [Loop.greets, After.greets]) (by simp)
      rw [reply_loop, loop]
      exact List.Sublist.refl _
  | allow loop =>
      refine Owned.returns ?_
      exact changes owned fun stream => ⟨rfl, rfl⟩
  | @acknowledgeWrite io index payload loop sent =>
      have bound : index < state.streams.length := spawnedAt loop (.head _)
      exact Owned.enters (owned.reply (.acknowledged index) bound) rfl rfl id
        (fun _ member => listedAt loop member) (by simp)
  | @acknowledgeWriteFails io index payload loop disconnect delivered failed =>
      have bound : index < state.streams.length := spawnedAt loop (.head _)
      exact Owned.returns (owned.reply (.acknowledged index) bound)
  | inputSync loop found sync input pushed accepted =>
      refine Owned.enters ?_ rfl rfl id
        (fun _ member => listedAt loop member) (by simp)
      exact changes owned fun stream => ⟨rfl, rfl⟩
  | input loop found other =>
      exact owned.enters rfl rfl id (fun _ member => listedAt loop member)
        (by simp)
  | inputFails loop =>
      refine owned.remove ?_
      rcases loop with ⟨payload, loop, _⟩ | ⟨left, accepted, loop⟩
      · exact listedAt loop (.head _)
      · exact listedAt loop (.head _)
  | queued loop => exact owned.returns
  | queue loop =>
      refine Owned.enters ?_ rfl rfl id
        (fun _ member => listedAt loop member) (by simp)
      exact changes owned fun stream => ⟨rfl, rfl⟩
  | @acknowledgeInput io index loop =>
      have bound : index < state.streams.length := spawnedAt loop (.head _)
      exact owned.replyLast (.acknowledged index) bound
  | @closeSession io index byHost loop stream found =>
      have updated : Owned (state.update index Stream.close) :=
        changes owned fun stream => ⟨rfl, rfl⟩
      have held : (state.update index Stream.close).loop.owned = [index] := by
        simp [State.update, loop, Loop.owned]
      split
      · refine updated.goto ?_ (by simp [Loop.listed]) (by simp [Loop.unlisted])
          (by simp [Loop.greets]) (by simp)
        rw [held]
        exact List.Sublist.refl _
      · exact updated.dropClosed byHost none held
  | @sendClose io index byHost loop =>
      have bound : index < state.streams.length := spawnedAt loop (.head _)
      refine Owned.dropClosed (owned.reply (.closed index) bound) byHost _ ?_
      rw [reply_loop, loop]
      rfl
  | refuse loop => exact owned.replyLast (.refused _ _) (Nat.zero_le _)
  | quiet found quiet =>
      refine owned.update fun stream found' => ?_
      obtain rfl := Option.some.inj (found.symm.trans found')
      exact quiet.serves (owned.serves found)
  | @write index io stream found payload sent failed sends =>
      have serves := owned.serves found
      have bound := (List.getElem?_eq_some_iff.mp found).1
      have both : sent.Serves stream.service ∧ failed.Serves stream.service := by
        rcases sends with ⟨output, rfl, rfl⟩ | ⟨next, output, rfl, rfl⟩
        · rw [output] at serves
          exact ⟨serves, serves⟩
        · rw [output] at serves
          exact ⟨serves_resume next serves, trivial⟩
      refine (owned.send (.wrote index payload) bound).update fun other found' => ⟨rfl, ?_⟩
      rw [send_streams] at found'
      obtain rfl := Option.some.inj (found.symm.trans found')
      simp only [Stream.setOutput]
      split
      · exact both.1
      · exact both.2
  | @closeStream index io stream found sends =>
      have bound := (List.getElem?_eq_some_iff.mp found).1
      exact (owned.send (.closed index) bound).update fun stream found =>
        ⟨rfl, trivial⟩

end State

end Pocketboot.Adb
