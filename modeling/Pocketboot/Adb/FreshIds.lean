import Pocketboot.Adb.LocalIds

/-!
# Fresh ids

When no new stream is given the id of one that is still in the session table,
and a run in which one is.
-/

namespace Pocketboot.Adb

open Transition

/-! ## The claim -/

/-- No new stream takes the place of one in the session table. -/
structure FreshIds (state next : State) : Prop where
  /-- The id of a new stream is not zero, and no stream in the table has it. -/
  given : ∀ stream ∈ next.streams[state.streams.length]?,
    stream.localId ≠ 0 ∧ ∀ index ∈ state.sessions,
      ∀ live ∈ state.streams[index]?, live.localId ≠ stream.localId
  /-- A session that enters the table replaces none. -/
  kept : ∀ index, state.loop = .acknowledgeOpen index →
    state.sessions ⊆ next.sessions
  /-- The id of a stream in the table finds its session. -/
  found : ∀ index ∈ next.sessions, ∀ stream ∈ next.streams[index]?,
    next.lookup stream.localId = some index

/-- No stream of the table was given its id a multiple of `2^32 - 1`
allocations before the one that is given to a new stream. -/
def Spaced (state : State × Allocations) (action : Action) : Prop :=
  state.1.opensStream action → ∀ index ∈ state.1.sessions,
    ∀ earlier ∈ state.2.earlier[index]?,
      (state.2.count - earlier) % idCount ≠ 0

/-! ## Numbered streams -/

/-- The ids are those of the record, and no two holders have the same. -/
structure Numbered (state : State × Allocations) : Prop where
  owned : State.Owned state.1
  counter : state.1.nextLocalId = localIdAt state.2.count
  ids : state.1.localIds = state.2.earlier.map localIdAt
  earlier : ∀ count ∈ state.2.earlier, count ≤ state.2.count
  distinct : (state.1.holders.map fun index => state.1.localIds[index]?).Nodup

namespace Numbered

variable {state next : State × Allocations} {action : Action}

theorem initially : Numbered (startState, .start) where
  owned := .initially
  counter := by decide
  ids := rfl
  earlier := by simp [Allocations.start]
  distinct := by simp [State.holders, startState, Loop.entering]

theorem holders_lt (numbered : Numbered state) :
    ∀ index ∈ state.1.holders, index < state.1.streams.length := by
  intro index member
  refine numbered.owned.spawned index ?_
  rcases List.mem_append.mp member with inTable | entering
  · exact List.mem_append_left _ inTable
  · refine List.mem_append_right _ ?_
    unfold Loop.entering at entering
    split at entering
    · rename_i other loop
      simpa [loop, Loop.owned] using entering
    · simp at entering

/-- The id of a stream, and when it was allocated. -/
theorem localId_eq (numbered : Numbered state) {index : Nat} {stream : Stream}
    (found : state.1.streams[index]? = some stream) :
    ∃ earlier, state.2.earlier[index]? = some earlier ∧
      earlier ≤ state.2.count ∧ stream.localId = localIdAt earlier := by
  have known : state.1.localIds[index]? = some stream.localId := by
    rw [State.localIds_getElem?, found]
    rfl
  rw [numbered.ids, List.getElem?_map] at known
  obtain ⟨earlier, known, same⟩ := Option.map_eq_some_iff.mp known
  exact ⟨earlier, known,
    numbered.earlier earlier (List.mem_of_getElem? known), same.symm⟩

/-- The next id is not one of the table. -/
theorem fresh_iff (numbered : Numbered state) {index earlier : Nat}
    {live : Stream} (found : state.1.streams[index]? = some live)
    (allocated : state.2.earlier[index]? = some earlier) :
    live.localId ≠ state.1.nextLocalId ↔
      (state.2.count - earlier) % idCount ≠ 0 := by
  obtain ⟨earlier', known, before, same⟩ := numbered.localId_eq found
  obtain rfl := Option.some.inj (allocated.symm.trans known)
  rw [numbered.counter, same, ne_eq, ne_eq, localIdAt_eq_iff before]

theorem step (numbered : Numbered state) (spaced : Spaced state action)
    (steps : allocatingServer.step state action = some next) :
    Numbered next := by
  obtain ⟨steps, records⟩ := System.recorded_step_eq_some.mp steps
  have allots := State.allots_of_step steps
  have counter := allots.counter
  have ids := allots.ids
  rw [numbered.counter] at counter ids
  have inBounds := numbered.holders_lt
  have old : ∀ holders : List Nat, holders.Subperm state.1.holders →
      (holders.map fun index => next.1.localIds[index]?) =
        holders.map fun index => state.1.localIds[index]? := by
    intro holders fewer
    refine List.map_congr_left fun index member => ?_
    exact allots.kept (inBounds index (fewer.subset member))
  refine ⟨numbered.owned.step (State.steps_of_step steps), ?_, ?_, ?_, ?_⟩
  · rw [records, counter, followingId_localIdAt]
    simp only [Allocations.next]
    split <;> rfl
  · rw [records, ids, numbered.ids, Allocations.next, List.map_append]
    split <;> rfl
  · rw [records]
    simp only [Allocations.next]
    intro count member
    rcases List.mem_append.mp member with before | last
    · exact Nat.le_add_right_of_le (numbered.earlier count before)
    · split at last
      · rw [List.mem_singleton.mp last]
        exact Nat.le_add_right _ _
      · simp at last
  · cases State.holds_of_step steps with
    | fewer none fewer =>
        rw [old _ fewer]
        obtain ⟨part, same, sublist⟩ := fewer
        exact (same.map _).nodup_iff.mp
          (numbered.distinct.sublist (sublist.map _))
    | opens opens idle holders =>
        have inTable : state.1.holders = state.1.sessions := by
          rw [State.holders, idle]
          exact List.append_nil _
        rw [holders, List.map_append, old _ (by rw [inTable])]
        refine List.nodup_append.mpr
          ⟨by simpa [inTable] using numbered.distinct, List.nodup_singleton _, ?_⟩
        intro id known last isLast same
        obtain ⟨index, member, rfl⟩ := List.mem_map.mp known
        have isLast := (List.mem_singleton.mp isLast).trans
          (allots.last.trans (if_pos opens))
        rw [isLast, State.localIds_getElem?] at same
        obtain ⟨live, found, same⟩ := Option.map_eq_some_iff.mp same
        obtain ⟨earlier, known, _⟩ := numbered.localId_eq found
        exact (numbered.fresh_iff found known).mpr
          (spaced opens index member earlier known) same

/-- No two sessions of the table have one id. -/
theorem unique (numbered : Numbered state) {first second : Nat}
    (inTable : first ∈ state.1.holders) (other : second ∈ state.1.holders)
    (same : state.1.localIds[first]? = state.1.localIds[second]?) :
    first = second :=
  List.inj_on_of_nodup_map numbered.distinct inTable other same

theorem lookup_eq (numbered : Numbered state) {index : Nat} {stream : Stream}
    (inTable : index ∈ state.1.sessions)
    (found : state.1.streams[index]? = some stream) :
    state.1.lookup stream.localId = some index := by
  unfold State.lookup
  have named : state.1.sessions.find? (fun other =>
      state.1.streams[other]?.any fun other =>
        other.localId = stream.localId) ≠ none := by
    intro none
    have := List.find?_eq_none.mp none index inTable
    simp [found] at this
  obtain ⟨other, names⟩ := Option.ne_none_iff_exists'.mp named
  rw [names]
  have member := List.mem_of_find?_eq_some names
  have same := List.find?_some names
  refine congrArg some (numbered.unique (List.mem_append_left _ member)
    (List.mem_append_left _ inTable) ?_)
  rw [State.localIds_getElem?, State.localIds_getElem?, found]
  cases found' : state.1.streams[other]? with
  | none => simp [found'] at same
  | some stream' =>
      simp only [found', Option.any_some, decide_eq_true_eq] at same
      rw [Option.map_some, Option.map_some, same]

theorem kept (numbered : Numbered state) {index : Nat}
    (loop : state.1.loop = .acknowledgeOpen index)
    (steps : state.1.step action = some next.1) :
    state.1.sessions ⊆ next.1.sessions := by
  have holds : state.1.holders = state.1.sessions ++ [index] := by
    rw [State.holders, loop]
    rfl
  have distinct := numbered.distinct
  rw [holds, List.map_append] at distinct
  refine State.sessions_subset loop ?_ ?_ steps
  · exact numbered.holders_lt index (by simp [holds])
  · intro other member
    exact (List.nodup_append.mp distinct).2.2 _
      (List.mem_map_of_mem member) _ (.head _)

theorem spaced_iff (numbered : Numbered state)
    (steps : allocatingServer.step state action = some next) :
    Spaced state action ↔ FreshIds state.1 next.1 := by
  have steps' := (System.recorded_step_eq_some.mp steps).1
  have allots := State.allots_of_step steps'
  constructor
  · intro spaced
    have numbered' := numbered.step spaced steps
    refine ⟨?_, fun index loop => numbered.kept loop steps',
      fun index inTable stream found => numbered'.lookup_eq inTable found⟩
    intro stream found
    have last := allots.last
    rw [State.localIds_getElem?, found] at last
    split at last
    · rename_i opens
      obtain same := Option.some.inj last
      rw [same]
      refine ⟨by rw [numbered.counter]; exact localIdAt_ne_zero _, ?_⟩
      intro index member live known
      obtain ⟨earlier, allocated, _⟩ := numbered.localId_eq known
      exact (numbered.fresh_iff known allocated).mpr
        (spaced opens index member earlier allocated)
    · simp at last
  · intro fresh opens index member earlier allocated
    have last := allots.last
    rw [if_pos opens, State.localIds_getElem?] at last
    obtain ⟨stream, found, given⟩ := Option.map_eq_some_iff.mp last
    have bound := numbered.holders_lt index (List.mem_append_left _ member)
    have known := List.getElem?_eq_getElem bound
    refine (numbered.fresh_iff known allocated).mp ?_
    rw [← given]
    exact (fresh.given stream found).2 index member _ known

end Numbered

/-- The steps of a run give fresh ids when each of them that opens a stream
finds no stream in the table whose id is as many allocations old as there are
ids, or a multiple of it, and only then. -/
theorem server_freshIds_iff (schedule : List Action) :
    server.Always (fun state _ next => FreshIds state next) startState
        schedule ↔
      allocatingServer.Always (fun state action _ => Spaced state action)
        (startState, .start) schedule := by
  have recorded := @System.always_recorded _ _ _ server .start Allocations.next
    (fun state _ next => FreshIds state next) (startState, .start) schedule
  refine recorded.symm.trans (System.always_congr ?_ ?_
    Numbered.initially schedule).symm
  · exact fun numbered steps => numbered.spaced_iff steps
  · exact fun numbered steps spaced => numbered.step spaced steps

/-! ## A stream that loses its id -/

/-- The host opens a sync session as its stream 8. -/
def syncPacket : Packet := ⟨aOpen, 8, 0, Text.utf8 "sync:".toList⟩

/-- The stream of an `OPEN` enters the table. -/
def openRun (packet : Packet) : List Action :=
  [.hostSend packet, .handle true, .loop idleLoop, .loop idleLoop,
    .loop idleLoop]

/-- The host closes the sync session that is stream `count`. -/
def closeRun (count : Nat) : List Action :=
  [.hostSend ⟨aClse, 8, localIdAt count, []⟩, .handle true, .loop idleLoop,
    .loop idleLoop, .loop { idleLoop with pick := count },
    .output count idleOutput, .loop idleLoop, .loop idleLoop]

def sessionRun (count : Nat) : List Action :=
  openRun syncPacket ++ closeRun count

/-- A shell stays open while as many sync sessions come and go as there are
ids but one, and then the host opens another shell. -/
def reuseRun : List Action :=
  openRun shellPacket ++ (List.range' 1 (idCount - 1)).flatMap sessionRun ++
    [.hostSend shellPacket, .handle true]

/-- Only the first of `count` streams is in the table. -/
structure Settled (count : Nat) (state : State) : Prop where
  idle : state.loop = .idle
  rx : state.rx = []
  maxPayload : state.maxPayload = Adb.maxPayload
  sessions : state.sessions = [0]
  length : state.streams.length = count
  counter : state.nextLocalId = localIdAt count
  first : state.streams[0]?.map Stream.localId = some 1

/-- A sync session is in the table beside the first stream. -/
structure Opened (count : Nat) (state : State) : Prop where
  idle : state.loop = .idle
  rx : state.rx = []
  maxPayload : state.maxPayload = Adb.maxPayload
  sessions : state.sessions = [count, 0]
  length : state.streams.length = count + 1
  counter : state.nextLocalId = localIdAt (count + 1)
  first : state.streams[0]?.map Stream.localId = some 1
  last : ∃ stream, state.streams[count]? = some stream ∧
    stream.localId = localIdAt count ∧ stream.output = .receive ∧
    stream.channel = [] ∧ stream.flow.closed = false

theorem Settled.opens {count : Nat} {state : State}
    (settled : Settled count state) (unused : 1 ≠ localIdAt count)
    (later : 0 ≠ count) :
    ∃ next, server.runFrom state (openRun syncPacket) = some next ∧
      Opened count next := by
  obtain ⟨streams⟩ := state
  obtain ⟨rfl, rfl, rfl, rfl, length, rfl, first⟩ := settled
  simp only at length first
  subst length
  obtain ⟨live, others, rfl⟩ := List.exists_cons_of_ne_nil
    (show streams ≠ [] by rintro rfl; simp at later)
  have one : live.localId = 1 := by simpa using first
  have command : syncPacket.command = aOpen := rfl
  have apart : aOpen ≠ aCnxn := by decide
  have short : ¬Adb.maxPayload.toNat < syncPacket.payload.length := by
    decide +kernel
  obtain ⟨name, named, service⟩ : ∃ name,
      serviceName syncPacket.payload = .ok name ∧
        adbService name = some .sync :=
    ⟨"sync:".toList, by decide +kernel, by decide +kernel⟩
  simp only [List.length_cons] at unused
  -- every step is the only one that its state allows
  simp [openRun, System.runFrom, server, idleLoop, State.step, short, command,
    apart, State.begin, State.handlePacket, State.handleOpen, State.countOpen,
    named, service, State.allocate, State.spawn, Stream.spawn, State.goto,
    State.stepLoop, State.update, State.reply, SendResult.delivered,
    SendResult.fault, State.record, State.insertSession, one, unused,
    State.proceed, State.returns, State.finishHandler, OutputFlow.new]
  refine ⟨rfl, rfl, rfl, rfl, by simp, ?_, by simpa using one, ?_⟩
  · exact followingId_localIdAt _
  · exact ⟨_, by simp; rfl, rfl, rfl, rfl, rfl⟩

theorem Opened.closes {count : Nat} {state : State}
    (opened : Opened count state) (later : 0 ≠ count) :
    ∃ next, server.runFrom state (closeRun count) = some next ∧
      Settled (count + 1) next := by
  obtain ⟨streams⟩ := state
  obtain ⟨rfl, rfl, rfl, rfl, length, rfl, first, stream, found, isLocal,
    output, channel, flow⟩ := opened
  simp only at length found first
  have apart : aClse ≠ aCnxn ∧ aClse ≠ aOpen ∧ aClse ≠ aWrte ∧
      aClse ≠ aOkay := by decide
  simp [closeRun, System.runFrom, server, idleLoop, State.step, apart,
    State.begin, State.handlePacket, State.handleClose, State.lookup, found,
    isLocal, State.remove, later, State.goto, State.stepLoop, State.update,
    Stream.close, flow, State.reply, SendResult.delivered, SendResult.fault,
    State.record, State.stepOutput, output, Stream.receive, channel,
    Stream.setOutput, State.afterClose, State.proceed, State.returns,
    State.finishHandler]
  refine ⟨rfl, rfl, rfl, rfl, ?_, rfl, ?_⟩
  · simpa using length
  · simpa [List.getElem?_modify, later.symm] using first

theorem Settled.session {count : Nat} {state : State}
    (settled : Settled count state) (unused : 1 ≠ localIdAt count)
    (later : 0 ≠ count) :
    ∃ next, server.runFrom state (sessionRun count) = some next ∧
      Settled (count + 1) next := by
  obtain ⟨middle, opens, opened⟩ := settled.opens unused later
  obtain ⟨next, closes, settled⟩ := opened.closes later
  exact ⟨next, by rw [sessionRun, System.runFrom_append opens, closes], settled⟩

theorem localIdAt_eq_one {count : Nat} :
    1 = localIdAt count ↔ count % idCount = 0 :=
  @localIdAt_eq_iff 0 count (Nat.zero_le _)

/-- The ids of the sessions that come and go stay behind those of the shell. -/
theorem Settled.rounds {count more : Nat} {state : State}
    (settled : Settled count state) (later : 0 < count)
    (bound : count + more ≤ idCount) :
    ∃ next, server.runFrom state
        ((List.range' count more).flatMap sessionRun) = some next ∧
      Settled (count + more) next := by
  induction more generalizing count state with
  | zero => exact ⟨state, rfl, settled⟩
  | succ more induction =>
      have unused : 1 ≠ localIdAt count := by
        rw [ne_eq, localIdAt_eq_one, Nat.mod_eq_of_lt (by omega)]
        omega
      obtain ⟨middle, runs, settled⟩ := settled.session unused (by omega)
      obtain ⟨next, further, settled⟩ :=
        induction settled (by omega) (by omega)
      refine ⟨next, ?_, ?_⟩
      · rw [List.range'_succ, List.flatMap_cons, System.runFrom_append runs,
          further]
      · rwa [show count + (more + 1) = count + 1 + more by omega]

theorem settled_openRun :
    ∃ state, server.runFrom startState (openRun shellPacket) = some state ∧
      Settled 1 state := by
  have seen : (server.runFrom startState (openRun shellPacket)).map
      (fun state => ((state.loop, state.rx, state.maxPayload),
        state.sessions, state.streams.length, state.nextLocalId,
        state.streams[0]?.map Stream.localId)) =
      some ((.idle, [], Adb.maxPayload), [0], 1, localIdAt 1, some 1) := by
    decide +kernel
  obtain ⟨state, runs, view⟩ := Option.map_eq_some_iff.mp seen
  simp only [Prod.mk.injEq] at view
  obtain ⟨⟨idle, rx, maxPayload⟩, sessions, length, counter, first⟩ := view
  exact ⟨state, runs, idle, rx, maxPayload, sessions, length, counter, first⟩

theorem State.opensStream_shellPacket {state : State}
    (reads : state.Reads shellPacket [])
    (maxPayload : state.maxPayload = Adb.maxPayload) :
    state.opensStream (.handle true) = true ∧
      ∃ next, state.step (.handle true) = some next := by
  have short : shellPacket.payload.length ≤ Adb.maxPayload.toNat := by
    decide +kernel
  have opens : shellPacket.opens.isSome = true := by decide +kernel
  constructor
  · simp [opensStream, allocates, reads.idle, reads.rx, maxPayload, short, opens]
  · simp only [step, reads.idle, reads.rx]
    split
    · exact ⟨_, rfl⟩
    · exact ⟨_, rfl⟩

theorem Settled.reuses {state : State} (settled : Settled idCount state) :
    ∃ asked next, server.step state (.hostSend shellPacket) = some asked ∧
      server.step asked (.handle true) = some next ∧
      ¬FreshIds asked next := by
  obtain ⟨live, found, one⟩ := Option.map_eq_some_iff.mp settled.first
  let asked : State :=
    { state with
      rx := state.rx ++ [shellPacket]
      hostSent := state.hostSent ++ [shellPacket] }
  have reads : asked.Reads shellPacket [] :=
    ⟨settled.idle, by simp [asked, settled.rx]⟩
  obtain ⟨opens, next, steps⟩ :=
    State.opensStream_shellPacket reads settled.maxPayload
  refine ⟨asked, next, rfl, steps, fun fresh => ?_⟩
  have last := (State.allots_of_step steps).last
  rw [if_pos opens, State.localIds_getElem?] at last
  obtain ⟨stream, known, given⟩ := Option.map_eq_some_iff.mp last
  refine (fresh.given stream known).2 0 ?_ live found ?_
  · rw [show asked.sessions = [0] from settled.sessions]
    exact .head _
  · rw [one, given, show asked.nextLocalId = localIdAt idCount from
      settled.counter]
    exact localIdAt_eq_one.mpr (Nat.mod_self _)

/-- The second shell is given the id of the first. -/
theorem server_reusesId :
    ¬server.Always (fun state _ next => FreshIds state next) startState
      reuseRun := by
  intro always
  obtain ⟨start, opens, settled⟩ := settled_openRun
  obtain ⟨state, rounds, settled⟩ :=
    @Settled.rounds 1 (idCount - 1) _ settled (by omega) (by decide)
  have runs : server.runFrom startState (openRun shellPacket ++
      (List.range' 1 (idCount - 1)).flatMap sessionRun) = some state := by
    rw [System.runFrom_append opens, rounds]
  obtain ⟨asked, next, asks, steps, reuses⟩ := settled.reuses
  exact reuses ((always.after runs asked asks).2 next steps).1

end Pocketboot.Adb
