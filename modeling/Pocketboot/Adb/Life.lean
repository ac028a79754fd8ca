import Pocketboot.Adb.Streams
import Pocketboot.Transition.Trace

/-!
# The life of a stream

What one stream goes through, without the others: where its session is, how
far its output thread is, and what has been sent for it.  The rules say which
changes are possible; the invariants are about these rules alone.
-/

namespace Pocketboot.Adb

open Transition

/-- Where the session of a stream is. -/
inductive Place where
  /-- Spawned; the `OPEN` is being acknowledged. -/
  | spawned
  /-- In the table, before its first credit. -/
  | granting
  | listed
  /-- Out of the table, to be closed or joined. -/
  | leaving
  /-- The packet loop has closed it and is about to send `CLSE`. -/
  | sendingClose
  | gone
  deriving DecidableEq, Repr

/-- How far an output thread is. -/
inductive Phase where
  | idle
  /-- It has taken a credit and not yet sent its `WRTE`. -/
  | holding
  | ended
  | sendClose
  | done
  deriving DecidableEq, Repr

def Output.phase : Output → Phase
  | .awaitCredit => .idle
  | .receive => .idle
  | .readFile _ _ => .idle
  | .awaitCreditFor _ _ => .idle
  | .read => .holding
  | .send _ => .holding
  | .sendFor _ _ => .holding
  | .ended => .ended
  | .sendClose => .sendClose
  | .done => .done

/-- What happens on the wire, seen from one stream; `hello` is the `CNXN` reply
to a connection made after the stream was opened. -/
inductive LifeEvent where
  | hello
  | opened
  | acknowledged
  | wrote
  | closed
  | closedByHost
  deriving DecidableEq, Repr

structure Life where
  sync : Bool
  place : Place
  flow : OutputFlow
  phase : Phase
  granted : Bool
  accepted : Nat
  events : List LifeEvent
  deriving DecidableEq, Repr

/-- A packet of the stream. -/
def LifeEvent.IsPacket (event : LifeEvent) : Prop :=
  event ≠ .hello ∧ event ≠ .closedByHost

/-- A packet that only an open stream sends. -/
def LifeEvent.IsOpen (event : LifeEvent) : Prop :=
  event = .opened ∨ event = .acknowledged ∨ event = .wrote

def LifeEvent.IsFinal (event : LifeEvent) : Prop :=
  event = .closed ∨ event = .closedByHost

/-- At most this event. -/
def AtMost (event : LifeEvent) (events : List LifeEvent) : Prop :=
  events = [] ∨ events = [event]

theorem AtMost.count_le {event : LifeEvent} {events : List LifeEvent}
    (sent : AtMost event events) : events.count event ≤ 1 := by
  rcases sent with rfl | rfl <;> simp

theorem AtMost.count_eq_zero {event : LifeEvent} {events : List LifeEvent}
    (sent : AtMost event events) (other : LifeEvent)
    (differs : event ≠ other) : events.count other = 0 := by
  rcases sent with rfl | rfl
  · rfl
  · simp [differs]

namespace Life

/-- A stream that has just been spawned. -/
def start (sync : Bool) : Life where
  sync := sync
  place := .spawned
  flow := .new
  phase := .idle
  granted := false
  accepted := 0
  events := []

/-- What is required of the steps that may break the closure of a stream. -/
structure Guards where
  acknowledge : Life → Prop
  close : Life → Prop

inductive Step (guards : Guards) (life : Life) : Life → Prop
  | greet (gone : life.place = .gone) :
      Step guards life { life with events := life.events ++ [.hello] }
  | acknowledgeOpen (spawned : life.place = .spawned) :
      Step guards life { life with events := life.events ++ [.opened] }
  | insert (spawned : life.place = .spawned) (told : .opened ∈ life.events) :
      Step guards life { life with place := .granting }
  | abandon (spawned : life.place = .spawned) :
      Step guards life { life with place := .leaving }
  | grant (granting : life.place = .granting) :
      Step guards life { life with
        place := .listed
        flow := life.flow.allowOneWrite
        granted := true }
  | accept (listed : life.place = .listed) :
      Step guards life { life with
        flow := life.flow.allowOneWrite
        accepted := life.accepted + 1 }
  | acknowledge (listed : life.place = .listed)
      (guarded : guards.acknowledge life) :
      Step guards life { life with events := life.events ++ [.acknowledged] }
  | unlist (listed : life.place = .listed) :
      Step guards life { life with place := .leaving }
  | close (leaving : life.place = .leaving) (guarded : guards.close life) :
      Step guards life { life with
        place := if life.flow.close.1 then .sendingClose else .leaving
        flow := life.flow.close.2 }
  | sendClose (sending : life.place = .sendingClose)
      {events : List LifeEvent} (sent : AtMost .closed events) :
      Step guards life { life with
        place := .leaving
        events := life.events ++ events }
  | drop (leaving : life.place = .leaving) :
      Step guards life { life with flow := life.flow.close.2 }
  | join (leaving : life.place = .leaving) (done : life.phase = .done) :
      Step guards life { life with place := .gone }
  | forget (gone : life.place = .gone) :
      Step guards life { life with events := life.events ++ [.closedByHost] }
  | takeCredit (idle : life.phase = .idle) (credit : life.flow = ⟨true, false⟩) :
      Step guards life { life with flow := .new, phase := .holding }
  | finish (idle : life.phase = .idle)
      (ends : life.sync = true ∨ life.flow.closed = true) :
      Step guards life { life with phase := .done }
  | write (holding : life.phase = .holding) {events : List LifeEvent}
      (sent : AtMost .wrote events) {phase : Phase}
      (next : phase = .idle ∨ (phase = .ended ∧ life.sync = false) ∨
        (phase = .done ∧ life.sync = true)) :
      Step guards life { life with
        phase := phase
        events := life.events ++ events }
  | closeOutput (ended : life.phase = .ended) :
      Step guards life { life with
        flow := life.flow.close.2
        phase := if life.flow.close.1 then .sendClose else .done }
  | sendCloseOutput (sending : life.phase = .sendClose)
      {events : List LifeEvent} (sent : AtMost .closed events) :
      Step guards life { life with
        phase := .done
        events := life.events ++ events }

/-! ## What every life keeps -/

/-- The place, the credit and the thread fit together. -/
structure Placed (life : Life) : Prop where
  fresh : life.place = .spawned ∨ life.place = .granting →
    life.granted = false ∧ life.flow.closed = false
  listed : life.place = .listed → life.granted = true
  ungranted : life.granted = false → life.flow.canWrite = false ∧
    (life.phase = .idle ∨ life.phase = .done)
  gone : life.place = .gone → life.phase = .done
  sync : life.sync = true → life.phase ≠ .ended ∧ life.phase ≠ .sendClose

theorem Placed.start (sync : Bool) : Placed (Life.start sync) where
  fresh _ := ⟨rfl, rfl⟩
  listed placed := by simp [Life.start] at placed
  ungranted _ := ⟨rfl, .inl rfl⟩
  gone placed := by simp [Life.start] at placed
  sync _ := by simp [Life.start]

theorem Placed.step {guards : Guards} {life next : Life} (placed : Placed life)
    (step : Step guards life next) : Placed next := by
  obtain ⟨fresh, listed, ungranted, gone, sync⟩ := placed
  cases step with
  | greet => exact ⟨fresh, listed, ungranted, gone, sync⟩
  | acknowledgeOpen => exact ⟨fresh, listed, ungranted, gone, sync⟩
  | insert spawned =>
      exact ⟨fun _ => fresh (.inl spawned), by simp, ungranted, by simp, sync⟩
  | abandon => exact ⟨by simp, by simp, ungranted, by simp, sync⟩
  | grant => exact ⟨by simp, by simp, by simp, by simp, sync⟩
  | accept isListed =>
      refine ⟨?_, listed, ?_, gone, sync⟩
      · intro placed
        simp [isListed] at placed
      · intro never
        simp [listed isListed] at never
  | acknowledge => exact ⟨fresh, listed, ungranted, gone, sync⟩
  | unlist => exact ⟨by simp, by simp, ungranted, by simp, sync⟩
  | close leaving =>
      refine ⟨?_, ?_, by simpa using ungranted, ?_, sync⟩
      · intro placed
        split at placed <;> simp at placed
      · intro placed
        split at placed <;> simp at placed
      · intro placed
        split at placed <;> simp at placed
  | sendClose => exact ⟨by simp, by simp, ungranted, by simp, sync⟩
  | drop leaving =>
      exact ⟨by simp [leaving], listed, by simpa using ungranted, gone, sync⟩
  | join leaving done =>
      exact ⟨by simp, by simp, ungranted, fun _ => done, sync⟩
  | forget => exact ⟨fresh, listed, ungranted, gone, sync⟩
  | takeCredit idle credit =>
      have given : life.granted = true := by
        by_contra never
        have := ungranted (by simpa using never)
        simp [credit] at this
      refine ⟨?_, listed, by simp [given], ?_, by simp⟩
      · intro placed
        exact absurd given (by simp [(fresh placed).1])
      · intro placed
        exact absurd idle (by simp [gone placed])
  | finish idle =>
      exact ⟨fresh, listed, fun never => ⟨(ungranted never).1, .inr rfl⟩,
        fun _ => rfl, by simp⟩
  | write holding sent next =>
      have given : life.granted = true := by
        by_contra never
        have := ungranted (by simpa using never)
        simp [holding] at this
      refine ⟨fresh, listed, by simp [given], ?_, ?_⟩
      · intro placed
        simp [gone placed] at holding
      · intro isSync
        rcases next with rfl | ⟨rfl, shell⟩ | ⟨rfl, _⟩
        · simp
        · exact absurd (isSync.symm.trans shell) (by decide)
        · simp
  | closeOutput ended =>
      have given : life.granted = true := by
        by_contra never
        have := ungranted (by simpa using never)
        simp [ended] at this
      refine ⟨?_, listed, by simp [given], ?_, ?_⟩
      · intro placed
        exact absurd given (by simp [(fresh placed).1])
      · intro placed
        exact absurd ended (by simp [gone placed])
      · intro isSync
        exact absurd ended (sync isSync).1
  | sendCloseOutput sending =>
      exact ⟨fresh, listed, fun never => ⟨(ungranted never).1, .inr rfl⟩,
        fun _ => rfl, by simp⟩

/-! ## Order, credits and closings -/

/-- No `WRTE` comes before the `OKAY` to the `OPEN`, and no packet after the
reply to a later connection. -/
structure Ordered (life : Life) : Prop where
  opened : life.place = .granting ∨ life.granted = true →
    .opened ∈ life.events
  follows : Follows (· = .opened) (· = .wrote) life.events
  greeted : .hello ∈ life.events → life.place = .gone
  stops : Stops (· = .hello) LifeEvent.IsPacket life.events
  forgotten : .closedByHost ∈ life.events → life.place = .gone

theorem Ordered.start (sync : Bool) : Ordered (Life.start sync) where
  opened placed := by simp [Life.start] at placed
  follows := .nil
  greeted member := by simp [Life.start] at member
  stops := .nil
  forgotten member := by simp [Life.start] at member

/-- One more event, of a stream whose place does not change. -/
theorem Ordered.append {life : Life} (ordered : Ordered life)
    {event : LifeEvent}
    (wrote : event = .wrote → life.granted = true)
    (packet : life.place ≠ .gone ∨ ¬event.IsPacket)
    (gone : life.place = .gone ∨ event.IsPacket) :
    Ordered { life with events := life.events ++ [event] } where
  opened placed := List.mem_append_left _ (ordered.opened placed)
  follows := ordered.follows.append fun isWrote =>
    ⟨_, ordered.opened (.inr (wrote isWrote)), rfl⟩
  greeted member := by
    rcases List.mem_append.mp member with before | last
    · exact ordered.greeted before
    · obtain rfl : event = .hello := (List.mem_singleton.mp last).symm
      exact gone.resolve_right fun packet => packet.1 rfl
  stops := ordered.stops.append fun ⟨_, member, isHello⟩ =>
    packet.resolve_left fun stays =>
      stays (ordered.greeted (isHello ▸ member))
  forgotten member := by
    rcases List.mem_append.mp member with before | last
    · exact ordered.forgotten before
    · obtain rfl : event = .closedByHost := (List.mem_singleton.mp last).symm
      exact gone.resolve_right fun packet => packet.2 rfl

/-- The events that may be sent when one event or none is. -/
theorem Ordered.appendAtMost {life : Life} (ordered : Ordered life)
    {event : LifeEvent} {events : List LifeEvent} (sent : AtMost event events)
    (wrote : event = .wrote → life.granted = true)
    (isPacket : event.IsPacket) (stays : life.place ≠ .gone) :
    Ordered { life with events := life.events ++ events } := by
  rcases sent with rfl | rfl
  · simpa using ordered
  · exact ordered.append wrote (.inl stays) (.inr isPacket)

/-- A life that differs in its flow, its thread or its place outside the
table. -/
theorem Ordered.same {life next : Life} (ordered : Ordered life)
    (events : next.events = life.events)
    (opened : next.place = .granting ∨ next.granted = true →
      .opened ∈ life.events)
    (stays : life.place = .gone → next.place = .gone) : Ordered next := by
  obtain ⟨_, follows, greeted, stops, forgotten⟩ := ordered
  refine ⟨?_, ?_, ?_, ?_, ?_⟩
  · rwa [events]
  · rwa [events]
  · rw [events]
    exact fun member => stays (greeted member)
  · rwa [events]
  · rw [events]
    exact fun member => stays (forgotten member)

theorem Ordered.step {guards : Guards} {life next : Life}
    (placed : Placed life) (ordered : Ordered life)
    (step : Step guards life next) : Ordered next := by
  have packets : LifeEvent.IsPacket .opened ∧ LifeEvent.IsPacket .acknowledged ∧
      LifeEvent.IsPacket .wrote ∧ LifeEvent.IsPacket .closed := by
    simp [LifeEvent.IsPacket]
  have given : life.phase ≠ .idle → life.phase ≠ .done →
      life.granted = true := by
    intro notIdle notDone
    by_contra never
    rcases (placed.ungranted (by simpa using never)).2 with idle | done
    · exact notIdle idle
    · exact notDone done
  cases step with
  | greet gone =>
      exact ordered.append (by simp) (.inr (by simp [LifeEvent.IsPacket]))
        (.inl gone)
  | acknowledgeOpen spawned =>
      exact ordered.append (by simp) (.inl (by simp [spawned]))
        (.inr packets.1)
  | insert spawned told =>
      exact ordered.same rfl (fun _ => told) (by simp [spawned])
  | abandon spawned =>
      refine ordered.same rfl (fun granted => ?_) (by simp [spawned])
      exact ordered.opened (.inr (granted.resolve_left (by simp)))
  | grant granting =>
      exact ordered.same rfl (fun _ => ordered.opened (.inl granting))
        (by simp [granting])
  | accept listed =>
      exact ordered.same rfl
        (fun _ => ordered.opened (.inr (placed.listed listed)))
        (by simp [listed])
  | acknowledge listed =>
      exact ordered.append (by simp) (.inl (by simp [listed]))
        (.inr packets.2.1)
  | unlist listed =>
      exact ordered.same rfl
        (fun _ => ordered.opened (.inr (placed.listed listed)))
        (by simp [listed])
  | close leaving =>
      refine ordered.same rfl (fun granted => ?_) (by simp [leaving])
      refine ordered.opened (.inr (granted.resolve_left ?_))
      simp only
      split <;> simp
  | sendClose sending sent =>
      have left : Ordered { life with place := .leaving } := by
        refine ordered.same rfl (fun granted => ?_) (by simp [sending])
        exact ordered.opened (.inr (granted.resolve_left (by simp)))
      exact left.appendAtMost sent (by simp) packets.2.2.2 (by simp)
  | drop leaving =>
      exact ordered.same rfl (fun granted => ordered.opened granted) id
  | join leaving done =>
      refine ordered.same rfl (fun granted => ?_) (by simp)
      exact ordered.opened (.inr (granted.resolve_left (by simp)))
  | forget gone =>
      exact ordered.append (by simp) (.inr (by simp [LifeEvent.IsPacket]))
        (.inl gone)
  | takeCredit idle credit =>
      exact ordered.same rfl (fun granted => ordered.opened granted) id
  | finish idle =>
      exact ordered.same rfl (fun granted => ordered.opened granted) id
  | write holding sent next =>
      have stays : life.place ≠ .gone := fun gone => by
        simp [placed.gone gone] at holding
      have held := given (by simp [holding]) (by simp [holding])
      exact (ordered.appendAtMost sent (fun _ => held) packets.2.2.1
        stays).same rfl
          (fun _ => List.mem_append_left _ (ordered.opened (.inr held))) id
  | closeOutput ended =>
      exact ordered.same rfl (fun granted => ordered.opened granted) id
  | sendCloseOutput sending sent =>
      have stays : life.place ≠ .gone := fun gone => by
        simp [placed.gone gone] at sending
      have held := given (by simp [sending]) (by simp [sending])
      exact (ordered.appendAtMost sent (by simp) packets.2.2.2 stays).same rfl
        (fun _ => List.mem_append_left _ (ordered.opened (.inr held))) id

/-- Every `WRTE` spends a credit: the first one, or one of an accepted
`OKAY`. -/
def Spends (life : Life) : Prop :=
  life.events.count .wrote + life.flow.canWrite.toNat +
    (if life.phase = .holding then 1 else 0) ≤
      life.granted.toNat + life.accepted

/-- The flow is closed once, by the one who then sends `CLSE`. -/
def ClosesOnce (life : Life) : Prop :=
  life.events.count .closed + (if life.place = .sendingClose then 1 else 0) +
    (if life.phase = .sendClose then 1 else 0) ≤ life.flow.closed.toNat

theorem Spends.start (sync : Bool) : Spends (Life.start sync) := by
  simp [Spends, Life.start, OutputFlow.new]

theorem ClosesOnce.start (sync : Bool) : ClosesOnce (Life.start sync) := by
  simp [ClosesOnce, Life.start]

theorem Spends.step {guards : Guards} {life next : Life}
    (placed : Placed life) (spends : Spends life)
    (step : Step guards life next) : Spends next := by
  unfold Spends at *
  have added : ∀ events : List LifeEvent, (life.events ++ events).count .wrote =
      life.events.count .wrote + events.count .wrote :=
    fun _ => List.count_append
  cases step with
  | greet gone => simpa using spends
  | acknowledgeOpen spawned => simpa using spends
  | insert spawned told => exact spends
  | abandon spawned => exact spends
  | grant granting =>
      obtain ⟨never, opened⟩ := placed.fresh (.inr granting)
      rw [never, (placed.ungranted never).1] at spends
      simp only [OutputFlow.allowOneWrite_canWrite, opened, Bool.toNat_false,
        Bool.not_false, Bool.or_true, Bool.toNat_true] at spends ⊢
      omega
  | accept listed =>
      have most : (life.flow.canWrite || !life.flow.closed).toNat ≤ 1 :=
        Bool.toNat_le _
      simp only [OutputFlow.allowOneWrite_canWrite]
      omega
  | acknowledge listed => simpa using spends
  | unlist listed => exact spends
  | close leaving => simpa using spends
  | sendClose sending sent =>
      simp only [added, sent.count_eq_zero .wrote (by decide)]
      exact spends
  | drop leaving => simpa using spends
  | join leaving done => exact spends
  | forget gone => simpa using spends
  | takeCredit idle credit =>
      simp only [credit, idle, OutputFlow.new, Bool.toNat_true] at spends ⊢
      simp at spends ⊢
      omega
  | finish idle =>
      simp only [idle] at spends
      simp at spends ⊢
      omega
  | write holding sent next =>
      have one := sent.count_le
      simp only [added, holding, if_true] at spends ⊢
      rcases next with rfl | ⟨rfl, _⟩ | ⟨rfl, _⟩ <;> simp <;> omega
  | closeOutput ended =>
      simp only [ended] at spends
      simp only [OutputFlow.close_canWrite]
      split <;> simp at spends ⊢ <;> omega
  | sendCloseOutput sending sent =>
      simp only [added, sent.count_eq_zero .wrote (by decide), sending] at spends ⊢
      simp at spends ⊢
      omega

theorem ClosesOnce.step {guards : Guards} {life next : Life}
    (closes : ClosesOnce life) (step : Step guards life next) :
    ClosesOnce next := by
  unfold ClosesOnce at *
  have added : ∀ events : List LifeEvent,
      (life.events ++ events).count .closed =
      life.events.count .closed + events.count .closed :=
    fun _ => List.count_append
  have bound : life.flow.closed.toNat ≤ 1 := Bool.toNat_le _
  cases step with
  | greet gone => simpa using closes
  | acknowledgeOpen spawned => simpa using closes
  | insert spawned told => simpa [spawned] using closes
  | abandon spawned => simpa [spawned] using closes
  | grant granting => simpa [granting] using closes
  | accept listed => simpa [listed] using closes
  | acknowledge listed => simpa using closes
  | unlist listed => simpa [listed] using closes
  | close leaving =>
      simp only [OutputFlow.close_fst, OutputFlow.close_closed, leaving]
        at closes ⊢
      cases closed : life.flow.closed with
      | false =>
          rw [closed, Bool.toNat_false] at closes
          simp only [Bool.not_false, if_true, Bool.toNat_true]
          omega
      | true => simpa [closed] using closes
  | sendClose sending sent =>
      have one := sent.count_le
      simp only [added, sending, if_true] at closes ⊢
      simp
      omega
  | drop leaving =>
      simp only [OutputFlow.close_closed, Bool.toNat_true]
      omega
  | join leaving done => simpa [leaving] using closes
  | forget gone => simpa using closes
  | takeCredit idle credit =>
      simpa [idle, credit, OutputFlow.new] using closes
  | finish idle => simpa [idle] using closes
  | write holding sent next =>
      simp only [added, sent.count_eq_zero .closed (by decide), holding] at closes ⊢
      rcases next with rfl | ⟨rfl, _⟩ | ⟨rfl, _⟩ <;> simpa using closes
  | closeOutput ended =>
      simp only [OutputFlow.close_fst, OutputFlow.close_closed, ended]
        at closes ⊢
      cases closed : life.flow.closed <;> simp [closed] at closes ⊢ <;> omega
  | sendCloseOutput sending sent =>
      have one := sent.count_le
      simp only [added, sending, if_true] at closes ⊢
      simp
      omega

/-! ## Closure is final -/

/-- The loop closes a stream only while its thread holds no credit, and
acknowledges a `WRTE` only while the thread has not ended. -/
def careful : Guards where
  acknowledge life := life.sync = true ∨ life.phase ≠ .done
  close life := life.phase ≠ .holding

structure Still (life : Life) : Prop where
  stops : Stops LifeEvent.IsFinal LifeEvent.IsOpen life.events
  closing : life.place = .sendingClose → life.phase ≠ .holding
  closed : .closed ∈ life.events → life.phase ≠ .holding ∧
    (life.place = .listed → life.sync = false ∧ life.phase = .done)

theorem Still.start (sync : Bool) : Still (Life.start sync) where
  stops := .nil
  closing placed := by simp [Life.start] at placed
  closed member := by simp [Life.start] at member

theorem closed_of_mem {life : Life} (closes : ClosesOnce life)
    (member : .closed ∈ life.events) : life.flow.closed = true := by
  have positive : 0 < life.events.count .closed := List.count_pos_iff.mpr member
  unfold ClosesOnce at closes
  cases isClosed : life.flow.closed with
  | true => rfl
  | false =>
      rw [isClosed] at closes
      simp at closes
      omega

theorem closed_of_sendingClose {life : Life} (closes : ClosesOnce life)
    (sending : life.place = .sendingClose) : life.flow.closed = true := by
  unfold ClosesOnce at closes
  cases isClosed : life.flow.closed with
  | true => rfl
  | false =>
      rw [isClosed, if_pos sending] at closes
      simp at closes

/-- Nothing changes that closure depends on. -/
theorem Still.same {life next : Life} (still : Still life)
    (events : next.events = life.events)
    (holding : next.phase = .holding → life.phase = .holding)
    (sending : next.place = .sendingClose → life.place = .sendingClose)
    (listed : .closed ∈ life.events → next.place = .listed →
      next.sync = false ∧ next.phase = .done) : Still next where
  stops := by rw [events]; exact still.stops
  closing placed held := still.closing (sending placed) (holding held)
  closed member := by
    rw [events] at member
    exact ⟨fun held => (still.closed member).1 (holding held), listed member⟩

/-- One more event of a stream that has not been closed, or one that a closed
stream may have. -/
theorem Still.append {life : Life} (still : Still life) {event : LifeEvent}
    (allowed : event.IsOpen → ∀ earlier ∈ life.events, ¬earlier.IsFinal)
    (other : event ≠ .closed) :
    Still { life with events := life.events ++ [event] } where
  stops := still.stops.append fun ⟨earlier, member, isFinal⟩ isOpen =>
    allowed isOpen earlier member isFinal
  closing := still.closing
  closed member := by
    rcases List.mem_append.mp member with before | last
    · exact still.closed before
    · exact absurd (List.mem_singleton.mp last).symm other

/-- The `CLSE` of the stream. -/
theorem Still.appendClosed {life : Life} (still : Still life)
    {events : List LifeEvent} (sent : AtMost .closed events)
    (quiet : life.phase ≠ .holding ∧
      (life.place = .listed → life.sync = false ∧ life.phase = .done)) :
    Still { life with events := life.events ++ events } := by
  rcases sent with rfl | rfl
  · simpa using still
  · refine ⟨still.stops.append fun _ => by simp [LifeEvent.IsOpen],
      still.closing, fun _ => quiet⟩

theorem Still.step {life next : Life} (placed : Placed life)
    (ordered : Ordered life) (closes : ClosesOnce life) (still : Still life)
    (step : Step careful life next) : Still next := by
  -- An event of an open stream needs a place or a thread that no closed
  -- stream has.
  have unclosed : life.place ≠ .gone → .closed ∉ life.events →
      ∀ earlier ∈ life.events, ¬earlier.IsFinal := by
    rintro stays never earlier member (rfl | rfl)
    · exact never member
    · exact stays (ordered.forgotten member)
  cases step with
  | greet gone => exact still.append (by simp [LifeEvent.IsOpen]) (by simp)
  | acknowledgeOpen spawned =>
      refine still.append (fun _ => unclosed (by simp [spawned]) ?_) (by simp)
      intro member
      have closed := closed_of_mem closes member
      simp [(placed.fresh (.inl spawned)).2] at closed
  | insert spawned told => exact still.same rfl id (by simp) (by simp)
  | abandon spawned => exact still.same rfl id (by simp) (by simp)
  | grant granting =>
      refine still.same rfl id (by simp) fun member => ?_
      have closed := closed_of_mem closes member
      simp [(placed.fresh (.inr granting)).2] at closed
  | accept listed =>
      exact still.same rfl id id fun member => (still.closed member).2
  | acknowledge listed guarded =>
      refine still.append (fun _ => unclosed (by simp [listed]) ?_) (by simp)
      intro member
      obtain ⟨shell, done⟩ := (still.closed member).2 listed
      rcases guarded with sync | running
      · simp [shell] at sync
      · exact running done
  | unlist listed => exact still.same rfl id (by simp) (by simp)
  | close leaving guarded =>
      refine ⟨still.stops, fun _ => guarded, fun member => ⟨guarded, ?_⟩⟩
      intro placed
      simp only at placed
      split at placed <;> simp at placed
  | sendClose sending sent =>
      have left : Still { life with place := .leaving } :=
        still.same rfl id (by simp) (by simp)
      exact left.appendClosed sent ⟨still.closing sending, by simp⟩
  | drop leaving =>
      exact still.same rfl id id fun member => (still.closed member).2
  | join leaving done => exact still.same rfl id (by simp) (by simp)
  | forget gone => exact still.append (by simp [LifeEvent.IsOpen]) (by simp)
  | takeCredit idle credit =>
      have never : .closed ∉ life.events := by
        intro member
        have closed := closed_of_mem closes member
        simp [credit] at closed
      refine ⟨still.stops, fun sending => ?_, fun member => (never member).elim⟩
      have closed := closed_of_sendingClose closes sending
      simp [credit] at closed
  | finish idle =>
      refine still.same rfl (by simp) id fun member listed => ?_
      have := (still.closed member).2 listed
      exact ⟨this.1, rfl⟩
  | write holding sent next =>
      have never : .closed ∉ life.events := fun member =>
        (still.closed member).1 holding
      have stays : life.place ≠ .gone := fun gone => by
        simp [placed.gone gone] at holding
      have allowed := unclosed stays never
      refine ⟨?_, fun sending => absurd holding (still.closing sending), ?_⟩
      · rcases sent with rfl | rfl
        · simpa using still.stops
        · exact (still.append (fun _ => allowed) (by simp)).stops
      · intro member
        rcases List.mem_append.mp member with before | last
        · exact (never before).elim
        · rcases sent with rfl | rfl <;> simp at last
  | closeOutput ended =>
      refine still.same rfl ?_ id fun member listed => ?_
      · simp only
        split <;> simp
      · have := (still.closed member).2 listed
        simp [ended] at this
  | sendCloseOutput sending sent =>
      have ended : Still { life with phase := .done } :=
        still.same rfl (by simp) id fun member listed =>
          ⟨((still.closed member).2 listed).1, rfl⟩
      refine ended.appendClosed sent ⟨by simp, fun _ => ⟨?_, rfl⟩⟩
      by_contra sync
      exact (placed.sync (by simpa using sync)).2 sending

end Life

end Pocketboot.Adb
