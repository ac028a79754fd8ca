import Pocketboot.Adb.Server

/-!
# What each step does

The cases of a step, once: when each is enabled, and the state after it.
-/

namespace Pocketboot.Adb

/-- A step of an output thread that sends nothing. -/
inductive Stream.Quiet (maxPayload : UInt32) (io : OutputIo) (stream : Stream) :
    Stream → Prop
  | finish (waits : stream.output = .awaitCredit ∨
        ∃ payload next, stream.output = .awaitCreditFor payload next)
      (closed : stream.flow.closed = true) :
      Quiet maxPayload io stream (stream.setOutput .done)
  | takeCredit {granted : Output}
      (waits : (stream.output = .awaitCredit ∧ granted = .read) ∨
        ∃ payload next, stream.output = .awaitCreditFor payload next ∧
          granted = .sendFor payload next)
      (credit : stream.flow = ⟨true, false⟩) :
      Quiet maxPayload io stream
        { stream with flow := .new, output := granted }
  | read (reads : stream.output = .read) :
      Quiet maxPayload io stream (stream.read io)
  | closeOutput (ended : stream.output = .ended) :
      Quiet maxPayload io stream stream.closeOutput
  | receive {next : Stream} (waits : stream.output = .receive)
      (received : stream.receive maxPayload io = some next) :
      Quiet maxPayload io stream next
  | readFile {path : Bytes} {size : Nat}
      (reads : stream.output = .readFile path size) :
      Quiet maxPayload io stream (stream.readFile path size io)

theorem Stream.takeCredit_cases {stream next : Stream} {granted : Output}
    (taken : stream.takeCredit granted = some next) :
    (stream.flow.closed = true ∧ next = stream.setOutput .done) ∨
      (stream.flow = ⟨true, false⟩ ∧
        next = { stream with flow := .new, output := granted }) := by
  unfold takeCredit OutputFlow.waitForWriteCredit at taken
  cases closed : stream.flow.closed with
  | true =>
      simp only [closed, if_true, Option.some.injEq] at taken
      exact .inl ⟨rfl, taken.symm⟩
  | false =>
      cases credit : stream.flow.canWrite with
      | true =>
          simp only [closed, credit, Bool.false_eq_true, if_false, if_true,
            Option.some.injEq] at taken
          refine .inr ⟨?_, taken.symm⟩
          rw [← credit, ← closed]
      | false => simp [closed, credit] at taken

namespace State

/-- The loop is idle and reads a packet. -/
structure Reads (state : State) (packet : Packet) (rest : List Packet) :
    Prop where
  idle : state.loop = .idle
  rx : state.rx = packet :: rest

inductive Steps (state : State) : Action → State → Prop
  | hostSend {packet : Packet} :
      Steps state (.hostSend packet)
        { state with
          rx := state.rx ++ [packet]
          hostSent := state.hostSent ++ [packet] }
  | hostReceive (more : state.received < state.history.length) :
      Steps state .hostReceive { state with received := state.received + 1 }
  -- `handle_packet`
  | connect {packet : Packet} {rest : List Packet} {spawned : Bool}
      (reads : state.Reads packet rest) (command : packet.command = aCnxn) :
      Steps state (.handle spawned)
        ((state.begin packet rest).handleConnect packet)
  | openUndecodable {packet : Packet} {rest : List Packet} {spawned : Bool}
      (reads : state.Reads packet rest) (command : packet.command = aOpen)
      {error : Fault IoError} (name : serviceName packet.payload = .error error) :
      Steps state (.handle spawned)
        ((state.begin packet rest).countOpen.returns (some false))
  | openRefused {packet : Packet} {rest : List Packet} {spawned : Bool}
      (reads : state.Reads packet rest) (command : packet.command = aOpen)
      {name : Text} (named : serviceName packet.payload = .ok name)
      {next : State}
      (allocates : next = (state.begin packet rest).countOpen ∨
        next = (state.begin packet rest).countOpen.allocate) :
      Steps state (.handle spawned) (next.goto (.refuse 0 packet.arg0))
  | openSpawned {packet : Packet} {rest : List Packet} {spawned : Bool}
      (reads : state.Reads packet rest) (command : packet.command = aOpen)
      {name : Text} (named : serviceName packet.payload = .ok name)
      (service : AdbService) :
      Steps state (.handle spawned)
        ((state.begin packet rest).countOpen.allocate.spawn
          (.spawn state.nextLocalId packet.arg0 service))
  | writeRefused {packet : Packet} {rest : List Packet} {spawned : Bool}
      (reads : state.Reads packet rest) (command : packet.command = aWrte)
      (localId : UInt32) :
      Steps state (.handle spawned)
        ((state.begin packet rest).goto (.refuse localId packet.arg0))
  | writeSync {packet : Packet} {rest : List Packet} {spawned : Bool}
      (reads : state.Reads packet rest) (command : packet.command = aWrte)
      {index : Nat} (named : state.lookup packet.arg1 = some index)
      {stream : Stream} (found : state.streams[index]? = some stream)
      (remote : stream.remoteId = packet.arg0)
      (sync : stream.service = .sync) :
      Steps state (.handle spawned)
        ((state.begin packet rest).goto
          (.acknowledgeWrite index packet.payload))
  | writeInput {packet : Packet} {rest : List Packet} {spawned : Bool}
      (reads : state.Reads packet rest) (command : packet.command = aWrte)
      {index : Nat} (named : state.lookup packet.arg1 = some index)
      {stream : Stream} (found : state.streams[index]? = some stream)
      (remote : stream.remoteId = packet.arg0)
      (other : stream.service ≠ .sync) :
      Steps state (.handle spawned)
        ((state.begin packet rest).goto (.input index packet.payload))
  | okay {packet : Packet} {rest : List Packet} {spawned : Bool}
      (reads : state.Reads packet rest) (command : packet.command = aOkay)
      {index : Nat} (accepts : state.acknowledges packet = some index) :
      Steps state (.handle spawned)
        (((state.begin packet rest).update index
          Stream.acknowledgeOutput).returns none)
  | close {packet : Packet} {rest : List Packet} {spawned : Bool}
      (reads : state.Reads packet rest) (command : packet.command = aClse)
      {index : Nat} (named : state.lookup packet.arg1 = some index) :
      Steps state (.handle spawned)
        (((state.begin packet rest).remove index).goto (.close index true))
  | ignored {packet : Packet} {rest : List Packet} {spawned : Bool}
      (reads : state.Reads packet rest)
      (command : packet.command ≠ aOpen ∧ packet.command ≠ aWrte) :
      Steps state (.handle spawned)
        ((state.begin packet rest).returns none)
  -- `run`
  | tooLarge {packet : Packet} {rest : List Packet} {spawned : Bool}
      (reads : state.Reads packet rest) :
      Steps state (.handle spawned) ({ state with rx := rest }.clear .stopped)
  | stillDisconnected (idle : state.loop = .idle) :
      Steps state .readFails state
  | disconnect (idle : state.loop = .idle) :
      Steps state .readFails
        ({ state with disconnected := true }.clear .cleared)
  | leave (idle : state.loop = .idle) :
      Steps state .leave (state.clear .stopped)
  -- within a handler
  | dropped {io : LoopIo} {after : After} (loop : state.loop = .drop [] after) :
      Steps state (.loop io) (state.proceed after)
  | drop {io : LoopIo} {left : List Nat} {after : After}
      (loop : state.loop = .drop left after) (picked : io.pick ∈ left) :
      Steps state (.loop io)
        ((state.update io.pick Stream.close).goto
          (.join io.pick (left.erase io.pick) after))
  | join {io : LoopIo} {index : Nat} {left : List Nat} {after : After}
      (loop : state.loop = .join index left after) {stream : Stream}
      (found : state.streams[index]? = some stream)
      (done : stream.output = .done) :
      Steps state (.loop io) (state.goto (.drop left after))
  | hello {io : LoopIo} {maxPayload : UInt32}
      (loop : state.loop = .hello maxPayload) :
      Steps state (.loop io)
        (state.replyLast (.hello state.streams.length maxPayload)
          (state.sending connectionBanner.length io.send))
  | acknowledgeOpen {io : LoopIo} {index : Nat}
      (loop : state.loop = .acknowledgeOpen index) (sent : io.send = .sent) :
      Steps state (.loop io)
        ((state.reply (.opened index) .sent).insertSession index)
  | acknowledgeOpenFails {io : LoopIo} {index : Nat}
      (loop : state.loop = .acknowledgeOpen index)
      {disconnect delivered : Bool}
      (failed : io.send = .failed disconnect delivered) :
      Steps state (.loop io)
        ((state.reply (.opened index) io.send).goto
          (.drop [index] (.returns (some disconnect))))
  | allow {io : LoopIo} {index : Nat} (loop : state.loop = .allow index) :
      Steps state (.loop io)
        ((state.update index Stream.allowOutput).returns none)
  | acknowledgeWrite {io : LoopIo} {index : Nat} {payload : Bytes}
      (loop : state.loop = .acknowledgeWrite index payload)
      (sent : io.send = .sent) :
      Steps state (.loop io)
        ((state.reply (.acknowledged index) .sent).goto
          (.input index payload))
  | acknowledgeWriteFails {io : LoopIo} {index : Nat} {payload : Bytes}
      (loop : state.loop = .acknowledgeWrite index payload)
      {disconnect delivered : Bool}
      (failed : io.send = .failed disconnect delivered) :
      Steps state (.loop io)
        ((state.reply (.acknowledged index) io.send).returns
          (some disconnect))
  | inputSync {io : LoopIo} {index : Nat} {payload : Bytes}
      (loop : state.loop = .input index payload) {stream : Stream}
      (found : state.streams[index]? = some stream)
      (sync : stream.service = .sync)
      (input : SyncInput) (pushed : List SyncResponse) (accepted : Bool) :
      Steps state (.loop io)
        ((state.update index fun stream => { stream with input }).goto
          (.queue index pushed accepted))
  | input {io : LoopIo} {index : Nat} {payload : Bytes}
      (loop : state.loop = .input index payload) {stream : Stream}
      (found : state.streams[index]? = some stream)
      (other : stream.service ≠ .sync) :
      Steps state (.loop io) (state.goto (.acknowledgeInput index))
  | inputFails {io : LoopIo} {index : Nat}
      (loop : (∃ payload, state.loop = .input index payload ∧
          ∀ stream, state.streams[index]? = some stream →
            stream.service ≠ .sync) ∨
        ∃ left accepted, state.loop = .queue index left accepted) :
      Steps state (.loop io) (state.inputFails index)
  | queued {io : LoopIo} {index : Nat}
      (loop : state.loop = .queue index [] true) :
      Steps state (.loop io) (state.returns none)
  | queue {io : LoopIo} {index : Nat} {response : SyncResponse}
      {left : List SyncResponse} {accepted : Bool}
      (loop : state.loop = .queue index (response :: left) accepted) :
      Steps state (.loop io)
        ((state.update index fun stream =>
          { stream with channel := stream.channel ++ [response] }).goto
            (.queue index left accepted))
  | acknowledgeInput {io : LoopIo} {index : Nat}
      (loop : state.loop = .acknowledgeInput index) :
      Steps state (.loop io)
        (state.replyLast (.acknowledged index) io.send)
  | closeSession {io : LoopIo} {index : Nat} {byHost : Bool}
      (loop : state.loop = .close index byHost) {stream : Stream}
      (found : state.streams[index]? = some stream) :
      Steps state (.loop io)
        ((state.update index Stream.close).goto
          (if stream.flow.close.1 then .sendClose index byHost
            else .drop [index] (afterClose index byHost none)))
  | sendClose {io : LoopIo} {index : Nat} {byHost : Bool}
      (loop : state.loop = .sendClose index byHost) :
      Steps state (.loop io)
        ((state.reply (.closed index) io.send).goto
          (.drop [index] (afterClose index byHost io.send.fault)))
  | refuse {io : LoopIo} {localId remoteId : UInt32}
      (loop : state.loop = .refuse localId remoteId) :
      Steps state (.loop io)
        (state.replyLast (.refused localId remoteId) io.send)
  -- an output thread
  | quiet {index : Nat} {io : OutputIo} {stream next : Stream}
      (found : state.streams[index]? = some stream)
      (quiet : stream.Quiet state.maxPayload io next) :
      Steps state (.output index io) (state.update index fun _ => next)
  | write {index : Nat} {io : OutputIo} {stream : Stream}
      (found : state.streams[index]? = some stream)
      {payload : Bytes} {sent failed : Output}
      (sends : (stream.output = .send payload ∧ sent = .awaitCredit ∧
          failed = .ended) ∨
        ∃ next, stream.output = .sendFor payload next ∧
          sent = resume next ∧ failed = .done) :
      Steps state (.output index io)
        (state.sendWrite index payload io.send sent failed)
  | closeStream {index : Nat} {io : OutputIo} {stream : Stream}
      (found : state.streams[index]? = some stream)
      (sends : stream.output = .sendClose) :
      Steps state (.output index io)
        ((state.send (.closed index) io.send).update index
          (Stream.setOutput · .done))

/-! ## Every step is one of these -/

theorem steps_of_handleOpen {state : State} {packet : Packet}
    {rest : List Packet} {spawned : Bool} (reads : state.Reads packet rest)
    (command : packet.command = aOpen) :
    Steps state (.handle spawned)
      ((state.begin packet rest).handleOpen packet spawned) := by
  unfold handleOpen
  cases name : serviceName packet.payload with
  | error error => exact .openUndecodable reads command name
  | ok service =>
      simp only
      cases adbService service with
      | none => exact .openRefused reads command name (.inl rfl)
      | some service =>
          cases spawned with
          | true => exact .openSpawned reads command name service
          | false => exact .openRefused reads command name (.inr rfl)

theorem steps_of_handleWrite {state : State} {packet : Packet}
    {rest : List Packet} {spawned : Bool} (reads : state.Reads packet rest)
    (command : packet.command = aWrte) :
    Steps state (.handle spawned)
      ((state.begin packet rest).handleWrite packet) := by
  have lookup : (state.begin packet rest).lookup packet.arg1 =
      state.lookup packet.arg1 := rfl
  have streams : (state.begin packet rest).streams = state.streams := rfl
  unfold handleWrite
  rw [lookup]
  cases named : state.lookup packet.arg1 with
  | none => exact .writeRefused reads command 0
  | some index =>
      simp only [streams]
      cases found : state.streams[index]? with
      | none => exact .writeRefused reads command 0
      | some stream =>
          by_cases remote : stream.remoteId = packet.arg0
          · simp only [ne_eq, remote, not_true_eq_false, if_false]
            cases service : stream.service with
            | sync => exact .writeSync reads command named found remote service
            | shell command' =>
                exact .writeInput reads command named found remote
                  (by simp [service])
            | exec command' =>
                exact .writeInput reads command named found remote
                  (by simp [service])
          · simp only [ne_eq, remote, not_false_eq_true, if_true]
            exact .writeRefused reads command packet.arg1

theorem steps_of_handle {state next : State} {spawned : Bool}
    (steps : state.step (.handle spawned) = some next) :
    Steps state (.handle spawned) next := by
  simp only [step] at steps
  split at steps
  · rename_i packet rest idle rx
    have reads : state.Reads packet rest := ⟨idle, rx⟩
    split at steps
    · obtain rfl := Option.some.inj steps
      exact .tooLarge reads
    obtain rfl := Option.some.inj steps
    unfold handlePacket
    by_cases connect : packet.command = aCnxn
    · rw [if_pos connect]
      exact .connect reads connect
    · rw [if_neg connect]
      by_cases opens : packet.command = aOpen
      · rw [if_pos opens]
        exact steps_of_handleOpen reads opens
      · rw [if_neg opens]
        by_cases writes : packet.command = aWrte
        · rw [if_pos writes]
          exact steps_of_handleWrite reads writes
        · rw [if_neg writes]
          have other := And.intro opens writes
          have acknowledges : (state.begin packet rest).acknowledges packet =
              state.acknowledges packet := rfl
          have lookup : (state.begin packet rest).lookup packet.arg1 =
              state.lookup packet.arg1 := rfl
          by_cases okays : packet.command = aOkay
          · rw [if_pos okays, handleOkay, acknowledges]
            cases accepts : state.acknowledges packet with
            | none => exact .ignored reads other
            | some index => exact .okay reads okays accepts
          · rw [if_neg okays]
            by_cases closes : packet.command = aClse
            · rw [if_pos closes, handleClose, lookup]
              cases named : state.lookup packet.arg1 with
              | none => exact .ignored reads other
              | some index => exact .close reads closes named
            · rw [if_neg closes]
              exact .ignored reads other
  · simp at steps

theorem steps_of_loop {state next : State} {io : LoopIo}
    (steps : state.stepLoop io = some next) : Steps state (.loop io) next := by
  cases loop : state.loop with
  | idle => simp [stepLoop, loop] at steps
  | stopped => simp [stepLoop, loop] at steps
  | drop left after =>
      cases left with
      | nil =>
          simp only [stepLoop, loop, Option.some.injEq] at steps
          obtain rfl := steps
          exact .dropped loop
      | cons first left =>
          simp only [stepLoop, loop] at steps
          split at steps
          · rename_i picked
            obtain rfl := Option.some.inj steps
            exact .drop loop picked
          · simp at steps
  | join index left after =>
      simp only [stepLoop, loop] at steps
      split at steps
      · rename_i stream found
        split at steps
        · rename_i done
          obtain rfl := Option.some.inj steps
          exact .join loop found done
        · simp at steps
      · simp at steps
  | hello maxPayload =>
      simp only [stepLoop, loop, Option.some.injEq] at steps
      obtain rfl := steps
      exact .hello loop
  | acknowledgeOpen index =>
      simp only [stepLoop, loop] at steps
      cases result : io.send with
      | sent =>
          simp only [result, SendResult.fault, Option.some.injEq] at steps
          obtain rfl := steps
          exact .acknowledgeOpen loop result
      | failed disconnect delivered =>
          simp only [SendResult.fault, result, Option.some.injEq] at steps
          obtain rfl := steps
          rw [← result]
          exact .acknowledgeOpenFails loop result
  | allow index =>
      simp only [stepLoop, loop, Option.some.injEq] at steps
      obtain rfl := steps
      exact .allow loop
  | acknowledgeWrite index payload =>
      simp only [stepLoop, loop] at steps
      cases result : io.send with
      | sent =>
          simp only [result, SendResult.fault, Option.some.injEq] at steps
          obtain rfl := steps
          exact .acknowledgeWrite loop result
      | failed disconnect delivered =>
          simp only [SendResult.fault, result, Option.some.injEq] at steps
          obtain rfl := steps
          rw [← result]
          exact .acknowledgeWriteFails loop result
  | input index payload =>
      simp only [stepLoop, loop] at steps
      split at steps
      · simp at steps
      · rename_i stream found
        split at steps
        · rename_i sync
          obtain rfl := Option.some.inj steps
          exact .inputSync loop found sync _ _ _
        · rename_i other
          split at steps
          · obtain rfl := Option.some.inj steps
            exact .input loop found other
          · obtain rfl := Option.some.inj steps
            refine .inputFails (.inl ⟨payload, loop, ?_⟩)
            intro same found'
            obtain rfl := Option.some.inj (found.symm.trans found')
            exact other
  | queue index left accepted =>
      cases left with
      | nil =>
          cases accepted with
          | true =>
              simp only [stepLoop, loop, Option.some.injEq] at steps
              obtain rfl := steps
              exact .queued loop
          | false =>
              simp only [stepLoop, loop, Option.some.injEq] at steps
              obtain rfl := steps
              exact .inputFails (.inr ⟨_, _, loop⟩)
      | cons response left =>
          simp only [stepLoop, loop] at steps
          split at steps
          · simp at steps
          · split at steps
            · obtain rfl := Option.some.inj steps
              exact .inputFails (.inr ⟨_, _, loop⟩)
            · obtain rfl := Option.some.inj steps
              exact .queue loop
  | acknowledgeInput index =>
      simp only [stepLoop, loop, Option.some.injEq] at steps
      obtain rfl := steps
      exact .acknowledgeInput loop
  | close index byHost =>
      simp only [stepLoop, loop] at steps
      split at steps
      · simp at steps
      · rename_i stream found
        obtain rfl := Option.some.inj steps
        exact .closeSession loop found
  | sendClose index byHost =>
      simp only [stepLoop, loop, Option.some.injEq] at steps
      obtain rfl := steps
      exact .sendClose loop
  | refuse localId remoteId =>
      simp only [stepLoop, loop, Option.some.injEq] at steps
      obtain rfl := steps
      exact .refuse loop

theorem steps_of_output {state next : State} {index : Nat} {io : OutputIo}
    (steps : state.stepOutput index io = some next) :
    Steps state (.output index io) next := by
  unfold stepOutput at steps
  cases found : state.streams[index]? with
  | none => simp [found] at steps
  | some stream =>
      simp only [found] at steps
      have credit : ∀ {granted : Output} {changed : Stream},
          ((stream.output = .awaitCredit ∧ granted = .read) ∨
            ∃ payload next, stream.output = .awaitCreditFor payload next ∧
              granted = .sendFor payload next) →
          stream.takeCredit granted = some changed →
          stream.Quiet state.maxPayload io changed := by
        intro granted changed waits taken
        rcases Stream.takeCredit_cases taken with ⟨closed, rfl⟩ | ⟨credit, rfl⟩
        · refine .finish ?_ closed
          rcases waits with ⟨waits, _⟩ | ⟨payload, next, waits, _⟩
          · exact .inl waits
          · exact .inr ⟨payload, next, waits⟩
        · exact .takeCredit waits credit
      cases output : stream.output with
      | awaitCredit =>
          simp only [output, Option.map_eq_some_iff] at steps
          obtain ⟨changed, taken, rfl⟩ := steps
          exact .quiet found (credit (.inl ⟨output, rfl⟩) taken)
      | read =>
          simp only [output, Option.some.injEq] at steps
          obtain rfl := steps
          exact .quiet found (.read output)
      | send payload =>
          simp only [output, Option.some.injEq] at steps
          obtain rfl := steps
          exact .write found (.inl ⟨output, rfl, rfl⟩)
      | ended =>
          simp only [output, Option.some.injEq] at steps
          obtain rfl := steps
          exact .quiet found (.closeOutput output)
      | receive =>
          simp only [output, Option.map_eq_some_iff] at steps
          obtain ⟨changed, received, rfl⟩ := steps
          exact .quiet found (.receive output received)
      | readFile path size =>
          simp only [output, Option.some.injEq] at steps
          obtain rfl := steps
          exact .quiet found (.readFile output)
      | awaitCreditFor payload next =>
          simp only [output, Option.map_eq_some_iff] at steps
          obtain ⟨changed, taken, rfl⟩ := steps
          exact .quiet found (credit (.inr ⟨_, _, output, rfl⟩) taken)
      | sendFor payload next =>
          simp only [output, Option.some.injEq] at steps
          obtain rfl := steps
          exact .write found (.inr ⟨_, output, rfl, rfl⟩)
      | sendClose =>
          simp only [output, Option.some.injEq] at steps
          obtain rfl := steps
          exact .closeStream found output
      | done => simp [output] at steps

theorem steps_of_step {state next : State} {action : Action}
    (steps : state.step action = some next) : Steps state action next := by
  cases action with
  | hostSend packet =>
      obtain rfl := Option.some.inj steps
      exact .hostSend
  | hostReceive =>
      simp only [step] at steps
      split at steps
      · rename_i more
        obtain rfl := Option.some.inj steps
        exact .hostReceive more
      · simp at steps
  | handle spawned => exact steps_of_handle steps
  | readFails =>
      simp only [step] at steps
      split at steps
      · rename_i idle
        split at steps
        · obtain rfl := Option.some.inj steps
          exact .stillDisconnected idle
        · obtain rfl := Option.some.inj steps
          exact .disconnect idle
      · simp at steps
  | leave =>
      simp only [step] at steps
      split at steps
      · rename_i idle
        obtain rfl := Option.some.inj steps
        exact .leave idle
      · simp at steps
  | loop io => exact steps_of_loop steps
  | output index io => exact steps_of_output steps

end State

end Pocketboot.Adb
