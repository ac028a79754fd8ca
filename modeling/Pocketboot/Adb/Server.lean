import Pocketboot.Adb.Streams
import Pocketboot.Transition.System

/-!
# The packet loop

The packet loop and the output threads as steps on one state.  A step is one
access to what they share: a lock section of a flow, a packet written, a
response queued, a thread joined.
-/

namespace Pocketboot.Adb

open Transition

/-- What has happened on the wire to the host: the packets in the order they
were written, and when the `CLSE` of the host for a stream had been handled.
Streams are numbered in the order they are opened. -/
inductive Event where
  /-- The `CNXN` reply, with the number of streams opened before it. -/
  | hello (streams : Nat) (maxPayload : UInt32)
  | opened (index : Nat)
  | acknowledged (index : Nat)
  | wrote (index : Nat) (payload : Bytes)
  | closed (index : Nat)
  | refused (localId remoteId : UInt32)
  | closedByHost (index : Nat)
  deriving DecidableEq, Repr

/-- What the packet loop does after the sessions it drops are gone. -/
inductive After where
  /-- The handler returns, with an error of the transport or without. -/
  | returns (fault : Option Bool)
  | closedByHost (index : Nat) (fault : Option Bool)
  | hello (maxPayload : UInt32)
  | allow (index : Nat)
  /-- The sessions were cleared outside a handler. -/
  | cleared
  | stopped
  deriving DecidableEq, Repr

/-- Where the packet loop is. -/
inductive Loop where
  | idle
  | drop (left : List Nat) (after : After)
  | join (index : Nat) (left : List Nat) (after : After)
  | hello (maxPayload : UInt32)
  | acknowledgeOpen (index : Nat)
  | allow (index : Nat)
  | acknowledgeWrite (index : Nat) (payload : Bytes)
  | input (index : Nat) (payload : Bytes)
  | queue (index : Nat) (left : List SyncResponse) (accepted : Bool)
  | acknowledgeInput (index : Nat)
  | close (index : Nat) (byHost : Bool)
  | sendClose (index : Nat) (byHost : Bool)
  | refuse (localId remoteId : UInt32)
  | stopped
  deriving DecidableEq, Repr

/-- A packet while it is handled: the stream it names, and the packets the loop
has sent for it. -/
structure Handling where
  packet : Packet
  named : Option Nat
  replies : List Event
  deriving DecidableEq, Repr

/-- A packet that has been handled, with the session table and the number of
events when its handler returned. -/
structure Handled where
  handling : Handling
  sessions : List Nat
  events : Nat
  deriving DecidableEq, Repr

structure State where
  streams : List Stream
  /-- The session table, as the numbers of its streams. -/
  sessions : List Nat
  nextLocalId : UInt32
  maxPayload : UInt32
  disconnected : Bool
  loop : Loop
  /-- Packets of the host that have not been read. -/
  rx : List Packet
  history : List Event
  /-- Ghosts: what the host has sent, how much of the history it has received,
  the `OPEN`s handled, and the record of the handlers. -/
  hostSent : List Packet
  received : Nat
  opens : Nat
  handling : Option Handling
  handled : List Handled
  deriving DecidableEq, Repr

def startState : State where
  streams := []
  sessions := []
  nextLocalId := 1
  maxPayload := Adb.maxPayload
  disconnected := false
  loop := .idle
  rx := []
  history := []
  hostSent := []
  received := 0
  opens := 0
  handling := none
  handled := []

/-- What the operations of the packet loop return, and which session it drops
next. -/
structure LoopIo where
  send : SendResult
  write : Told Unit
  sync : SyncIo
  pick : Nat

namespace State

/-- The packet of an event. -/
def packetOf (state : State) : Event → Option Packet
  | .hello _ maxPayload =>
      some ⟨aCnxn, aVersion, maxPayload, connectionBanner⟩
  | .opened index => state.streams[index]?.map fun stream =>
      ⟨aOkay, stream.localId, stream.remoteId, []⟩
  | .acknowledged index => state.streams[index]?.map fun stream =>
      ⟨aOkay, stream.localId, stream.remoteId, []⟩
  | .wrote index payload => state.streams[index]?.map fun stream =>
      ⟨aWrte, stream.localId, stream.remoteId, payload⟩
  | .closed index => state.streams[index]?.map fun stream =>
      ⟨aClse, stream.localId, stream.remoteId, []⟩
  | .refused localId remoteId => some ⟨aClse, localId, remoteId, []⟩
  | .closedByHost _ => none

def update (state : State) (index : Nat) (change : Stream → Stream) : State :=
  { state with streams := state.streams.modify index change }

def goto (state : State) (loop : Loop) : State := { state with loop }

/-- The session with this local id. -/
def lookup (state : State) (localId : UInt32) : Option Nat :=
  state.sessions.find? fun index =>
    state.streams[index]?.any fun stream => stream.localId = localId

def remove (state : State) (index : Nat) : State :=
  { state with sessions := state.sessions.filter (· ≠ index) }

/-! ## Sending -/

def record (state : State) (event : Event) : State :=
  { state with history := state.history ++ [event] }

/-- A payload that is too large is not sent. -/
def sending (state : State) (payload : Nat) (result : SendResult) :
    SendResult :=
  if state.maxPayload.toNat < payload then .failed false false else result

/-- `PacketWriter::send` on an output thread. -/
def send (state : State) (event : Event) (result : SendResult) : State :=
  if result.delivered then state.record event else state

/-- `PacketWriter::send` in the packet loop: the packet is a reply to the one
that is handled. -/
def reply (state : State) (event : Event) (result : SendResult) : State :=
  if result.delivered then
    { state.record event with
      handling := state.handling.map fun handling =>
        { handling with replies := handling.replies ++ [event] } }
  else state

/-! ## The ends of handlers -/

/-- All sessions leave the table, to be dropped. -/
def clear (state : State) (after : After) : State :=
  { state with sessions := [], loop := .drop state.sessions after }

/-- The record of the handler that returns. -/
def finishHandler (state : State) : State :=
  { state with
    handling := none
    handled := state.handled ++ state.handling.toList.map fun handling =>
      Handled.mk handling state.sessions state.history.length }

/-- `run` after `handle_packet`. -/
def returns (state : State) (fault : Option Bool) : State :=
  if fault = some true then
    { state.finishHandler with disconnected := true }.clear .cleared
  else state.finishHandler.goto .idle

def proceed (state : State) : After → State
  | .returns fault => state.returns fault
  | .closedByHost index fault =>
      (state.record (.closedByHost index)).returns fault
  | .hello maxPayload => state.goto (.hello maxPayload)
  | .allow index => state.goto (.allow index)
  | .cleared => state.goto .idle
  | .stopped => state.goto .stopped

/-- The reply that ends a handler. -/
def replyLast (state : State) (event : Event) (result : SendResult) : State :=
  (state.reply event result).returns result.fault

/-! ## The handlers -/

/-- The packet has been read, and its handler begins. -/
def begin (state : State) (packet : Packet) (rest : List Packet) : State :=
  { state with
    rx := rest
    disconnected := false
    handling := some ⟨packet, state.lookup packet.arg1, []⟩ }

def handleConnect (state : State) (packet : Packet) : State :=
  let agreed := max maxPayloadV1 (min packet.arg1 Adb.maxPayload)
  { state with maxPayload := agreed }.clear (.hello agreed)

/-- `wrapping_add(1).max(1)`. -/
def followingId (id : UInt32) : UInt32 := max (id + 1) 1

/-- The ghost count of `OPEN`s. -/
def countOpen (state : State) : State := { state with opens := state.opens + 1 }

def allocate (state : State) : State :=
  { state with nextLocalId := followingId state.nextLocalId }

/-- A session that is not yet in the table. -/
def spawn (state : State) (stream : Stream) : State :=
  { state with
    streams := state.streams ++ [stream]
    loop := .acknowledgeOpen state.streams.length }

def handleOpen (state : State) (packet : Packet) (spawned : Bool) : State :=
  let state := state.countOpen
  match serviceName packet.payload with
  | .error _ => state.returns (some false)
  | .ok name =>
      match adbService name with
      | none => state.goto (.refuse 0 packet.arg0)
      | some service =>
          if spawned then
            state.allocate.spawn
              (.spawn state.nextLocalId packet.arg0 service)
          else state.allocate.goto (.refuse 0 packet.arg0)

def handleWrite (state : State) (packet : Packet) : State :=
  match state.lookup packet.arg1 with
  | none => state.goto (.refuse 0 packet.arg0)
  | some index =>
      match state.streams[index]? with
      | none => state.goto (.refuse 0 packet.arg0)
      | some stream =>
          if stream.remoteId ≠ packet.arg0 then
            state.goto (.refuse packet.arg1 packet.arg0)
          else if stream.service.acknowledgeBeforeWrite then
            state.goto (.acknowledgeWrite index packet.payload)
          else state.goto (.input index packet.payload)

/-- The stream whose `OKAY` the packet is. -/
def acknowledges (state : State) (packet : Packet) : Option Nat :=
  (state.lookup packet.arg1).filter fun index =>
    state.streams[index]?.any fun stream => stream.remoteId = packet.arg0

def handleOkay (state : State) (packet : Packet) : State :=
  match state.acknowledges packet with
  | none => state.returns none
  | some index =>
      (state.update index Stream.acknowledgeOutput).returns none

def handleClose (state : State) (packet : Packet) : State :=
  match state.lookup packet.arg1 with
  | none => state.returns none
  | some index => (state.remove index).goto (.close index true)

def handlePacket (state : State) (packet : Packet) (spawned : Bool) : State :=
  if packet.command = aCnxn then state.handleConnect packet
  else if packet.command = aOpen then state.handleOpen packet spawned
  else if packet.command = aWrte then state.handleWrite packet
  else if packet.command = aOkay then state.handleOkay packet
  else if packet.command = aClse then state.handleClose packet
  else state.returns none

/-! ## Steps of the packet loop within a handler -/

/-- The session enters the table; one with the same local id is dropped. -/
def insertSession (state : State) (index : Nat) : State :=
  let localId := (state.streams[index]?.map Stream.localId).getD 0
  let replaced := state.sessions.filter fun other =>
    state.streams[other]?.any fun stream => stream.localId = localId
  { state with
    sessions := index :: state.sessions.filter (· ∉ replaced)
    loop := .drop replaced (.allow index) }

/-- The input failed: the session is closed. -/
def inputFails (state : State) (index : Nat) : State :=
  (state.remove index).goto (.close index false)

/-- What follows the closing of a session. -/
def afterClose (index : Nat) (byHost : Bool) (fault : Option Bool) : After :=
  if byHost then .closedByHost index fault else .returns fault

def stepLoop (state : State) (io : LoopIo) : Option State :=
  match state.loop with
  | .idle => none
  | .stopped => none
  | .drop [] after => some (state.proceed after)
  | .drop left after =>
      if io.pick ∈ left then
        some ((state.update io.pick Stream.close).goto
          (.join io.pick (left.erase io.pick) after))
      else none
  | .join index left after =>
      match state.streams[index]? with
      | some stream =>
          if stream.output = .done then some (state.goto (.drop left after))
          else none
      | none => none
  | .hello maxPayload =>
      some (state.replyLast (.hello state.streams.length maxPayload)
        (state.sending connectionBanner.length io.send))
  | .acknowledgeOpen index =>
      let next := state.reply (.opened index) io.send
      match io.send.fault with
      | none => some (next.insertSession index)
      | fault => some (next.goto (.drop [index] (.returns fault)))
  | .allow index =>
      some ((state.update index Stream.allowOutput).returns none)
  | .acknowledgeWrite index payload =>
      let next := state.reply (.acknowledged index) io.send
      match io.send.fault with
      | none => some (next.goto (.input index payload))
      | fault => some (next.returns fault)
  | .input index payload =>
      match state.streams[index]? with
      | none => none
      | some stream =>
          if stream.service = .sync then
            let (outcome, work) := stream.input.write io.sync payload
            some ((state.update index fun stream =>
              { stream with input := work.input }).goto
                (.queue index work.pushed outcome.toOption.isSome))
          else
            match io.write with
            | .ok () => some (state.goto (.acknowledgeInput index))
            | .error _ => some (state.inputFails index)
  | .queue _ [] true => some (state.returns none)
  | .queue index [] false => some (state.inputFails index)
  | .queue index (response :: left) accepted =>
      match state.streams[index]? with
      | none => none
      | some stream =>
          if stream.output = .done then some (state.inputFails index)
          else
            some ((state.update index fun stream =>
              { stream with channel := stream.channel ++ [response] }).goto
                (.queue index left accepted))
  | .acknowledgeInput index =>
      some (state.replyLast (.acknowledged index) io.send)
  | .close index byHost =>
      match state.streams[index]? with
      | none => none
      | some stream =>
          some ((state.update index Stream.close).goto
            (if stream.flow.close.1 then .sendClose index byHost
              else .drop [index] (afterClose index byHost none)))
  | .sendClose index byHost =>
      some ((state.reply (.closed index) io.send).goto
        (.drop [index] (afterClose index byHost io.send.fault)))
  | .refuse localId remoteId =>
      some (state.replyLast (.refused localId remoteId) io.send)

/-! ## Steps of an output thread -/

/-- A `WRTE`, and what the thread does after it or after its failure. -/
def sendWrite (state : State) (index : Nat) (payload : Bytes)
    (result : SendResult) (sent failed : Output) : State :=
  let result := state.sending payload.length result
  (state.send (.wrote index payload) result).update index
    (Stream.setOutput · (if result.fault = none then sent else failed))

/-- Where a sync thread goes on. -/
def resume : SyncNext → Output
  | .response => .receive
  | .chunk path size => .readFile path size

def stepOutput (state : State) (index : Nat) (io : OutputIo) :
    Option State :=
  match state.streams[index]? with
  | none => none
  | some stream =>
      match stream.output with
      | .awaitCredit => (stream.takeCredit .read).map fun next =>
          state.update index fun _ => next
      | .read => some (state.update index fun _ => stream.read io)
      | .send payload =>
          some (state.sendWrite index payload io.send .awaitCredit .ended)
      | .ended => some (state.update index fun _ => stream.closeOutput)
      | .receive => (stream.receive state.maxPayload io).map fun next =>
          state.update index fun _ => next
      | .readFile path size =>
          some (state.update index fun _ => stream.readFile path size io)
      | .awaitCreditFor payload next =>
          (stream.takeCredit (.sendFor payload next)).map fun next =>
            state.update index fun _ => next
      | .sendFor payload next =>
          some (state.sendWrite index payload io.send (resume next) .done)
      | .sendClose =>
          some ((state.send (.closed index) io.send).update index
            (Stream.setOutput · .done))
      | .done => none

end State

inductive Action where
  | hostSend (packet : Packet)
  | hostReceive
  | handle (spawned : Bool)
  /-- A read fails because the host is gone. -/
  | readFails
  /-- The server is stopped, or a read fails for good. -/
  | leave
  | loop (io : LoopIo)
  | output (index : Nat) (io : OutputIo)

namespace State

def step (state : State) : Action → Option State
  | .hostSend packet =>
      some { state with
        rx := state.rx ++ [packet]
        hostSent := state.hostSent ++ [packet] }
  | .hostReceive =>
      if state.received < state.history.length then
        some { state with received := state.received + 1 }
      else none
  | .handle spawned =>
      match state.loop, state.rx with
      | .idle, packet :: rest =>
          -- A payload that is too large is fatal.
          if state.maxPayload.toNat < packet.payload.length then
            some ({ state with rx := rest }.clear .stopped)
          else some ((state.begin packet rest).handlePacket packet spawned)
      | _, _ => none
  | .readFails =>
      match state.loop with
      | .idle =>
          if state.disconnected then some state
          else some ({ state with disconnected := true }.clear .cleared)
      | _ => none
  | .leave =>
      match state.loop with
      | .idle => some (state.clear .stopped)
      | _ => none
  | .loop io => state.stepLoop io
  | .output index io => state.stepOutput index io

end State

/-- The server, its output threads and its host. -/
def server : System State Action where
  initial := startState
  step := State.step

/-! ## Inputs of runs -/

/-- The host opens a shell as its stream 7. -/
def shellPacket : Packet := ⟨aOpen, 7, 0, Text.utf8 "shell:".toList⟩

def idleSync : SyncIo where
  stat _ := none
  readDir _ := .ok []
  createDirAll _ := .ok ()
  createSyncFile _ := .ok ()
  writeAll _ := .ok ()
  flush _ := .ok ()
  setSyncMode _ := .ok ()
  setSyncMtime _ := .ok ()

/-- All goes well in the packet loop. -/
def idleLoop : LoopIo where
  send := .sent
  write := .ok ()
  sync := idleSync
  pick := 0

/-- The process has written a line. -/
def idleOutput : OutputIo where
  read := .ok [104, 105, 10]
  openFile := .ok ()
  send := .sent

end Pocketboot.Adb
