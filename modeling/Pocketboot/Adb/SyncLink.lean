import Pocketboot.Adb.Server
import Pocketboot.Adb.SyncFiles
import Pocketboot.Transition.System

/-!
# A sync stream over a file system

One sync stream from end to end: the payloads that arrive, the session that
takes requests from them, the queue to the output thread, the thread that sends
replies one `WRTE` at a time, and the file system that both work on.  The
session and the thread take their steps in any order.
-/

namespace Pocketboot.Adb

structure SyncLink (σ : Type) where
  buffer : Bytes
  /-- The session; its files are the device's. -/
  worker : SyncWorker σ
  /-- The queue, the flow and the output thread. -/
  stream : Stream
  /-- The position in the file that the thread sends. -/
  offset : Nat
  /-- Ghosts: the bytes that arrived, the responses that the thread has taken,
  the payloads delivered to the host, and whether the transport failed. -/
  arrived : Bytes
  taken : List SyncResponse
  sent : List Bytes
  lost : Bool

inductive SyncAction where
  /-- A `WRTE` with this payload is given to the session. -/
  | arrive (payload : Bytes)
  /-- The session takes a message from its buffer. -/
  | handle
  /-- The output thread takes a step; a packet it sends fares like this. -/
  | output (result : SendResult)
  | okay
  /-- The session leaves the table. -/
  | close

namespace SyncLink

variable {σ : Type}

def opened (files : σ) : SyncLink σ where
  buffer := []
  worker := .fresh files
  stream := (Stream.spawn 1 1 .sync).allowOutput
  offset := 0
  arrived := []
  taken := []
  sent := []
  lost := false

def setFiles (link : SyncLink σ) (files : σ) : SyncLink σ :=
  { link with worker := { link.worker with files := files } }

def setStream (link : SyncLink σ) (stream : Stream) : SyncLink σ :=
  { link with stream := stream }

section

variable (fs : FileSystem σ) (maxPayload : UInt32) (link : SyncLink σ)

def arrive (payload : Bytes) : Option (SyncLink σ) :=
  if link.stream.hungUp ∨ (link.worker.nextMessage link.buffer).isSome then none
  else
    some { link with
      buffer := link.buffer ++ payload
      arrived := link.arrived ++ payload }

/-- What a message makes the session queue. -/
def queued (message : SyncMessage) : List SyncResponse :=
  (link.worker.perform fs message).2.responses.drop link.worker.responses.length

/-- The session after a message whose responses are queued. -/
def performed (message : SyncMessage) (size : Nat) : SyncLink σ :=
  let (outcome, worker) := link.worker.perform fs message
  let stream := { link.stream with
    channel := link.stream.channel ++ link.queued fs message }
  match outcome with
  | .ok true =>
      { link with
        buffer := link.buffer.drop size
        worker := worker
        stream := stream }
  | .ok false => { link with buffer := [], worker := worker, stream := stream }
  | .error _ => { link with worker := worker, stream := stream.close }

/-- The session after a message whose response finds no thread. -/
def unheard (message : SyncMessage) : SyncLink σ :=
  let worker := (link.worker.perform fs message).2
  { link with
    worker := { worker with responses := link.worker.responses }
    stream := link.stream.close }

def handle : Option (SyncLink σ) :=
  if link.stream.hungUp then none
  else
    match link.worker.nextMessage link.buffer with
    | none => none
    | some (message, size) =>
        if link.stream.output = .done ∧ link.queued fs message ≠ [] then
          some (link.unheard fs message)
        else some (link.performed fs message size)

/-- The next response, and the opening of a file to send. -/
def receive : Option (SyncLink σ) :=
  match link.stream.channel with
  | .file path :: _ =>
      let (result, files) := fs.openRead path link.worker.files
      (link.stream.receive maxPayload ⟨.ok [], result, .sent⟩).map fun stream =>
        { (link.setFiles files).setStream stream with
          offset := 0
          taken := link.taken ++ [.file path] }
  | channel =>
      (link.stream.receive maxPayload ⟨.ok [], .ok (), .sent⟩).map fun stream =>
        { link.setStream stream with taken := link.taken ++ channel.take 1 }

/-- The next chunk of the file that is sent. -/
def readFile (path : Bytes) (size : Nat) : SyncLink σ :=
  let (result, files) := fs.read path link.offset size link.worker.files
  let read := (result.toOption.getD []).take size
  { (link.setFiles files).setStream
      (link.stream.readFile path size ⟨result, .ok (), .sent⟩) with
    offset := link.offset + read.length }

/-- `send_stream_payload` with its credit. -/
def send (payload : Bytes) (next : SyncNext) (result : SendResult) :
    SyncLink σ :=
  if maxPayload.toNat < payload.length then
    link.setStream (link.stream.setOutput .done)
  else
    { link.setStream (link.stream.setOutput
        (if result.fault = none then State.resume next else .done)) with
      sent := if result.delivered then link.sent ++ [payload] else link.sent
      lost := link.lost || result.fault.isSome }

def stepOutput (result : SendResult) : Option (SyncLink σ) :=
  match link.stream.output with
  | .receive => link.receive fs maxPayload
  | .readFile path size => some (link.readFile fs path size)
  | .awaitCreditFor payload next =>
      (link.stream.takeCredit (.sendFor payload next)).map link.setStream
  | .sendFor payload next => some (link.send maxPayload payload next result)
  | _ => none

def step : SyncAction → Option (SyncLink σ)
  | .arrive payload => link.arrive payload
  | .handle => link.handle fs
  | .output result => link.stepOutput fs maxPayload result
  | .okay => some (link.setStream link.stream.acknowledgeOutput)
  | .close => some (link.setStream link.stream.close)

end

end SyncLink

@[simp] theorem Stream.close_flow_closed (stream : Stream) :
    stream.close.flow.closed = true :=
  stream.flow.close_closed

/-- What a message queues does not depend on what was queued before. -/
theorem SyncLink.queued_eq {σ : Type} (fs : FileSystem σ) (link : SyncLink σ)
    (message : SyncMessage) :
    link.queued fs message =
      (link.worker.blank.perform fs message).2.responses := by
  rw [queued, SyncWorker.perform_blank]
  exact List.drop_left

theorem SyncLink.perform_responses {σ : Type} (fs : FileSystem σ)
    (link : SyncLink σ) (message : SyncMessage) :
    (link.worker.perform fs message).2.responses =
      link.worker.responses ++ link.queued fs message := by
  rw [queued_eq, SyncWorker.perform_blank]
  rfl

/-- What the session can do with its next message. -/
theorem SyncLink.handle_cases {σ : Type} {fs : FileSystem σ}
    {link next : SyncLink σ} (handled : link.handle fs = some next) :
    link.stream.hungUp = false ∧ ∃ message size,
      link.worker.nextMessage link.buffer = some (message, size) ∧
        (next = link.unheard fs message ∨
          next = link.performed fs message size) := by
  unfold handle at handled
  split at handled
  · cases handled
  · rename_i open'
    refine ⟨by simpa using open', ?_⟩
    split at handled
    · cases handled
    · rename_i message size found
      refine ⟨message, size, found, ?_⟩
      split at handled
      · exact .inl (Option.some.inj handled).symm
      · exact .inr (Option.some.inj handled).symm

/-- What a message changes besides the session itself. -/
theorem SyncLink.performed_frame {σ : Type} (fs : FileSystem σ)
    (link : SyncLink σ) (message : SyncMessage) (size : Nat) :
    (link.performed fs message size).worker =
        (link.worker.perform fs message).2 ∧
      (link.performed fs message size).stream.channel =
        link.stream.channel ++ link.queued fs message ∧
      (link.performed fs message size).stream.output = link.stream.output ∧
      (link.performed fs message size).taken = link.taken ∧
      (link.performed fs message size).sent = link.sent ∧
      (link.performed fs message size).arrived = link.arrived ∧
      (link.performed fs message size).offset = link.offset := by
  unfold performed
  rcases link.worker.perform fs message with ⟨error | keeps, worker⟩
  · exact ⟨rfl, rfl, rfl, rfl, rfl, rfl, rfl⟩
  · cases keeps <;> exact ⟨rfl, rfl, rfl, rfl, rfl, rfl, rfl⟩

/-- A sync stream on a device with these files. -/
def syncLink {σ : Type} (fs : FileSystem σ) (maxPayload : UInt32) (files : σ) :
    Transition.System (SyncLink σ) SyncAction where
  initial := .opened files
  step := SyncLink.step fs maxPayload

end Pocketboot.Adb
