import Pocketboot.Adb.Sync

/-!
# Streams and their output threads

A stream is a session of the packet loop with its output thread.  The two share
an `OutputFlow`: the credit to send one `WRTE`, and whether the stream is
closed.
-/

namespace Pocketboot.Adb

structure OutputFlow where
  canWrite : Bool
  closed : Bool
  deriving DecidableEq, Repr

namespace OutputFlow

def new : OutputFlow := ⟨false, false⟩

def allowOneWrite (flow : OutputFlow) : OutputFlow :=
  if flow.closed then flow else { flow with canWrite := true }

/-- `none` while the thread has to wait. -/
def waitForWriteCredit (flow : OutputFlow) : Option (Bool × OutputFlow) :=
  if flow.closed then some (false, flow)
  else if flow.canWrite then some (true, { flow with canWrite := false })
  else none

/-- Whether this call is the one that closes the stream. -/
def close (flow : OutputFlow) : Bool × OutputFlow :=
  if flow.closed then (false, flow) else (true, { flow with closed := true })

@[simp] theorem allowOneWrite_closed (flow : OutputFlow) :
    flow.allowOneWrite.closed = flow.closed := by
  unfold allowOneWrite
  split <;> rfl

@[simp] theorem allowOneWrite_canWrite (flow : OutputFlow) :
    flow.allowOneWrite.canWrite = (flow.canWrite || !flow.closed) := by
  unfold allowOneWrite
  split
  · rename_i closed
    simp [closed]
  · rename_i opened
    simp [opened]

@[simp] theorem close_fst (flow : OutputFlow) :
    flow.close.1 = !flow.closed := by
  unfold close
  split <;> simp_all

@[simp] theorem close_closed (flow : OutputFlow) :
    flow.close.2.closed = true := by
  unfold close
  split <;> simp_all

@[simp] theorem close_canWrite (flow : OutputFlow) :
    flow.close.2.canWrite = flow.canWrite := by
  unfold close
  split <;> rfl

end OutputFlow

/-- What a sync thread does after a `WRTE`. -/
inductive SyncNext where
  | response
  | chunk (path : Bytes) (size : Nat)
  deriving DecidableEq, Repr

/-- Where an output thread is: the first four are those of shell and exec, the
next four those of sync. -/
inductive Output where
  | awaitCredit
  | read
  | send (payload : Bytes)
  | ended
  | receive
  | readFile (path : Bytes) (size : Nat)
  | awaitCreditFor (payload : Bytes) (next : SyncNext)
  | sendFor (payload : Bytes) (next : SyncNext)
  | sendClose
  | done
  deriving DecidableEq, Repr

structure Stream where
  service : AdbService
  localId : UInt32
  remoteId : UInt32
  flow : OutputFlow
  output : Output
  /-- The input side of a sync session. -/
  input : SyncInput
  /-- The responses queued for a sync thread, and whether their sender is gone. -/
  channel : List SyncResponse
  hungUp : Bool
  /-- Ghosts: `allow_output` was called; the `OKAY`s of the host accepted. -/
  granted : Bool
  accepted : Nat
  deriving DecidableEq, Repr

namespace Stream

/-- `AdbSession::spawn`, when it succeeds. -/
def spawn (localId remoteId : UInt32) (service : AdbService) : Stream where
  service := service
  localId := localId
  remoteId := remoteId
  flow := .new
  output :=
    match service with
    | .sync => .receive
    | _ => .awaitCredit
  input := ⟨[], .idle⟩
  channel := []
  hungUp := false
  granted := false
  accepted := 0

def allowOutput (stream : Stream) : Stream :=
  { stream with flow := stream.flow.allowOneWrite, granted := true }

def acknowledgeOutput (stream : Stream) : Stream :=
  { stream with
    flow := stream.flow.allowOneWrite
    accepted := stream.accepted + 1 }

/-- The end of a session on the side of the packet loop: the channel is hung
up and the flow closed. -/
def close (stream : Stream) : Stream :=
  { stream with flow := stream.flow.close.2, hungUp := true }

def setOutput (stream : Stream) (output : Output) : Stream :=
  { stream with output := output }

end Stream

/-- How the sending of a packet ends; a failed packet may have reached the
host. -/
inductive SendResult where
  | sent
  | failed (disconnect delivered : Bool)
  deriving DecidableEq, Repr

namespace SendResult

def delivered : SendResult → Bool
  | sent => true
  | failed _ delivered => delivered

/-- The error the caller sees: whether it means that the host is gone. -/
def fault : SendResult → Option Bool
  | sent => none
  | failed disconnect _ => some disconnect

end SendResult

/-- What the operations of an output thread return. -/
structure OutputIo where
  read : Told Bytes
  openFile : Told Unit
  send : SendResult

/-! ## Steps of an output thread that send nothing -/

/-- The payload that tells a failure, if it can be told. -/
def failedFor (message : Text) : Output :=
  match syncFailPacket message with
  | .ok payload => .awaitCreditFor payload .response
  | .error _ => .done

namespace Stream

/-- `recv`, and the start of the response it returns. -/
def receive (stream : Stream) (maxPayload : UInt32) (io : OutputIo) :
    Option Stream :=
  match stream.channel with
  | [] => if stream.hungUp then some (stream.setOutput .done) else none
  | response :: rest =>
      let stream := { stream with channel := rest }
      match response with
      | .packet payload =>
          some (stream.setOutput (.awaitCreditFor payload .response))
      | .file path =>
          match io.openFile with
          | .error error =>
              some (stream.setOutput
                (failedFor (SyncM.about "open" path error)))
          | .ok () =>
              let size := min syncChunk (max (maxPayload.toNat - 8) 1)
              some (stream.setOutput (.readFile path size))

/-- The next chunk of a file, or its end. -/
def readFile (stream : Stream) (path : Bytes) (size : Nat) (io : OutputIo) :
    Stream :=
  match io.read with
  | .error error =>
      stream.setOutput (failedFor (SyncM.about "read" path error))
  | .ok content =>
      let content := content.take size
      if content = [] then
        stream.setOutput (.awaitCreditFor (syncStatusPacket "DONE" 0) .response)
      else
        match syncDataPacket content with
        | .ok payload =>
            stream.setOutput (.awaitCreditFor payload (.chunk path size))
        | .error _ => stream.setOutput .done

/-- `wait_for_write_credit`, then `granted`; the thread is done when the
stream is closed. -/
def takeCredit (stream : Stream) (granted : Output) : Option Stream :=
  match stream.flow.waitForWriteCredit with
  | none => none
  | some (false, _) => some (stream.setOutput .done)
  | some (true, flow) => some { stream with flow := flow, output := granted }

/-- Output of the process, or its end. -/
def read (stream : Stream) (io : OutputIo) : Stream :=
  match io.read with
  | .error _ => stream.setOutput .ended
  | .ok content =>
      let content := content.take shellChunk
      if content = [] then stream.setOutput .ended
      else stream.setOutput (.send content)

/-- The end of shell and exec output: only the closing call sends `CLSE`. -/
def closeOutput (stream : Stream) : Stream :=
  let (closes, flow) := stream.flow.close
  { stream with
    flow := flow
    output := if closes then .sendClose else .done }

end Stream

end Pocketboot.Adb
