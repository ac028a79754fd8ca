import Pocketboot.Fastboot.Session
import Pocketboot.Transition.System

/-!
# The fastboot server and its host

The server reads commands and download payloads from one endpoint; the host
sends both over it, as the responses tell it to.  Bytes carry a ghost mark
that says whether the host sent them as payload.
-/

namespace Pocketboot.Fastboot

open Transition Stateful

structure HostByte where
  value : UInt8
  payload : Bool
  deriving DecidableEq, Repr

abbrev Transfer : Type := List HostByte

/-- The transfers that are left when so many bytes are read. -/
def drain : Nat → List Transfer → List Transfer
  | 0, transfers => transfers
  | _ + 1, [] => []
  | count + 1, transfer :: rest =>
      if transfer.length ≤ count + 1 then
        drain (count + 1 - transfer.length) rest
      else transfer.drop (count + 1) :: rest

/-- A response on its way; `answers` marks the first one to a download. -/
structure Sent where
  response : Response
  answers : Bool
  deriving DecidableEq, Repr

/-- The host sends commands when it is ready, waits for the answer to a
download, and then sends the payload it owes. -/
inductive Host where
  | ready
  | awaiting
  | sending (owed : Nat)
  deriving DecidableEq, Repr

def Host.owing (owed : Nat) : Host := if owed = 0 then ready else sending owed

/-- Where the server is in `run_once` and `download`. -/
inductive Device where
  | waiting
  | handling (line : List HostByte)
  | preparing (size : Nat)
  | receiving (file : File) (size remaining : Nat)
  | stopped
  deriving DecidableEq, Repr

/-- A producer's attempt: what it took from its source, and whether it put
that into the staging area. -/
structure Attempt where
  source : Bytes
  put : Bool
  deriving DecidableEq, Repr

/-- What a consumer has seen, with the last attempt before its command. -/
structure Observation where
  observed : Observed
  attempt : Option Attempt
  deriving DecidableEq, Repr

structure State where
  host : Host
  device : Device
  rx : List Transfer
  responses : List Sent
  staged : Option StagedData
  attempt : Option Attempt
  /-- The command lines `read_command` has returned. -/
  lines : List (List HostByte)
  observations : List Observation
  deriving DecidableEq, Repr

def startState : State where
  host := .ready
  device := .waiting
  rx := []
  responses := []
  staged := none
  attempt := none
  lines := []
  observations := []

/-! ## Steps of the host -/

def values (bytes : List HostByte) : Bytes := bytes.map HostByte.value

/-- The line starts a download. -/
def startsDownload (line : Bytes) : Bool :=
  match dispatch line with
  | .download _ => true
  | _ => false

def commandTransfer (line : Bytes) : Transfer :=
  line.map fun value => ⟨value, false⟩

def payloadTransfer (data : Bytes) : Transfer :=
  data.map fun value => ⟨value, true⟩

/-- The payload size a `DATA` response announces. -/
def announced (response : Response) : Nat :=
  ((Text.ofUtf8 response.payload).bind (Text.parseU32 16)).getD 0

/-- The host after a response. -/
def Host.receive (host : Host) (sent : Sent) : Host :=
  match host with
  | .awaiting =>
      if sent.answers then
        match sent.response.status with
        | .data => .owing (announced sent.response)
        | _ => .ready
      else .awaiting
  | host => host

/-! ## Steps of the server -/

/-- The server loop after `run_once`. -/
def Device.after : Run OsError ServerStep → Device
  | .ok .proceed => .waiting
  | .ok .leave => .stopped
  | .error (.error error) =>
      if isUsbDisconnect error then .waiting else .stopped
  | .error _ => .stopped

/-- The response packets of a command that is not a download. -/
def sentBy (responses : List Response) : List Sent :=
  responses.map (Sent.mk · false)

/-- Producers other than downloads. -/
def Dispatch.produces : Dispatch → Bool
  | .handler .cat _ => true
  | .handler .dmesg _ => true
  | .handler .shell _ => true
  | .handler .shellStaged _ => true
  | _ => false

/-- The size a download asks for, if the server accepts it. -/
def requestedSize (command : Text) : Run OsError Nat := do
  match ← parseDownloadCommand command with
  | none => throw .panic
  | some size =>
      Run.ensure (size ≤ maxDownloadSize) (.plain (invalidInput
        "download size exceeds max-download-size 0x10000000"))
      return size

namespace State

/-- `fail` after an error of a download that is not one of the transport. -/
def downloadFails (state : State) (error : OsError) (result : SendResult)
    (answers : Bool) : State :=
  if isUsbDisconnect error then { state with device := .waiting }
  else
    let response : Response :=
      ⟨.fail, (Text.utf8 error.error.message.toList).take responsePayloadMax⟩
    { state with
      responses :=
        if result.delivered then state.responses ++ [⟨response, answers⟩]
        else state.responses
      device :=
        match result with
        | .sent => .waiting
        | .failed error _ =>
            if isUsbDisconnect error then .waiting else .stopped }

/-- The session of one command. -/
def session (state : State) : SessionState :=
  { staged := state.staged, responses := [], packets := 0, parts := 0
    source := [], put := false, uploaded := [], observed := [] }

/-- A command line that is not a download. -/
def runLine (state : State) (io : CommandIo) (request : Dispatch) : State :=
  let (outcome, last) := exec (Session.runLine io request) state.session
  { state with
    staged := last.staged
    attempt :=
      if request.produces then some ⟨last.source, last.put⟩
      else state.attempt
    responses := state.responses ++ sentBy last.responses
    observations := state.observations ++
      last.observed.map (Observation.mk · state.attempt)
    device := .after outcome }

/-- A download command before its `DATA` response. -/
def startDownload (state : State) (result : SendResult) (command : Text) :
    State :=
  let cleared : State :=
    { state with staged := none, attempt := some ⟨[], false⟩ }
  match requestedSize command with
  | .ok size => { cleared with device := .preparing size }
  | .error (.error error) => cleared.downloadFails error result true
  | .error _ => { cleared with device := .stopped }

/-- The `DATA` response. -/
def announcement (size : Nat) : Sent :=
  ⟨⟨.data, (Text.hexDigits 8 size).utf8⟩, true⟩

def announceDownload (state : State) (size : Nat) (announce : SendResult) :
    State :=
  { state with
    responses :=
      if announce.delivered then state.responses ++ [announcement size]
      else state.responses }

/-- Creating the file and announcing the payload. -/
def prepareDownload (state : State) (size : Nat) (create : Option OsError)
    (announce result : SendResult) : State :=
  match create with
  | some error => state.downloadFails error result true
  | none =>
      let told := state.announceDownload size announce
      match announce with
      | .sent =>
          { told with
            device := .receiving (File.empty.setLen size) size size }
      | .failed error delivered =>
          told.downloadFails error result (!delivered)

/-- The length of the next chunk. -/
def chunkLen (size remaining : Nat) : Nat :=
  min remaining (min size transferChunk)

/-- The ghost record of bytes read for the download. -/
def take (state : State) (count : Nat) : State :=
  { state with
    rx := drain count state.rx
    attempt := state.attempt.map fun attempt =>
      { attempt with
        source := attempt.source ++ values (state.rx.flatten.take count) } }

/-- A chunk that was read, and its write to the file. -/
def receiveChunk (state : State) (file : File) (size remaining : Nat)
    (write : Option OsError) (result : SendResult) : State :=
  let count := chunkLen size remaining
  let chunk := values (state.rx.flatten.take count)
  let taken := state.take count
  match write with
  | none =>
      { taken with
        device := .receiving (file.writeAll chunk) size (remaining - count) }
  | some error => taken.downloadFails error result false

/-- The payload is staged, and `OKAY` sent for it. -/
def stageDownload (state : State) (file : File) (size : Nat)
    (okay : SendResult) : State :=
  { state with
    staged := some ⟨"download".toList, .file file.seekStart size⟩
    attempt := state.attempt.map fun attempt => { attempt with put := true }
    responses :=
      if okay.delivered then state.responses ++ [⟨⟨.okay, []⟩, false⟩]
      else state.responses }

/-- The end of a download whose payload is complete. -/
def finishDownload (state : State) (file : File) (size : Nat)
    (rewind : Option OsError) (okay result : SendResult) : State :=
  match rewind with
  | some error => state.downloadFails error result false
  | none =>
      let staged := state.stageDownload file size okay
      match okay with
      | .sent => { staged with device := .waiting }
      | .failed error _ => staged.downloadFails error result false

end State

inductive Action where
  | hostCommand (line : Bytes)
  | hostPayload (data : Bytes)
  | hostReceive
  | readCommand
  | readCommandFails (error : OsError)
  | runLine (io : CommandIo) (result : SendResult)
  | prepare (create : Option OsError) (announce result : SendResult)
  | receive (write : Option OsError) (result : SendResult)
  | receiveFails (consumed : Nat) (error : OsError) (result : SendResult)
  | finish (rewind : Option OsError) (okay result : SendResult)

namespace State

def sendCommand (state : State) (line : Bytes) : State :=
  { state with
    host := if startsDownload (commandLine id line) then .awaiting else .ready
    rx := state.rx ++ [commandTransfer line] }

def sendPayload (state : State) (owed : Nat) (data : Bytes) : State :=
  { state with
    host := .owing (owed - data.length)
    rx := state.rx ++ [payloadTransfer data] }

def receiveResponse (state : State) (sent : Sent) (rest : List Sent) : State :=
  { state with host := state.host.receive sent, responses := rest }

/-- `read_command` reads one transfer, or as much of it as fits. -/
def readCommand (state : State) (transfer : Transfer) (rest : List Transfer) :
    State :=
  let line := commandLine HostByte.value (transfer.take commandMax)
  { state with
    device := .handling line
    rx :=
      if transfer.length ≤ commandMax then rest
      else transfer.drop commandMax :: rest
    lines := state.lines ++ [line] }

def readCommandFails (state : State) (error : OsError) : State :=
  { state with device := if isUsbDisconnect error then .waiting else .stopped }

def step (state : State) : Action → Option State
  | .hostCommand line =>
      if state.host = .ready ∧ line.length ≤ commandMax then
        some (state.sendCommand line)
      else none
  | .hostPayload data =>
      match state.host with
      | .sending owed =>
          if data.length ≤ owed then some (state.sendPayload owed data)
          else none
      | _ => none
  | .hostReceive =>
      match state.responses with
      | [] => none
      | sent :: rest => some (state.receiveResponse sent rest)
  | .readCommand =>
      match state.device, state.rx with
      | .waiting, transfer :: rest => some (state.readCommand transfer rest)
      | _, _ => none
  | .readCommandFails error =>
      match state.device with
      | .waiting => some (state.readCommandFails error)
      | _ => none
  | .runLine io result =>
      match state.device with
      | .handling line =>
          match dispatch (values line) with
          | .download command => some (state.startDownload result command)
          | request => some (state.runLine io request)
      | _ => none
  | .prepare create announce result =>
      match state.device with
      | .preparing size =>
          some (state.prepareDownload size create announce result)
      | _ => none
  | .receive write result =>
      match state.device with
      | .receiving file size remaining =>
          if 0 < remaining ∧ chunkLen size remaining ≤ state.rx.flatten.length
          then some (state.receiveChunk file size remaining write result)
          else none
      | _ => none
  | .receiveFails consumed error result =>
      match state.device with
      | .receiving _ size remaining =>
          if consumed < chunkLen size remaining ∧
              consumed ≤ state.rx.flatten.length then
            some ((state.take consumed).downloadFails error result false)
          else none
      | _ => none
  | .finish rewind okay result =>
      match state.device with
      | .receiving file size 0 =>
          some (state.finishDownload file size rewind okay result)
      | _ => none

/-- What each step does, and when it is enabled. -/
inductive Steps (state : State) : Action → State → Prop
  | hostCommand {line : Bytes} (ready : state.host = .ready)
      (short : line.length ≤ commandMax) :
      Steps state (.hostCommand line) (state.sendCommand line)
  | hostPayload {data : Bytes} {owed : Nat}
      (sending : state.host = .sending owed) (fits : data.length ≤ owed) :
      Steps state (.hostPayload data) (state.sendPayload owed data)
  | hostReceive {sent : Sent} {rest : List Sent}
      (responses : state.responses = sent :: rest) :
      Steps state .hostReceive (state.receiveResponse sent rest)
  | readCommand {transfer : Transfer} {rest : List Transfer}
      (waiting : state.device = .waiting)
      (rx : state.rx = transfer :: rest) :
      Steps state .readCommand (state.readCommand transfer rest)
  | readCommandFails {error : OsError} (waiting : state.device = .waiting) :
      Steps state (.readCommandFails error) (state.readCommandFails error)
  | startDownload {io : CommandIo} {result : SendResult}
      {line : List HostByte} {command : Text}
      (handling : state.device = .handling line)
      (request : dispatch (values line) = .download command) :
      Steps state (.runLine io result) (state.startDownload result command)
  | runLine {io : CommandIo} {result : SendResult} {line : List HostByte}
      (handling : state.device = .handling line)
      (other : startsDownload (values line) = false) :
      Steps state (.runLine io result)
        (state.runLine io (dispatch (values line)))
  | prepare {create : Option OsError} {announce result : SendResult}
      {size : Nat} (preparing : state.device = .preparing size) :
      Steps state (.prepare create announce result)
        (state.prepareDownload size create announce result)
  | receive {write : Option OsError} {result : SendResult} {file : File}
      {size remaining : Nat}
      (receiving : state.device = .receiving file size remaining)
      (positive : 0 < remaining)
      (enough : chunkLen size remaining ≤ state.rx.flatten.length) :
      Steps state (.receive write result)
        (state.receiveChunk file size remaining write result)
  | receiveFails {consumed : Nat} {error : OsError} {result : SendResult}
      {file : File} {size remaining : Nat}
      (receiving : state.device = .receiving file size remaining)
      (before : consumed < chunkLen size remaining) :
      Steps state (.receiveFails consumed error result)
        ((state.take consumed).downloadFails error result false)
  | finish {rewind : Option OsError} {okay result : SendResult} {file : File}
      {size : Nat} (receiving : state.device = .receiving file size 0) :
      Steps state (.finish rewind okay result)
        (state.finishDownload file size rewind okay result)

theorem steps_of_step {state next : State} {action : Action}
    (steps : state.step action = some next) : Steps state action next := by
  cases action with
  | hostCommand line =>
      simp only [step] at steps
      split at steps
      · rename_i enabled
        obtain rfl := Option.some.inj steps
        exact .hostCommand enabled.1 enabled.2
      · simp at steps
  | hostPayload data =>
      simp only [step] at steps
      split at steps
      · rename_i owed sending
        split at steps
        · rename_i fits
          obtain rfl := Option.some.inj steps
          exact .hostPayload sending fits
        · simp at steps
      · simp at steps
  | hostReceive =>
      simp only [step] at steps
      split at steps
      · simp at steps
      · rename_i responses
        obtain rfl := Option.some.inj steps
        exact .hostReceive responses
  | readCommand =>
      simp only [step] at steps
      split at steps
      · rename_i waiting rx
        obtain rfl := Option.some.inj steps
        exact .readCommand waiting rx
      · simp at steps
  | readCommandFails error =>
      simp only [step] at steps
      split at steps
      · rename_i waiting
        obtain rfl := Option.some.inj steps
        exact .readCommandFails waiting
      · simp at steps
  | runLine io result =>
      simp only [step] at steps
      split at steps
      · rename_i line handling
        split at steps
        · rename_i command request
          obtain rfl := Option.some.inj steps
          exact .startDownload handling request
        · rename_i other
          obtain rfl := Option.some.inj steps
          refine .runLine handling ?_
          unfold startsDownload
          split
          · rename_i command request
            exact (other command request).elim
          · rfl
      · simp at steps
  | prepare create announce result =>
      simp only [step] at steps
      split at steps
      · rename_i preparing
        obtain rfl := Option.some.inj steps
        exact .prepare preparing
      · simp at steps
  | receive write result =>
      simp only [step] at steps
      split at steps
      · rename_i receiving
        split at steps
        · rename_i enabled
          obtain rfl := Option.some.inj steps
          exact .receive receiving enabled.1 enabled.2
        · simp at steps
      · simp at steps
  | receiveFails consumed error result =>
      simp only [step] at steps
      split at steps
      · rename_i receiving
        split at steps
        · rename_i enabled
          obtain rfl := Option.some.inj steps
          exact .receiveFails receiving enabled.1
        · simp at steps
      · simp at steps
  | finish rewind okay result =>
      simp only [step] at steps
      split at steps
      · rename_i receiving
        obtain rfl := Option.some.inj steps
        exact .finish receiving
      · simp at steps

end State

/-- The server with its host. -/
def server : System State Action where
  initial := startState
  step := State.step

theorem server_step (state : State) (action : Action) :
    server.step state action = state.step action := rfl

/-! ## Inputs of runs -/

def writeError : OsError := ⟨⟨.other, "No space left on device"⟩, some 28⟩

def idleIo : CommandIo where
  respond _ := .sent
  sendPayload _ := none
  openStaged := none
  readStaged := none
  catFails _ := none
  catReads := []
  capture := .error writeError
  shell := ⟨fun _ => none, [], false, true, []⟩
  flashTarget := .error writeError
  flashChecks := .error writeError
  flashWrite := .error writeError
  loadImage := .error writeError
  other := ([], .ok true)

def smallCommand : Bytes := Text.utf8 "download:00000006".toList

def rebootBytes : Bytes := Text.utf8 "reboot".toList

end Pocketboot.Fastboot
