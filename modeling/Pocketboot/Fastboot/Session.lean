import Pocketboot.Fastboot.Commands

/-!
# Commands and the staging area

The staging area and the handlers that fill, read or clear it.  Every
operation on files, processes and the transport may fail, as `CommandIo` says.
Three fields of a session are ghosts that no handler reads: the bytes a
producer has taken so far (`source`), whether it has staged them (`put`), and
what consumers have seen (`observed`).
-/

namespace Pocketboot.Fastboot

/-! ## Files in memory -/

/-- A file with the position of the open handle. -/
structure File where
  content : Bytes
  position : Nat
  deriving DecidableEq, Repr

namespace File

def empty : File := ⟨[], 0⟩

def setLen (size : Nat) (file : File) : File :=
  { file with
    content := file.content.take size ++
      List.replicate (size - file.content.length) 0 }

/-- `write_all`; a gap before the position reads as zeros. -/
def writeAll (data : Bytes) (file : File) : File :=
  let stop := file.position + data.length
  { content := (file.setLen (max file.content.length stop)).content.take
        file.position ++ data ++ file.content.drop stop
    position := stop }

def seekStart (file : File) : File := { file with position := 0 }

def seekEnd (file : File) : File :=
  { file with position := file.content.length }

/-- `read_exact`. -/
def readExact (count : Nat) (file : File) : Option (Bytes × File) :=
  let stop := file.position + count
  if stop ≤ file.content.length then
    some (Bytes.slice file.content file.position stop,
      { file with position := stop })
  else none

/-- `/proc/self/fd/N`, opened again: the same bytes from the start. -/
def reopen (file : File) : File := { file with position := 0 }

end File

/-! ## The staging area -/

inductive StagedPayload where
  | memory (data : Bytes)
  | file (file : File) (size : Nat)
  deriving DecidableEq, Repr

structure StagedData where
  name : Text
  payload : StagedPayload
  deriving DecidableEq, Repr

namespace StagedData

def len (staged : StagedData) : Nat :=
  match staged.payload with
  | .memory data => data.length
  | .file _ size => size

/-- The bytes that are staged. -/
def content (staged : StagedData) : Bytes :=
  match staged.payload with
  | .memory data => data
  | .file file _ => file.content

/-- The file `as_file` opens when nothing fails. -/
def asFile (staged : StagedData) : File :=
  match staged.payload with
  | .memory data => (File.empty.writeAll data).seekStart
  | .file file _ => file.reopen

end StagedData

/-! ## Responses -/

inductive Status where
  | okay
  | fail
  | info
  | data
  deriving DecidableEq, Repr

structure Response where
  status : Status
  payload : Bytes
  deriving DecidableEq, Repr

/-- A packet may reach the host although its sending reports an error. -/
inductive SendResult where
  | sent
  | failed (error : OsError) (delivered : Bool)
  deriving DecidableEq, Repr

def SendResult.delivered : SendResult → Bool
  | sent => true
  | failed _ delivered => delivered

/-! ## What the operations of a command return -/

inductive CatStep where
  | openSource
  | createFile
  | write (number : Nat)
  | rewind
  deriving DecidableEq, Repr

inductive ShellStep where
  | createFile
  | cloneHandles
  | spawn
  | wait
  | seekEnd
  | writeTimeout
  | measure
  | rewind
  deriving DecidableEq, Repr

structure ShellIo where
  fails : ShellStep → Option OsError
  output : Bytes
  timedOut : Bool
  success : Bool
  description : Text

structure DmesgCapture where
  data : Bytes
  records : Nat
  overwritten : Bool

structure CommandIo where
  /-- The response packet with this number. -/
  respond : Nat → SendResult
  /-- The part of an uploaded payload with this number; a failed part may have
  reached the host up to some byte. -/
  sendPayload : Nat → Option (Nat × OsError)
  /-- Opening the staged data as a file. -/
  openStaged : Option OsError
  /-- Reading an opened file. -/
  readStaged : Option OsError
  catFails : CatStep → Option OsError
  /-- The reads of the file to stage; after the last one it is at its end. -/
  catReads : List (Except OsError Bytes)
  capture : Except OsError DmesgCapture
  shell : ShellIo
  /-- Finding the partition to flash, checking the open file against it, and
  writing it; with the messages that follow. -/
  flashTarget : Except OsError Text
  flashChecks : Except OsError (List Text)
  flashWrite : Except OsError (List Text)
  /-- Preparing and loading an image from an open file. -/
  loadImage : Except OsError Unit
  /-- A handler that does not touch the staging area. -/
  other : List Response × Except OsError Bool

/-- What a consumer of staged data has seen. -/
inductive Observed where
  | nothing
  | tooLarge
  | length (size : Nat)
  | opened (file : File)
  | sent (data : Bytes) (complete : Bool)
  deriving DecidableEq, Repr

structure SessionState where
  staged : Option StagedData
  responses : List Response
  packets : Nat
  parts : Nat
  source : Bytes
  put : Bool
  uploaded : Bytes
  observed : List Observed
  deriving DecidableEq, Repr

abbrev Session (α : Type) : Type := Stateful SessionState OsError α

/-- Whether the server goes on after a command. -/
inductive ServerStep where
  | proceed
  | leave
  deriving DecidableEq, Repr

namespace Session

def invalid {α : Type} (message : String) : Session α :=
  Stateful.fail (.plain (invalidInput message))

/-- Fail when the operation does. -/
def check : Option OsError → Session Unit
  | none => pure ()
  | some error => Stateful.fail error

def ofExcept {α : Type} : Except OsError α → Session α
  | .ok item => pure item
  | .error error => Stateful.fail error

def observe (observed : Observed) : Session Unit :=
  modify fun state => { state with observed := state.observed ++ [observed] }

/-- A producer has taken these bytes. -/
def took (data : Bytes) : Session Unit :=
  modify fun state => { state with source := state.source ++ data }

section

variable (io : CommandIo)

def writePacket (response : Response) : Session Unit := do
  let state ← get
  let result := io.respond state.packets
  set { state with
    packets := state.packets + 1
    responses :=
      if result.delivered then state.responses ++ [response]
      else state.responses }
  match result with
  | .sent => pure ()
  | .failed error _ => Stateful.fail error

def writePackets (status : Status) : List Bytes → Session Unit
  | [] => pure ()
  | chunk :: rest => do
      writePacket io ⟨status, chunk⟩
      writePackets status rest

def info (message : Text) : Session Unit :=
  writePackets io .info (message.utf8.toChunks responsePayloadMax)

def infos : List Text → Session Unit
  | [] => pure ()
  | message :: rest => do
      info io message
      infos rest

def okay (message : Text) : Session Unit :=
  writePacket io ⟨.okay, message.utf8.take responsePayloadMax⟩

def fail (message : Text) : Session Unit :=
  writePacket io ⟨.fail, message.utf8.take responsePayloadMax⟩

def data (size : Nat) : Session Unit :=
  writePacket io ⟨.data, (Text.hexDigits 8 size).utf8⟩

/-! ## The staging area -/

def clearStaged : Session Unit :=
  modify fun state => { state with staged := none }

def stage (staged : StagedData) : Session Unit :=
  modify fun state => { state with staged := some staged, put := true }

def noStagedData : OsError :=
  .plain ⟨.notFound, "no staged data"⟩

def asFile (staged : StagedData) : Session File := do
  check io.openStaged
  observe (.opened staged.asFile)
  return staged.asFile

def stagedFile : Session File := do
  match (← get).staged with
  | none => do
      observe .nothing
      Stateful.fail noStagedData
  | some staged => asFile io staged

def stagedLen : Session Nat := do
  match (← get).staged with
  | none => do
      observe .nothing
      Stateful.fail noStagedData
  | some staged => do
      observe (.length staged.len)
      return staged.len

/-! ## `upload` -/

def sendPayload (payload : Bytes) : Session Unit := do
  let state ← get
  match io.sendPayload state.parts with
  | none => do
      let uploaded := state.uploaded ++ payload
      set { state with parts := state.parts + 1, uploaded }
      observe (.sent uploaded false)
  | some (count, error) => do
      let uploaded := state.uploaded ++ payload.take count
      set { state with parts := state.parts + 1, uploaded }
      observe (.sent uploaded false)
      Stateful.fail error

/-- The loop of `send_payload_from_reader`; every pass sends at least one
byte. -/
def sendPayloadFromReader : Nat → File → Nat → Session Unit
  | 0, _, _ => throw .outOfFuel
  | fuel + 1, reader, remaining =>
      if 0 < remaining then do
        let chunkLen := min remaining transferChunk
        check io.readStaged
        let (chunk, reader) ← Stateful.ofOption
          (.plain ⟨.unexpectedEof, "failed to fill whole buffer"⟩)
          (reader.readExact chunkLen)
        sendPayload io chunk
        sendPayloadFromReader fuel reader (remaining - chunkLen)
      else pure ()

def send (staged : StagedData) : Session Unit :=
  match staged.payload with
  | .memory data => sendPayload io data
  | .file _ size => do
      let file ← asFile io staged
      sendPayloadFromReader io (size + 1) file size

def uploadStaged : Session Unit := do
  match (← get).staged with
  | none => do
      observe .nothing
      fail io "no staged data".toList
  | some staged =>
      if 2 ^ 32 ≤ staged.len then do
        observe .tooLarge
        fail io "staged data too large".toList
      else do
        data io staged.len
        send io staged
        observe (.sent (← get).uploaded true)
        okay io []

/-! ## `oem cat:` -/

def maxStagedSize : Nat := 2 ^ 32 - 1

/-- The parameter of a command after its prefix. -/
def parameter (start : String) (wrong missing : String) (command : Text) :
    Session Text := do
  match Text.stripPrefix start.toList command with
  | none => invalid wrong
  | some rest => if rest = [] then invalid missing else return rest

/-- The error of an operation, told in other words. -/
def renamed (front : Text) (error : OsError) : OsError :=
  .plain ⟨error.error.kind,
    String.ofList (front ++ ": ".toList ++ error.error.message.toList)⟩

/-- The loop of `copy_limited`: the copy, its size, and the writes done. -/
def copyLimited (path : Text) :
    Nat → List (Except OsError Bytes) → File → Nat → Session (File × Nat)
  | _, [], staged, total => pure (staged, total)
  | _, .error error :: _, _, _ =>
      Stateful.fail (renamed ("read ".toList ++ path) error)
  | number, .ok read :: rest, staged, total => do
      if read = [] then return (staged, total)
      else
        took read
        let total := total + read.length
        if maxStagedSize < total then
          Stateful.fail (renamed ("read ".toList ++ path)
            (.plain (invalidInput "cat file is too large")))
        else
          check ((io.catFails (.write number)).map
            (renamed ("read ".toList ++ path)))
          copyLimited path (number + 1) rest (staged.writeAll read) total

def cat (command : Text) : Session ServerStep := do
  clearStaged
  let path ← parameter "oem cat:" "invalid cat command" "cat path is empty"
    command
  check ((io.catFails .openSource).map (renamed ("open ".toList ++ path)))
  check (io.catFails .createFile)
  let (staged, bytes) ← copyLimited io path 0 io.catReads File.empty 0
  check (io.catFails .rewind)
  stage ⟨"cat:".toList ++ path, .file staged.seekStart bytes⟩
  info io (path ++ (s!" staged ({bytes} bytes)").toList)
  info io "run fastboot get_staged /dev/stdout to view".toList
  okay io []
  return .proceed

/-! ## `oem dmesg` -/

def dmesg : Session ServerStep := do
  clearStaged
  let capture ← ofExcept io.capture
  took capture.data
  stage ⟨"dmesg".toList, .memory capture.data⟩
  info io (s!"{capture.records} dmesg records staged ({capture.data.length} bytes)").toList
  if capture.overwritten then
    info io "some dmesg records were overwritten before capture".toList
  info io "run fastboot get_staged /dev/stdout to view".toList
  okay io []
  return .proceed

/-! ## `oem shell:` and `oem shell-staged` -/

def timeoutMessage : Bytes :=
  Text.utf8 "\npocketboot: shell command timed out\n".toList

/-- The captured output of a shell. -/
def runShell : Session (File × Nat) := do
  let fails := io.shell.fails
  check (fails .createFile)
  check (fails .cloneHandles)
  check (fails .spawn)
  check (fails .wait)
  let output := File.empty.writeAll io.shell.output
  took io.shell.output
  check (fails .seekEnd)
  let output ←
    if io.shell.timedOut then do
      check (fails .writeTimeout)
      took timeoutMessage
      pure (output.seekEnd.writeAll timeoutMessage)
    else pure output
  check (fails .measure)
  check (fails .rewind)
  return (output.seekStart, output.content.length)

def runAndStage : Session ServerStep := do
  let (file, size) ← runShell io
  stage ⟨"shell-output".toList, .file file size⟩
  info io ("shell ".toList ++ io.shell.description ++
    (s!"; {size} bytes staged").toList)
  info io "run fastboot get_staged /dev/stdout to view".toList
  if io.shell.success then okay io io.shell.description
  else fail io io.shell.description
  return .proceed

def shell (command : Text) : Session ServerStep := do
  clearStaged
  match Text.stripPrefix "oem shell:".toList command with
  | none => invalid "invalid shell command"
  | some command =>
      if command.trim = [] then invalid "shell command is empty"
      else runAndStage io

def stagedScriptMax : Nat := 64 * 1024

def readStagedCommand : Session Text := do
  let staged ← stagedFile io
  check io.readStaged
  let bytes := (staged.content.drop staged.position).take (stagedScriptMax + 1)
  let command ← Stateful.ofOption
    (.plain (invalidData "stream did not contain valid UTF-8"))
    (Text.ofUtf8 bytes)
  if stagedScriptMax < bytes.length then
    invalid "staged shell command is too large"
  else if command.trim = [] then invalid "staged shell command is empty"
  else return command

/-- The staged script is read first; then the staging area is cleared,
whatever reading it returned. -/
def shellStaged : Session ServerStep := do
  let command ← Stateful.attempt (readStagedCommand io)
  clearStaged
  let _command ← Stateful.ofRun command
  runAndStage io

/-! ## `flash:` and `boot` -/

def flash (command : Text) : Session ServerStep := do
  let _requested ← parameter "flash:" "invalid flash command"
    "flash partition is empty" command
  let name ← ofExcept io.flashTarget
  let size ← stagedLen
  if size = 0 then invalid "staged flash payload is empty"
  else
    let _source ← stagedFile io
    infos io (← ofExcept io.flashChecks)
    infos io (← ofExcept io.flashWrite)
    okay io ("flashed ".toList ++ name)
    return .proceed

def loadStaged : Session Unit := do
  let _image ← stagedFile io
  ofExcept io.loadImage

def boot : Session ServerStep := do
  loadStaged io
  okay io "booting".toList
  return .leave

def kexecLoad : Session ServerStep := do
  loadStaged io
  okay io "loaded".toList
  return .proceed

/-! ## Any command but a download -/

def writeResponses : List Response → Session Unit
  | [] => pure ()
  | response :: rest => do
      writePacket io response
      writeResponses rest

def other : Session ServerStep := do
  writeResponses io io.other.1
  let stays ← ofExcept io.other.2
  return if stays then .proceed else .leave

def runHandler (command : Text) : Handler → Session ServerStep
  | .boot => boot io
  | .kexecLoad => kexecLoad io
  | .flash => flash io command
  | .cat => cat io command
  | .dmesg => dmesg io
  | .shell => shell io command
  | .shellStaged => shellStaged io
  | .other => other io

/-- The errors of a handler become a response, those of the transport do
not. -/
def handleCommand (command : Text) (handler : Handler) :
    Session ServerStep := do
  match ← Stateful.attempt (runHandler io command handler) with
  | .ok step => return step
  | .error (.error error) =>
      if isUsbDisconnect error then Stateful.fail error
      else
        fail io error.error.message.toList
        return .proceed
  | .error fault => throw fault

/-- `run_once` after the command line is read, downloads apart. -/
def runLine : Dispatch → Session ServerStep
  | .notUtf8 => do
      fail io "unrecognized command".toList
      return .proceed
  | .leave => do
      let _sent ← Stateful.attempt (okay io [])
      return .leave
  | .upload => do
      uploadStaged io
      return .proceed
  | .download _ => return .proceed
  | .handler handler command => handleCommand io command handler
  | .unsupported => do
      fail io "unsupported command".toList
      return .proceed

end

end Session

end Pocketboot.Fastboot
