import Pocketboot.Adb.Packets
import Pocketboot.Base.Stateful

/-!
# Sync requests

The input side of a sync stream: the buffer of a session is cut into requests,
and each request queues responses for the output thread.  The file system
answers as `SyncIo` says, request by request.
-/

namespace Pocketboot.Adb

/-- A fallible result whose error is told as text. -/
abbrev Told (α : Type) : Type := Except Text α

structure SyncStat where
  mode : Nat
  size : Nat
  mtime : Nat
  deriving DecidableEq, Repr

structure SyncEntry where
  name : Bytes
  metadata : Told SyncStat

/-- What the file system does for the request with this number. -/
structure SyncIo where
  stat : Nat → Option SyncStat
  readDir : Nat → Told (List (Told SyncEntry))
  createDirAll : Nat → Told Unit
  createSyncFile : Nat → Told Unit
  writeAll : Nat → Told Unit
  flush : Nat → Told Unit
  setSyncMode : Nat → Told Unit
  setSyncMtime : Nat → Told Unit

structure SyncSend where
  path : Bytes
  mode : Nat
  /-- A file is open. -/
  file : Bool
  failure : Option Text
  deriving DecidableEq, Repr

inductive SyncState where
  | idle
  | receiving (send : SyncSend)
  deriving DecidableEq, Repr

inductive SyncResponse where
  | packet (payload : Bytes)
  | file (path : Bytes)
  deriving DecidableEq, Repr

structure SyncInput where
  buffer : Bytes
  state : SyncState
  deriving DecidableEq, Repr

/-! ## The packets of the sync protocol -/

/-- The four letters of a sync request. -/
def syncId (name : String) : Bytes := Text.utf8 name.toList

def le32 (value : Nat) : Bytes := Bytes.toLe 4 value

def syncStatusPacket (id : String) (value : Nat) : Bytes :=
  syncId id ++ le32 value

def syncStatPacket (stat : SyncStat) : Bytes :=
  syncId "STAT" ++ le32 stat.mode ++ le32 stat.size ++ le32 stat.mtime

/-- An id, the length of a content, and the content. -/
def syncCounted (id : String) (tooLong : String) (front content : Bytes) :
    Run IoError Bytes := do
  Run.ensure (content.length < 2 ^ 32) (invalidInput tooLong)
  return syncId id ++ front ++ le32 content.length ++ content

def syncDentPacket (stat : SyncStat) (name : Bytes) : Run IoError Bytes :=
  syncCounted "DENT" "sync directory entry name too long"
    (le32 stat.mode ++ le32 stat.size ++ le32 stat.mtime) name

def syncListDonePacket : Bytes :=
  syncId "DONE" ++ le32 0 ++ le32 0 ++ le32 0 ++ le32 0

def syncDataPacket (content : Bytes) : Run IoError Bytes :=
  syncCounted "DATA" "sync data packet too large" [] content

def syncFailPacket (message : Text) : Run IoError Bytes :=
  syncCounted "FAIL" "sync failure message too long" [] message.utf8

example : syncStatPacket ⟨0o100644, 123, 456⟩ =
    [83, 84, 65, 84, 0xa4, 0x81, 0, 0, 123, 0, 0, 0, 0xc8, 1, 0, 0] := by
  decide +kernel

/-! ## The target of a `SEND` -/

/-- Why a text is not a `u32`. -/
def parseIntError : Nat → Text → Text
  | _, [] => "cannot parse integer from empty string".toList
  | high, letter :: rest =>
      match Text.toDigit 10 letter with
      | none => "invalid digit found in string".toList
      | some digit =>
          if 2 ^ 32 ≤ high * 10 + digit then
            "number too large to fit in target type".toList
          else parseIntError (high * 10 + digit) rest

def comma : UInt8 := 44

/-- The path before the last comma and the mode after it. -/
def parseSendTarget (payload : Bytes) : Told (Bytes × Nat) :=
  let after := (payload.reverse.takeWhile (· ≠ comma)).reverse
  if after.length = payload.length then
    .error "SEND target is missing mode".toList
  else
    match Text.ofUtf8 after with
    | none => .error "SEND mode is not utf-8".toList
    | some digits =>
        match Text.parseU32 10 digits with
        | some mode =>
            .ok (payload.take (payload.length - after.length - 1), mode)
        | none =>
            .error ("SEND mode: ".toList ++ parseIntError 0
              (if digits.length = 1 then digits
                else (Text.stripPrefix ['+'] digits).getD digits))

example : parseSendTarget (Text.utf8 "/tmp/file,with,commas,33206".toList) =
    .ok (Text.utf8 "/tmp/file,with,commas".toList, 33206) := by
  decide +kernel

/-! ## Requests -/

/-- A session while it works on its buffer: the responses it has to queue, and
the number of requests so far. -/
structure SyncWork where
  input : SyncInput
  pushed : List SyncResponse
  number : Nat
  deriving DecidableEq, Repr

abbrev SyncM (α : Type) : Type := Stateful SyncWork IoError α

namespace SyncM

def setBuffer (buffer : Bytes) : SyncM Unit :=
  modify fun work =>
    { work with
      input := { work.input with buffer }
      number := work.number + 1 }

def setState (state : SyncState) : SyncM Unit :=
  modify fun work => { work with input := { work.input with state } }

def queueResponse (response : SyncResponse) : SyncM Unit :=
  modify fun work => { work with pushed := work.pushed ++ [response] }

def queuePacket (payload : Bytes) : SyncM Unit :=
  queueResponse (.packet payload)

def queueFail (message : Text) : SyncM Unit := do
  queuePacket (← Stateful.ofRun (syncFailPacket message))

/-- A failure of an operation on a path. -/
def about (operation : String) (path : Bytes) (error : Text) : Text :=
  operation.toList ++ ' ' :: Text.ofUtf8Lossy path ++ ": ".toList ++ error

section

variable (io : SyncIo)

def handleStat (_path : Bytes) : SyncM Unit := do
  let number := (← get).number
  queuePacket (syncStatPacket ((io.stat number).getD ⟨0, 0, 0⟩))

/-- The path of a directory entry. -/
def entryPath (path name : Bytes) : Bytes :=
  if path = [] then name
  else if path.getLast? = some 47 then path ++ name
  else path ++ 47 :: name

/-- The loop of `handle_list`; the first failure ends the listing. -/
def listEntries (path : Bytes) : List (Told SyncEntry) → SyncM Unit
  | [] => queuePacket syncListDonePacket
  | .error error :: _ => queueFail (about "list" path error)
  | .ok entry :: rest =>
      match entry.metadata with
      | .error error =>
          queueFail (about "stat" (entryPath path entry.name) error)
      | .ok stat => do
          queuePacket (← Stateful.ofRun (syncDentPacket stat entry.name))
          listEntries path rest

def handleList (path : Bytes) : SyncM Unit := do
  let number := (← get).number
  match io.readDir number with
  | .error error => queueFail (about "list" path error)
  | .ok entries => listEntries path entries

def handleRecv (path : Bytes) : SyncM Unit := queueResponse (.file path)

def sIfmt : Nat := 0o170000
def sIfdir : Nat := 0o040000
def sIflnk : Nat := 0o120000

/-- The error of an operation on a path, told. -/
def failureOf (operation : String) (path : Bytes) : Told Unit → Option Text
  | .ok () => none
  | .error error => some (about operation path error)

def startSend (payload : Bytes) : SyncM Unit := do
  let number := (← get).number
  match parseSendTarget payload with
  | .error error => queueFail error
  | .ok (path, mode) =>
      if mode &&& sIfmt = sIfdir then
        setState (.receiving
          ⟨path, mode, false, failureOf "mkdir" path (io.createDirAll number)⟩)
      else if mode &&& sIfmt = sIflnk then
        setState (.receiving ⟨path, mode, false,
          some ("symlink push is not supported: ".toList ++
            Text.ofUtf8Lossy path)⟩)
      else
        let failure := failureOf "create" path (io.createSyncFile number)
        setState (.receiving ⟨path, mode, failure.isNone, failure⟩)

def handleSendData (send : SyncSend) (content : Bytes) : SyncM Unit := do
  let number := (← get).number
  if send.failure.isSome then return
  else if !send.file then
    if content ≠ [] then
      setState (.receiving { send with
        failure := some ("cannot write data to directory ".toList ++
          Text.ofUtf8Lossy send.path) })
    else return
  else
    match failureOf "write" send.path (io.writeAll number) with
    | none => return
    | some failure =>
        setState (.receiving { send with
          file := false
          failure := some failure })

/-- A file that fails to be flushed, or cannot be given its mode or time, is
reported as failed. -/
def finishSend (send : SyncSend) (_mtime : Nat) : SyncM Unit := do
  let number := (← get).number
  setState .idle
  let flushed :=
    if send.file then
      (failureOf "flush" send.path (io.flush number)).or send.failure
    else send.failure
  let chmod := flushed.or (failureOf "chmod" send.path (io.setSyncMode number))
  let utime := chmod.or (failureOf "utime" send.path (io.setSyncMtime number))
  match utime with
  | some failure => queueFail failure
  | none => queuePacket (syncStatusPacket "OKAY" 0)

def handleSyncRequest (id payload : Bytes) : SyncM Unit :=
  if id = syncId "STAT" then handleStat io payload
  else if id = syncId "LIST" then handleList io payload
  else if id = syncId "RECV" then handleRecv payload
  else if id = syncId "SEND" then startSend io payload
  else if id = syncId "QUIT" then pure ()
  else queueFail ("unsupported sync request ".toList ++ Text.ofUtf8Lossy id)

/-- A request while no file is being received; `false` when it is not
complete. -/
def processIdleMessage : SyncM Bool := do
  let buffer := (← get).input.buffer
  if buffer.length < 8 then return false
  else
    let total := 8 + Bytes.ofLe (Bytes.slice buffer 4 8)
    if buffer.length < total then return false
    else
      setBuffer (buffer.drop total)
      handleSyncRequest io (buffer.take 4) (Bytes.slice buffer 8 total)
      return true

/-- A part of a file that is being received. -/
def processSendMessage (send : SyncSend) : SyncM Bool := do
  let buffer := (← get).input.buffer
  if buffer.length < 8 then return false
  else
    let id := buffer.take 4
    let value := Bytes.ofLe (Bytes.slice buffer 4 8)
    if id = syncId "DATA" then
      if buffer.length < 8 + value then return false
      else
        setBuffer (buffer.drop (8 + value))
        handleSendData io send (Bytes.slice buffer 8 (8 + value))
        return true
    else if id = syncId "DONE" then do
      setBuffer (buffer.drop 8)
      finishSend io send value
      return true
    else
      setBuffer []
      setState .idle
      queueFail ("expected DATA or DONE during SEND, got ".toList ++
        Text.ofUtf8Lossy id)
      return false

def processBuffer : Nat → SyncM Unit
  | 0 => throw .outOfFuel
  | fuel + 1 => do
      let consumed ←
        match (← get).input.state with
        | .idle => processIdleMessage io
        | .receiving send => processSendMessage io send
      if consumed then processBuffer fuel else pure ()

end

end SyncM

/-- `write_input` of a sync session: the responses to queue, and whether the
input was accepted if they all can be queued. -/
def SyncInput.write (input : SyncInput) (io : SyncIo) (payload : Bytes) :
    Run IoError Unit × SyncWork :=
  let buffer := input.buffer ++ payload
  Stateful.exec (SyncM.processBuffer io (buffer.length + 1))
    ⟨{ input with buffer }, [], 0⟩

end Pocketboot.Adb
