import Pocketboot.Adb.Sync
import Pocketboot.Base.Reassembly

/-!
# Sync sessions over a file system

A session as the requests change it, over a file system that keeps a state of
its own.  Each handler says which operations it makes on the file system, in
which order, and what it queues for the output thread.
-/

namespace Pocketboot.Adb

/-- The operations of the device's file system, on states `σ`. -/
structure FileSystem (σ : Type) where
  metadata : Bytes → σ → Option SyncStat × σ
  readDir : Bytes → σ → Told (List (Told SyncEntry)) × σ
  createDirAll : Bytes → σ → Told Unit × σ
  /-- `create_dir_all` of the parent of a path, when it has a nonempty one. -/
  createParent : Bytes → σ → Told Unit × σ
  /-- Open for writing, created and truncated. -/
  create : Bytes → σ → Told Unit × σ
  writeAll : Bytes → Bytes → σ → Told Unit × σ
  flush : Bytes → σ → Told Unit × σ
  setPermissions : Bytes → Nat → σ → Told Unit × σ
  utimens : Bytes → Nat → σ → Told Unit × σ
  openRead : Bytes → σ → Told Unit × σ
  /-- So many bytes of an open file at most, from an offset on. -/
  read : Bytes → Nat → Nat → σ → Told Bytes × σ

/-- What a session takes from its buffer. -/
inductive SyncMessage where
  | request (id payload : Bytes)
  | data (content : Bytes)
  | done (mtime : Nat)
  | unexpected (id : Bytes)
  deriving DecidableEq, Repr

/-- An unexpected message clears the buffer. -/
def SyncMessage.keepsBuffer : SyncMessage → Bool
  | .unexpected _ => false
  | _ => true

/-- A session without its buffer. -/
structure SyncWorker (σ : Type) where
  state : SyncState
  files : σ
  /-- What was queued for the output thread. -/
  responses : List SyncResponse
  /-- A ghost: the messages taken from the buffer. -/
  handled : List SyncMessage

structure SyncSession (σ : Type) where
  buffer : Bytes
  worker : SyncWorker σ

namespace SyncWorker

variable {σ : Type}

/-- A session that has just been opened. -/
def fresh (files : σ) : SyncWorker σ := ⟨.idle, files, [], []⟩

def queueResponse (worker : SyncWorker σ) (response : SyncResponse) :
    SyncWorker σ :=
  { worker with responses := worker.responses ++ [response] }

def queuePacket (worker : SyncWorker σ) (payload : Bytes) : SyncWorker σ :=
  worker.queueResponse (.packet payload)

def queueFail (worker : SyncWorker σ) (message : Text) :
    Run IoError Unit × SyncWorker σ :=
  match syncFailPacket message with
  | .ok payload => (.ok (), worker.queuePacket payload)
  | .error fault => (.error fault, worker)

def receive (worker : SyncWorker σ) (send : SyncSend) : SyncWorker σ :=
  { worker with state := .receiving send }

section

variable (fs : FileSystem σ)

def handleStat (path : Bytes) (worker : SyncWorker σ) :
    Run IoError Unit × SyncWorker σ :=
  let (stat, files) := fs.metadata path worker.files
  let worker := { worker with files := files }
  (.ok (), worker.queuePacket (syncStatPacket (stat.getD ⟨0, 0, 0⟩)))

/-- The loop of `handle_list`; the first failure ends the listing. -/
def listEntries (path : Bytes) (worker : SyncWorker σ) :
    List (Told SyncEntry) → Run IoError Unit × SyncWorker σ
  | [] => (.ok (), worker.queuePacket syncListDonePacket)
  | .error error :: _ => worker.queueFail (SyncM.about "list" path error)
  | .ok entry :: rest =>
      match entry.metadata with
      | .error error =>
          worker.queueFail
            (SyncM.about "stat" (SyncM.entryPath path entry.name) error)
      | .ok stat =>
          match syncDentPacket stat entry.name with
          | .error fault => (.error fault, worker)
          | .ok payload => listEntries path (worker.queuePacket payload) rest

def handleList (path : Bytes) (worker : SyncWorker σ) :
    Run IoError Unit × SyncWorker σ :=
  let (entries, files) := fs.readDir path worker.files
  let worker := { worker with files := files }
  match entries with
  | .error error => worker.queueFail (SyncM.about "list" path error)
  | .ok entries => worker.listEntries path entries

def handleRecv (path : Bytes) (worker : SyncWorker σ) :
    Run IoError Unit × SyncWorker σ :=
  (.ok (), worker.queueResponse (.file path))

def createSyncFile (path : Bytes) (files : σ) : Told Unit × σ :=
  match fs.createParent path files with
  | (.error error, files) => (.error error, files)
  | (.ok (), files) => fs.create path files

def setSyncMode (path : Bytes) (mode : Nat) (files : σ) : Told Unit × σ :=
  fs.setPermissions path (mode &&& 0o7777) files

def setSyncMtime (path : Bytes) (mtime : Nat) (files : σ) : Told Unit × σ :=
  if 0 ∈ path then (.error "path contains interior NUL".toList, files)
  else fs.utimens path mtime files

/-- The push that the target of a `SEND` begins. -/
def openSend (path : Bytes) (mode : Nat) (files : σ) : SyncSend × σ :=
  if mode &&& SyncM.sIfmt = SyncM.sIfdir then
    let (made, files) := fs.createDirAll path files
    (⟨path, mode, false, SyncM.failureOf "mkdir" path made⟩, files)
  else if mode &&& SyncM.sIfmt = SyncM.sIflnk then
    (⟨path, mode, false, some ("symlink push is not supported: ".toList ++
      Text.ofUtf8Lossy path)⟩, files)
  else
    match createSyncFile fs path files with
    | (.error error, files) =>
        (⟨path, mode, false, some (SyncM.about "create" path error)⟩, files)
    | (.ok (), files) => (⟨path, mode, true, none⟩, files)

def startSend (payload : Bytes) (worker : SyncWorker σ) :
    Run IoError Unit × SyncWorker σ :=
  match parseSendTarget payload with
  | .error error => worker.queueFail error
  | .ok (path, mode) =>
      let (send, files) := openSend fs path mode worker.files
      let worker := { worker with files := files }
      (.ok (), worker.receive send)

def handleSendData (send : SyncSend) (content : Bytes) (files : σ) :
    SyncSend × σ :=
  if send.failure.isSome then (send, files)
  else if !send.file then
    if content ≠ [] then
      ({ send with failure := some ("cannot write data to directory ".toList ++
        Text.ofUtf8Lossy send.path) }, files)
    else (send, files)
  else
    match fs.writeAll send.path content files with
    | (.ok (), files) => (send, files)
    | (.error error, files) =>
        ({ send with
          file := false
          failure := some (SyncM.about "write" send.path error) }, files)

/-- One operation of `finish_send` that is made while nothing failed. -/
def attempt (name : String) (path : Bytes)
    (operation : σ → Told Unit × σ) :
    Option Text × σ → Option Text × σ
  | (some failure, files) => (some failure, files)
  | (none, files) =>
      let (result, files) := operation files
      (SyncM.failureOf name path result, files)

/-- What has failed when a push ends. -/
def closeSend (send : SyncSend) (mtime : Nat) (files : σ) :
    Option Text × σ :=
  let (failure, files) :=
    if send.file then
      let (flushed, files) := fs.flush send.path files
      ((SyncM.failureOf "flush" send.path flushed).or send.failure, files)
    else (send.failure, files)
  attempt "utime" send.path (setSyncMtime fs send.path mtime)
    (attempt "chmod" send.path (setSyncMode fs send.path send.mode)
      (failure, files))

def finishSend (send : SyncSend) (mtime : Nat) (worker : SyncWorker σ) :
    Run IoError Unit × SyncWorker σ :=
  let (failure, files) := closeSend fs send mtime worker.files
  let worker := { worker with state := .idle, files := files }
  match failure with
  | some failure => worker.queueFail failure
  | none => (.ok (), worker.queuePacket (syncStatusPacket "OKAY" 0))

def handleSyncRequest (id payload : Bytes) (worker : SyncWorker σ) :
    Run IoError Unit × SyncWorker σ :=
  if id = syncId "STAT" then worker.handleStat fs payload
  else if id = syncId "LIST" then worker.handleList fs payload
  else if id = syncId "RECV" then worker.handleRecv payload
  else if id = syncId "SEND" then worker.startSend fs payload
  else if id = syncId "QUIT" then (.ok (), worker)
  else worker.queueFail
    ("unsupported sync request ".toList ++ Text.ofUtf8Lossy id)

theorem handleSyncRequest_send (payload : Bytes) (worker : SyncWorker σ) :
    worker.handleSyncRequest fs (syncId "SEND") payload =
      worker.startSend fs payload := by
  rw [handleSyncRequest, if_neg (by decide), if_neg (by decide),
    if_neg (by decide), if_pos rfl]

/-- Data and its end mean something only while a file is received. -/
def handleData (content : Bytes) (worker : SyncWorker σ) : SyncWorker σ :=
  match worker.state with
  | .idle => worker
  | .receiving send =>
      let (send, files) := handleSendData fs send content worker.files
      let worker := { worker with files := files }
      worker.receive send

def handleDone (mtime : Nat) (worker : SyncWorker σ) :
    Run IoError Unit × SyncWorker σ :=
  match worker.state with
  | .idle => (.ok (), worker)
  | .receiving send => worker.finishSend fs send mtime

def handleUnexpected (id : Bytes) (worker : SyncWorker σ) :
    Run IoError Unit × SyncWorker σ :=
  let worker := { worker with state := .idle }
  worker.queueFail ("expected DATA or DONE during SEND, got ".toList ++
    Text.ofUtf8Lossy id)

def handleMessage (worker : SyncWorker σ) :
    SyncMessage → Run IoError Unit × SyncWorker σ
  | .request id payload => worker.handleSyncRequest fs id payload
  | .data content => (.ok (), worker.handleData fs content)
  | .done mtime => worker.handleDone fs mtime
  | .unexpected id => worker.handleUnexpected id

/-- The message is taken from the buffer. -/
def log (worker : SyncWorker σ) (message : SyncMessage) : SyncWorker σ :=
  { worker with handled := worker.handled ++ [message] }

/-- The work that a message makes, and whether the buffer is kept. -/
def perform (worker : SyncWorker σ) (message : SyncMessage) :
    Run IoError Bool × SyncWorker σ :=
  let (outcome, worker) := (worker.log message).handleMessage fs message
  ((fun _ => message.keepsBuffer) <$> outcome, worker)

end

/-! ## The next message -/

/-- A request at the front of the buffer. -/
def nextIdleMessage (buffer : Bytes) : Option (SyncMessage × Nat) :=
  if buffer.length < 8 then none
  else
    let total := 8 + Bytes.ofLe (Bytes.slice buffer 4 8)
    if buffer.length < total then none
    else some (.request (buffer.take 4) (Bytes.slice buffer 8 total), total)

/-- A part of a push at the front of the buffer. -/
def nextSendMessage (buffer : Bytes) : Option (SyncMessage × Nat) :=
  if buffer.length < 8 then none
  else
    let id := buffer.take 4
    let value := Bytes.ofLe (Bytes.slice buffer 4 8)
    if id = syncId "DATA" then
      if buffer.length < 8 + value then none
      else some (.data (Bytes.slice buffer 8 (8 + value)), 8 + value)
    else if id = syncId "DONE" then some (.done value, 8)
    else some (.unexpected id, 8)

def nextMessage (worker : SyncWorker σ) (buffer : Bytes) :
    Option (SyncMessage × Nat) :=
  match worker.state with
  | .idle => nextIdleMessage buffer
  | .receiving _ => nextSendMessage buffer

/-! ## The session as a consumer -/

private theorem slice_of_take {left right : Bytes} {start stop size : Nat}
    (same : left.take size = right.take size) (inside : stop ≤ size) :
    Bytes.slice left start stop = Bytes.slice right start stop := by
  have cut : left.take stop = right.take stop := by
    have := congrArg (List.take stop) same
    rwa [List.take_take, List.take_take, min_eq_left inside] at this
  have both := congrArg (List.drop start) cut
  rwa [List.drop_take, List.drop_take] at both

private theorem take_of_take {left right : Bytes} {start size : Nat}
    (same : left.take size = right.take size) (inside : start ≤ size) :
    left.take start = right.take start := by
  have := congrArg (List.take start) same
  rwa [List.take_take, List.take_take, min_eq_left inside] at this

theorem nextIdleMessage_eq_some {buffer : Bytes} {message : SyncMessage}
    {size : Nat} :
    nextIdleMessage buffer = some (message, size) ↔
      8 ≤ buffer.length ∧ size ≤ buffer.length ∧
        size = 8 + Bytes.ofLe (Bytes.slice buffer 4 8) ∧
        message = .request (buffer.take 4) (Bytes.slice buffer 8 size) := by
  unfold nextIdleMessage
  dsimp only
  split
  · simp only [reduceCtorEq, false_iff]
    omega
  · split
    · simp only [reduceCtorEq, false_iff]
      omega
    · simp only [Option.some.injEq, Prod.mk.injEq]
      constructor
      · rintro ⟨rfl, rfl⟩
        exact ⟨by omega, by omega, rfl, rfl⟩
      · rintro ⟨_, _, rfl, rfl⟩
        exact ⟨rfl, rfl⟩

/-- A whole message is known from its own bytes. -/
theorem nextMessage_of_take {worker : SyncWorker σ} {buffer : Bytes}
    {message : SyncMessage} {size : Nat}
    (next : worker.nextMessage buffer = some (message, size)) :
    0 < size ∧ size ≤ buffer.length ∧
      ∀ other : Bytes, size ≤ other.length →
        other.take size = buffer.take size →
          worker.nextMessage other = some (message, size) := by
  unfold nextMessage at next ⊢
  split at next
  · obtain ⟨header, inside, rfl, rfl⟩ := nextIdleMessage_eq_some.mp next
    have eight : 8 ≤ 8 + Bytes.ofLe (Bytes.slice buffer 4 8) := by omega
    refine ⟨by omega, inside, fun other long same =>
      nextIdleMessage_eq_some.mpr ⟨by omega, long, ?_, ?_⟩⟩
    · rw [slice_of_take same eight]
    · rw [take_of_take same (by omega), slice_of_take same le_rfl]
  · unfold nextSendMessage at next
    dsimp only at next
    split at next
    · cases next
    · rename_i header
      split at next
      · rename_i isData
        split at next
        · cases next
        · rename_i whole
          obtain ⟨rfl, rfl⟩ := Prod.mk.inj (Option.some.inj next)
          have eight : 8 ≤ 8 + Bytes.ofLe (Bytes.slice buffer 4 8) := by omega
          refine ⟨by omega, by omega, fun other long same => ?_⟩
          rw [nextSendMessage, if_neg (by omega), slice_of_take same eight,
            take_of_take same (by omega), if_pos isData, if_neg (by omega),
            slice_of_take same le_rfl]
      · rename_i notData
        split at next
        · rename_i isDone
          obtain ⟨rfl, rfl⟩ := Prod.mk.inj (Option.some.inj next)
          refine ⟨by omega, by omega, fun other long same => ?_⟩
          rw [nextSendMessage, if_neg (by omega), slice_of_take same le_rfl,
            take_of_take same (by omega), if_neg notData, if_pos isDone]
        · rename_i notDone
          obtain ⟨rfl, rfl⟩ := Prod.mk.inj (Option.some.inj next)
          refine ⟨by omega, by omega, fun other long same => ?_⟩
          rw [nextSendMessage, if_neg (by omega), slice_of_take same le_rfl,
            take_of_take same (by omega), if_neg notData, if_neg notDone]

/-! ## Work is added behind earlier work -/

/-- The worker with the log of `front` before its own. -/
def after (front worker : SyncWorker σ) : SyncWorker σ :=
  { worker with
    responses := front.responses ++ worker.responses
    handled := front.handled ++ worker.handled }

section

variable (fs : FileSystem σ) (front : SyncWorker σ)

/-- A step that only adds to the log, and does not depend on it. -/
def Adds (step : SyncWorker σ → Run IoError Unit × SyncWorker σ) : Prop :=
  ∀ worker,
    (step worker).2.handled = worker.handled ∧
      ∀ front, step (after front worker) =
        ((step worker).1, after front (step worker).2)

theorem queuePacket_adds (payload : Bytes) :
    @Adds σ fun worker => (.ok (), worker.queuePacket payload) := fun worker =>
  ⟨rfl, fun front => by
    simp [after, queuePacket, queueResponse, List.append_assoc]⟩

theorem queueFail_adds (message : Text) :
    @Adds σ fun worker => worker.queueFail message := by
  intro worker
  unfold queueFail
  cases syncFailPacket message with
  | error fault => exact ⟨rfl, fun _ => rfl⟩
  | ok payload => exact queuePacket_adds payload worker

theorem listEntries_adds (path : Bytes) (entries : List (Told SyncEntry)) :
    @Adds σ fun worker => worker.listEntries path entries := by
  induction entries with
  | nil => exact queuePacket_adds syncListDonePacket
  | cons entry rest induction =>
      intro worker
      cases entry with
      | error error => exact queueFail_adds _ worker
      | ok entry =>
          simp only [listEntries]
          cases entry.metadata with
          | error error => exact queueFail_adds _ worker
          | ok stat =>
              dsimp only
              cases syncDentPacket stat entry.name with
              | error fault => exact ⟨rfl, fun _ => rfl⟩
              | ok payload =>
                  dsimp only
                  have queued := queuePacket_adds payload worker
                  have listed := induction (worker.queuePacket payload)
                  refine ⟨listed.1, fun front => ?_⟩
                  have same := congrArg Prod.snd (queued.2 front)
                  dsimp only at same
                  rw [same]
                  exact listed.2 front

/-- Operations on the file system come before the log is changed. -/
theorem Adds.onFiles {α : Type} (operation : σ → α × σ)
    (step : α → SyncWorker σ → Run IoError Unit × SyncWorker σ)
    (adds : ∀ item, Adds (step item)) :
    Adds fun worker => step (operation worker.files).1
      { worker with files := (operation worker.files).2 } := fun worker =>
  adds _ { worker with files := (operation worker.files).2 }

theorem setState_adds {step : SyncWorker σ → Run IoError Unit × SyncWorker σ}
    (adds : Adds step) (state : SyncState) :
    Adds fun worker => step { worker with state := state } := fun worker =>
  adds { worker with state := state }

theorem startSend_adds (payload : Bytes) :
    Adds fun worker => worker.startSend fs payload := by
  unfold startSend
  cases parseSendTarget payload with
  | error error => exact queueFail_adds error
  | ok target => exact fun worker => ⟨rfl, fun _ => rfl⟩

theorem finishSend_adds (send : SyncSend) (mtime : Nat) :
    Adds fun worker => worker.finishSend fs send mtime := by
  refine Adds.onFiles (closeSend fs send mtime) (fun failure worker =>
    match failure with
    | some failure => queueFail { worker with state := .idle } failure
    | none => (.ok (), queuePacket { worker with state := .idle }
        (syncStatusPacket "OKAY" 0))) ?_
  intro failure
  cases failure with
  | some failure => exact setState_adds (queueFail_adds failure) .idle
  | none => exact setState_adds (queuePacket_adds _) .idle

theorem handleSyncRequest_adds (id payload : Bytes) :
    Adds fun worker => worker.handleSyncRequest fs id payload := by
  unfold handleSyncRequest
  split
  · exact Adds.onFiles (fs.metadata payload) (fun stat worker =>
      (.ok (), worker.queuePacket (syncStatPacket (stat.getD ⟨0, 0, 0⟩))))
      fun stat => queuePacket_adds _
  · split
    · refine Adds.onFiles (fs.readDir payload) (fun entries worker =>
        match entries with
        | .error error => worker.queueFail (SyncM.about "list" payload error)
        | .ok entries => worker.listEntries payload entries) ?_
      intro entries
      cases entries with
      | error error => exact queueFail_adds _
      | ok entries => exact listEntries_adds payload entries
    · split
      · exact fun worker => ⟨rfl, fun front => by
          simp [handleRecv, after, queueResponse]⟩
      · split
        · exact startSend_adds fs payload
        · split
          · exact fun worker => ⟨rfl, fun _ => rfl⟩
          · exact queueFail_adds _

theorem handleMessage_adds (message : SyncMessage) :
    Adds fun worker => worker.handleMessage fs message := by
  cases message with
  | request id payload => exact handleSyncRequest_adds fs id payload
  | data content =>
      intro worker
      obtain ⟨state, files, responses, handled⟩ := worker
      cases state <;> exact ⟨rfl, fun _ => rfl⟩
  | done mtime =>
      intro worker
      obtain ⟨state, files, responses, handled⟩ := worker
      cases state with
      | idle => exact ⟨rfl, fun _ => rfl⟩
      | receiving send => exact finishSend_adds fs send mtime _
  | unexpected id => exact setState_adds (queueFail_adds _) .idle

theorem perform_handled (worker : SyncWorker σ) (message : SyncMessage) :
    (worker.perform fs message).2.handled = worker.handled ++ [message] :=
  (handleMessage_adds fs message (worker.log message)).1

/-- What a message does is not changed by earlier work. -/
theorem perform_after (front worker : SyncWorker σ) (message : SyncMessage) :
    (after front worker).perform fs message =
      ((worker.perform fs message).1,
        after front (worker.perform fs message).2) := by
  have logged : (after front worker).log message =
      after front (worker.log message) := by
    simp [after, log]
  have adds := (handleMessage_adds fs message (worker.log message)).2 front
  simp only [perform, logged, adds]

/-- The worker without its log. -/
def blank (worker : SyncWorker σ) : SyncWorker σ :=
  ⟨worker.state, worker.files, [], []⟩

@[simp] theorem after_blank (worker : SyncWorker σ) :
    after worker worker.blank = worker := by
  simp [after, blank]

theorem perform_blank (worker : SyncWorker σ) (message : SyncMessage) :
    worker.perform fs message =
      ((worker.blank.perform fs message).1,
        after worker (worker.blank.perform fs message).2) := by
  have later := perform_after fs worker worker.blank message
  rwa [after_blank] at later

end

/-- A session as a consumer of its messages. -/
def consumer (fs : FileSystem σ) :
    Consumer (SyncWorker σ) SyncMessage IoError where
  next := nextMessage
  perform := perform fs
  count worker := worker.handled.length
  next_size next := by
    obtain ⟨positive, inside, _⟩ := nextMessage_of_take next
    exact ⟨positive, inside⟩
  next_append next more := by
    obtain ⟨_, inside, found⟩ := nextMessage_of_take next
    refine found _ ?_ (List.take_append_of_le_length inside)
    rw [List.length_append]
    omega
  next_take next := by
    obtain ⟨_, inside, found⟩ := nextMessage_of_take next
    refine found _ (List.length_take_of_le inside).ge ?_
    rw [List.take_take, min_self]
  count_perform worker message := by
    rw [perform_handled, List.length_append, List.length_singleton]

@[simp] theorem consumer_perform (fs : FileSystem σ) (worker : SyncWorker σ)
    (message : SyncMessage) :
    (consumer fs).perform worker message = worker.perform fs message := rfl

/-- Earlier work stays before what a stream does. -/
theorem drains_after {worker last : SyncWorker σ} {bytes : Bytes}
    {ending : Consumer.Ending IoError} {fs : FileSystem σ}
    (front : SyncWorker σ)
    (drains : (consumer fs).Drains worker bytes ending last) :
    (consumer fs).Drains (after front worker) bytes ending
      (after front last) := by
  have performs : ∀ (worker : SyncWorker σ) (message : SyncMessage),
      (consumer fs).perform (after front worker) message =
        (((consumer fs).perform worker message).1,
          after front ((consumer fs).perform worker message).2) :=
    fun worker message => perform_after fs front worker message
  induction drains with
  | waiting incomplete => exact .waiting incomplete
  | failed next performed =>
      exact .failed next (by rw [performs, performed])
  | discarded next performed =>
      exact .discarded next (by rw [performs, performed])
  | step next performed _ induction =>
      exact .step next (by rw [performs, performed]) induction

end SyncWorker

end Pocketboot.Adb
