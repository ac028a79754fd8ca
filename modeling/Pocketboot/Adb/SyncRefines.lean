import Pocketboot.Adb.SyncFiles

/-!
# The packet loop's view of a sync session

The packet loop sees a session without its file system: the answers of the
operations are given request by request.  Every write of a session over a file
system is a write of that kind, with the answers the file system gives.
-/

namespace Pocketboot.Adb

/-- What the file system answers in one request. -/
structure SyncAnswers where
  stat : Option SyncStat := none
  readDir : Told (List (Told SyncEntry)) := .ok []
  createDirAll : Told Unit := .ok ()
  createSyncFile : Told Unit := .ok ()
  writeAll : Told Unit := .ok ()
  flush : Told Unit := .ok ()
  setSyncMode : Told Unit := .ok ()
  setSyncMtime : Told Unit := .ok ()

namespace SyncIo

def answers (io : SyncIo) (number : Nat) : SyncAnswers where
  stat := io.stat number
  readDir := io.readDir number
  createDirAll := io.createDirAll number
  createSyncFile := io.createSyncFile number
  writeAll := io.writeAll number
  flush := io.flush number
  setSyncMode := io.setSyncMode number
  setSyncMtime := io.setSyncMtime number

/-- The file system that gives these answers. -/
def ofAnswers (answers : Nat → SyncAnswers) : SyncIo where
  stat number := (answers number).stat
  readDir number := (answers number).readDir
  createDirAll number := (answers number).createDirAll
  createSyncFile number := (answers number).createSyncFile
  writeAll number := (answers number).writeAll
  flush number := (answers number).flush
  setSyncMode number := (answers number).setSyncMode
  setSyncMtime number := (answers number).setSyncMtime

@[simp] theorem answers_ofAnswers (answers : Nat → SyncAnswers) :
    (ofAnswers answers).answers = answers := rfl

end SyncIo

namespace SyncWorker

variable {σ : Type} (fs : FileSystem σ)

/-- What the file system answers to the operations of a message. -/
def answersTo (worker : SyncWorker σ) : SyncMessage → SyncAnswers
  | .request id payload =>
      if id = syncId "STAT" then
        { stat := (fs.metadata payload worker.files).1 }
      else if id = syncId "LIST" then
        { readDir := (fs.readDir payload worker.files).1 }
      else
        match parseSendTarget payload with
        | .error _ => {}
        | .ok (path, _) =>
            { createDirAll := (fs.createDirAll path worker.files).1
              createSyncFile := (createSyncFile fs path worker.files).1 }
  | .data content =>
      match worker.state with
      | .idle => {}
      | .receiving send =>
          { writeAll := (fs.writeAll send.path content worker.files).1 }
  | .done mtime =>
      match worker.state with
      | .idle => {}
      | .receiving send =>
          let flushed := fs.flush send.path worker.files
          let files := if send.file then flushed.2 else worker.files
          let chmod := setSyncMode fs send.path send.mode files
          { flush := flushed.1
            setSyncMode := chmod.1
            setSyncMtime := (setSyncMtime fs send.path mtime chmod.2).1 }
  | .unexpected _ => {}

/-- The work of the packet loop's session. -/
def toWork (worker : SyncWorker σ) (buffer : Bytes) (number : Nat) :
    SyncWork :=
  ⟨⟨buffer, worker.state⟩, worker.responses, number⟩

/-! ## One handler after the other -/

section

variable {fs} {io : SyncIo} {worker : SyncWorker σ} {buffer : Bytes}
  {number : Nat}

/-- The handler of the packet loop's session does what the worker's does. -/
def Matches (handler : SyncM Unit) (worker : SyncWorker σ) (buffer : Bytes)
    (number : Nat) (result : Run IoError Unit × SyncWorker σ) : Prop :=
  Stateful.exec handler (worker.toWork buffer number) =
    (result.1, result.2.toWork buffer number)

theorem queuePacket_matches (payload : Bytes) :
    Matches (SyncM.queuePacket payload) worker buffer number
      (.ok (), worker.queuePacket payload) := rfl

theorem queueFail_matches (message : Text) :
    Matches (SyncM.queueFail message) worker buffer number
      (worker.queueFail message) := by
  unfold Matches SyncM.queueFail queueFail
  cases syncFailPacket message <;> rfl

theorem listEntries_matches (path : Bytes) (entries : List (Told SyncEntry)) :
    Matches (SyncM.listEntries path entries) worker buffer number
      (worker.listEntries path entries) := by
  induction entries generalizing worker with
  | nil => exact queuePacket_matches _
  | cons entry rest induction =>
      cases entry with
      | error error => exact queueFail_matches _
      | ok entry =>
          unfold SyncM.listEntries listEntries
          cases entry.metadata with
          | error error => exact queueFail_matches _
          | ok stat =>
              dsimp only
              cases syncDentPacket stat entry.name with
              | error fault => rfl
              | ok payload => exact @induction (worker.queuePacket payload)

theorem handleStat_matches {path : Bytes}
    (answer : io.stat number = (fs.metadata path worker.files).1) :
    Matches (SyncM.handleStat io path) worker buffer number
      (worker.handleStat fs path) := by
  have queued := @queuePacket_matches _
    { worker with files := (fs.metadata path worker.files).2 } buffer number
    (syncStatPacket ((io.stat number).getD ⟨0, 0, 0⟩))
  rw [answer] at queued
  unfold Matches at queued ⊢
  rw [handleStat, ← queued, ← answer]
  rfl

private theorem exec_get_bind {α : Type} (work : SyncWork)
    (next : SyncWork → SyncM α) :
    Stateful.exec (get >>= next) work = Stateful.exec (next work) work :=
  rfl

private theorem exec_setState_bind {α : Type} (state : SyncState)
    (work : SyncWork) (next : PUnit → SyncM α) :
    Stateful.exec (SyncM.setState state >>= next) work =
      Stateful.exec (next ⟨⟩)
        { work with input := { work.input with state := state } } :=
  rfl

theorem handleList_matches {path : Bytes}
    (answer : io.readDir number = (fs.readDir path worker.files).1) :
    Matches (SyncM.handleList io path) worker buffer number
      (worker.handleList fs path) := by
  have counted : (worker.toWork buffer number).number = number := rfl
  unfold Matches handleList
  conv_lhs =>
    rw [SyncM.handleList, exec_get_bind]
    dsimp only
    rw [counted, answer]
  rcases fs.readDir path worker.files with ⟨entries, files⟩
  cases entries with
  | error error => exact @queueFail_matches _ { worker with files } _ _ _
  | ok entries => exact @listEntries_matches _ { worker with files } _ _ _ _

/-- The state that a `SEND` with a target leads to. -/
private theorem exec_startSend {payload path : Bytes} {mode : Nat}
    (parsed : parseSendTarget payload = .ok (path, mode)) :
    Stateful.exec (SyncM.startSend io payload) (worker.toWork buffer number) =
      (.ok (), (worker.receive
        (if mode &&& SyncM.sIfmt = SyncM.sIfdir then
          ⟨path, mode, false,
            SyncM.failureOf "mkdir" path (io.createDirAll number)⟩
        else if mode &&& SyncM.sIfmt = SyncM.sIflnk then
          ⟨path, mode, false, some ("symlink push is not supported: ".toList ++
            Text.ofUtf8Lossy path)⟩
        else
          ⟨path, mode,
            (SyncM.failureOf "create" path
              (io.createSyncFile number)).isNone,
            SyncM.failureOf "create" path (io.createSyncFile number)⟩)).toWork
          buffer number) := by
  have reads : Stateful.exec (SyncM.startSend io payload)
      (worker.toWork buffer number) =
        Stateful.exec (match parseSendTarget payload with
          | .error error => SyncM.queueFail error
          | .ok (path, mode) =>
              if mode &&& SyncM.sIfmt = SyncM.sIfdir then
                SyncM.setState (.receiving ⟨path, mode, false,
                  SyncM.failureOf "mkdir" path (io.createDirAll number)⟩)
              else if mode &&& SyncM.sIfmt = SyncM.sIflnk then
                SyncM.setState (.receiving ⟨path, mode, false,
                  some ("symlink push is not supported: ".toList ++
                    Text.ofUtf8Lossy path)⟩)
              else
                let failure := SyncM.failureOf "create" path
                  (io.createSyncFile number)
                SyncM.setState
                  (.receiving ⟨path, mode, failure.isNone, failure⟩))
          (worker.toWork buffer number) := rfl
  rw [reads, parsed]
  dsimp only
  split
  · rfl
  · split <;> rfl

theorem startSend_matches {payload : Bytes}
    (made : ∀ path mode, parseSendTarget payload = .ok (path, mode) →
      io.createDirAll number = (fs.createDirAll path worker.files).1 ∧
        io.createSyncFile number =
          (createSyncFile fs path worker.files).1) :
    Matches (SyncM.startSend io payload) worker buffer number
      (worker.startSend fs payload) := by
  unfold Matches startSend
  cases parsed : parseSendTarget payload with
  | error error =>
      have unparsed : Stateful.exec (SyncM.startSend io payload)
          (worker.toWork buffer number) = Stateful.exec
            (SyncM.queueFail error) (worker.toWork buffer number) := by
        unfold SyncM.startSend
        rw [parsed]
        rfl
      rw [unparsed]
      exact queueFail_matches _
  | ok target =>
      obtain ⟨path, mode⟩ := target
      obtain ⟨directory, file⟩ := made path mode parsed
      rw [exec_startSend parsed]
      dsimp only
      unfold openSend
      split
      · rw [directory]
        rfl
      · split
        · rfl
        · rw [file]
          rcases createSyncFile fs path worker.files with ⟨error | done, files⟩
          · rfl
          · rfl

theorem handleData_matches {send : SyncSend} {content : Bytes}
    (receiving : worker.state = .receiving send)
    (answer : io.writeAll number =
      (fs.writeAll send.path content worker.files).1) :
    Matches (SyncM.handleSendData io send content) worker buffer number
      (.ok (), worker.handleData fs content) := by
  obtain ⟨state, files, responses, handled⟩ := worker
  obtain rfl : state = .receiving send := receiving
  unfold Matches
  conv_lhs =>
    rw [toWork, SyncM.handleSendData, exec_get_bind]
    dsimp only
  unfold handleData handleSendData
  dsimp only at answer ⊢
  rw [answer]
  split
  · rfl
  · split
    · split <;> rfl
    · rcases fs.writeAll send.path content files with ⟨error | done, files'⟩
      · rfl
      · rfl

/-- The failure of the end of a push: the first that is met. -/
private theorem attempts_fst (path : Bytes) (chmod utime : σ → Told Unit × σ)
    (failure : Option Text) (files : σ) :
    (attempt "utime" path utime (attempt "chmod" path chmod
      (failure, files))).1 =
        ((failure.or (SyncM.failureOf "chmod" path (chmod files).1)).or
          (SyncM.failureOf "utime" path (utime (chmod files).2).1)) := by
  cases failure with
  | some failure => rfl
  | none =>
      simp only [attempt, Option.none_or]
      cases SyncM.failureOf "chmod" path (chmod files).1 <;> rfl

theorem handleDone_matches {send : SyncSend} {mtime : Nat}
    (receiving : worker.state = .receiving send)
    (answers : io.answers number = worker.answersTo fs (.done mtime)) :
    Matches (SyncM.finishSend io send mtime) worker buffer number
      (worker.handleDone fs mtime) := by
  obtain ⟨state, files, responses, handled⟩ := worker
  obtain rfl : state = .receiving send := receiving
  have flush := congrArg SyncAnswers.flush answers
  have chmod := congrArg SyncAnswers.setSyncMode answers
  have utime := congrArg SyncAnswers.setSyncMtime answers
  dsimp only [SyncIo.answers, answersTo] at flush chmod utime
  have failure : (closeSend fs send mtime files).1 =
      ((if send.file then
          (SyncM.failureOf "flush" send.path (io.flush number)).or send.failure
        else send.failure).or
          (SyncM.failureOf "chmod" send.path (io.setSyncMode number))).or
            (SyncM.failureOf "utime" send.path (io.setSyncMtime number)) := by
    rw [flush, chmod, utime]
    unfold closeSend
    dsimp only
    cases send.file <;> exact attempts_fst ..
  unfold Matches
  conv_lhs =>
    rw [toWork, SyncM.finishSend, exec_get_bind]
    dsimp only
    rw [exec_setState_bind, ← failure]
  unfold handleDone finishSend
  dsimp only
  rcases closeSend fs send mtime files with ⟨none | failure, files'⟩
  · rfl
  · exact @queueFail_matches _ ⟨.idle, files', responses, handled⟩ _ _ _

/-- A request of a session that gets the answers of the file system. -/
theorem handleSyncRequest_matches {id payload : Bytes}
    (answers : io.answers number =
      worker.answersTo fs (.request id payload)) :
    Matches (SyncM.handleSyncRequest io id payload) worker buffer number
      (worker.handleSyncRequest fs id payload) := by
  have stat := congrArg SyncAnswers.stat answers
  have readDir := congrArg SyncAnswers.readDir answers
  have createDirAll := congrArg SyncAnswers.createDirAll answers
  have createSyncFile := congrArg SyncAnswers.createSyncFile answers
  dsimp only [SyncIo.answers, answersTo] at stat readDir createDirAll createSyncFile
  unfold SyncM.handleSyncRequest handleSyncRequest
  split
  · rename_i isStat
    rw [if_pos isStat] at stat
    exact handleStat_matches stat
  · rename_i notStat
    rw [if_neg notStat] at readDir createDirAll createSyncFile
    split
    · rename_i isList
      rw [if_pos isList] at readDir
      exact handleList_matches readDir
    · rename_i notList
      rw [if_neg notList] at createDirAll createSyncFile
      split
      · rfl
      · split
        · refine startSend_matches fun path mode parsed => ?_
          rw [parsed] at createDirAll createSyncFile
          exact ⟨createDirAll, createSyncFile⟩
        · split
          · rfl
          · exact queueFail_matches _

end

/-! ## The loop -/

/-- One round of `process_buffer`. -/
def processOne (io : SyncIo) : SyncState → SyncM Bool
  | .idle => SyncM.processIdleMessage io
  | .receiving send => SyncM.processSendMessage io send

section

variable {fs} {io : SyncIo} {worker : SyncWorker σ} {buffer : Bytes}
  {number : Nat}

private theorem exec_processIdleMessage :
    Stateful.exec (SyncM.processIdleMessage io) (worker.toWork buffer number) =
      if buffer.length < 8 then (.ok false, worker.toWork buffer number)
      else if buffer.length < 8 + Bytes.ofLe (Bytes.slice buffer 4 8) then
        (.ok false, worker.toWork buffer number)
      else
        Stateful.exec (SyncM.handleSyncRequest io (buffer.take 4)
            (Bytes.slice buffer 8 (8 + Bytes.ofLe (Bytes.slice buffer 4 8))) >>=
              fun _ => pure true)
          (worker.toWork
            (buffer.drop (8 + Bytes.ofLe (Bytes.slice buffer 4 8)))
            (number + 1)) := by
  have reads : Stateful.exec (SyncM.processIdleMessage io)
      (worker.toWork buffer number) =
        Stateful.exec (if buffer.length < 8 then pure false
          else if buffer.length < 8 + Bytes.ofLe (Bytes.slice buffer 4 8) then
            pure false
          else do
            SyncM.setBuffer
              (buffer.drop (8 + Bytes.ofLe (Bytes.slice buffer 4 8)))
            SyncM.handleSyncRequest io (buffer.take 4) (Bytes.slice buffer 8
              (8 + Bytes.ofLe (Bytes.slice buffer 4 8)))
            return true)
          (worker.toWork buffer number) := rfl
  rw [reads]
  split
  · rfl
  · split <;> rfl

private theorem exec_processSendMessage {send : SyncSend} :
    Stateful.exec (SyncM.processSendMessage io send)
      (worker.toWork buffer number) =
      if buffer.length < 8 then (.ok false, worker.toWork buffer number)
      else if buffer.take 4 = syncId "DATA" then
        if buffer.length < 8 + Bytes.ofLe (Bytes.slice buffer 4 8) then
          (.ok false, worker.toWork buffer number)
        else
          Stateful.exec (SyncM.handleSendData io send (Bytes.slice buffer 8
              (8 + Bytes.ofLe (Bytes.slice buffer 4 8))) >>= fun _ => pure true)
            (worker.toWork
              (buffer.drop (8 + Bytes.ofLe (Bytes.slice buffer 4 8)))
              (number + 1))
      else if buffer.take 4 = syncId "DONE" then
        Stateful.exec (SyncM.finishSend io send
            (Bytes.ofLe (Bytes.slice buffer 4 8)) >>= fun _ => pure true)
          (worker.toWork (buffer.drop 8) (number + 1))
      else
        Stateful.exec (SyncM.queueFail
            ("expected DATA or DONE during SEND, got ".toList ++
              Text.ofUtf8Lossy (buffer.take 4)) >>= fun _ => pure false)
          ({ worker with state := .idle }.toWork [] (number + 1)) := by
  have reads : Stateful.exec (SyncM.processSendMessage io send)
      (worker.toWork buffer number) =
        Stateful.exec (if buffer.length < 8 then pure false
          else if buffer.take 4 = syncId "DATA" then
            if buffer.length < 8 + Bytes.ofLe (Bytes.slice buffer 4 8) then
              pure false
            else do
              SyncM.setBuffer
                (buffer.drop (8 + Bytes.ofLe (Bytes.slice buffer 4 8)))
              SyncM.handleSendData io send (Bytes.slice buffer 8
                (8 + Bytes.ofLe (Bytes.slice buffer 4 8)))
              return true
          else if buffer.take 4 = syncId "DONE" then do
            SyncM.setBuffer (buffer.drop 8)
            SyncM.finishSend io send (Bytes.ofLe (Bytes.slice buffer 4 8))
            return true
          else do
            SyncM.setBuffer []
            SyncM.setState .idle
            SyncM.queueFail ("expected DATA or DONE during SEND, got ".toList ++
              Text.ofUtf8Lossy (buffer.take 4))
            return false)
          (worker.toWork buffer number) := rfl
  rw [reads]
  split
  · rfl
  · split
    · split <;> rfl
    · split <;> rfl

/-- A handler and whether the buffer is kept. -/
private theorem Matches.then {handler : SyncM Unit}
    {result : Run IoError Unit × SyncWorker σ} (keeps : Bool)
    (matched : Matches handler worker buffer number result) :
    Stateful.exec (handler >>= fun _ => pure keeps)
      (worker.toWork buffer number) =
        ((fun _ => keeps) <$> result.1, result.2.toWork buffer number) := by
  unfold Matches at matched
  rw [Stateful.exec_bind, matched]
  rcases result with ⟨fault | done, last⟩ <;> rfl

theorem processOne_incomplete (incomplete : worker.nextMessage buffer = none) :
    Stateful.exec (processOne io worker.state) (worker.toWork buffer number) =
      (.ok false, worker.toWork buffer number) := by
  cases state : worker.state with
  | idle =>
      rw [nextMessage, state] at incomplete
      unfold nextIdleMessage at incomplete
      dsimp only at incomplete
      rw [processOne, exec_processIdleMessage]
      split
      · rfl
      · rename_i header
        rw [if_neg header] at incomplete
        split at incomplete
        · rename_i short
          rw [if_pos short]
        · cases incomplete
  | receiving send =>
      rw [nextMessage, state] at incomplete
      unfold nextSendMessage at incomplete
      dsimp only at incomplete
      rw [processOne, exec_processSendMessage]
      split
      · rfl
      · rename_i header
        rw [if_neg header] at incomplete
        split at incomplete
        · rename_i isData
          split at incomplete
          · rename_i short
            rw [if_pos isData, if_pos short]
          · cases incomplete
        · split at incomplete <;> cases incomplete

/-- What is left of a buffer behind a message. -/
def bufferAfter (buffer : Bytes) (size : Nat) : SyncMessage → Bytes
  | .unexpected _ => []
  | _ => buffer.drop size

theorem processOne_message {message : SyncMessage} {size : Nat}
    (next : worker.nextMessage buffer = some (message, size))
    (answers : io.answers (number + 1) = worker.answersTo fs message) :
    Stateful.exec (processOne io worker.state) (worker.toWork buffer number) =
      ((worker.perform fs message).1, (worker.perform fs message).2.toWork
        (bufferAfter buffer size message) (number + 1)) := by
  cases state : worker.state with
  | idle =>
      rw [nextMessage, state] at next
      obtain ⟨header, whole, rfl, rfl⟩ := nextIdleMessage_eq_some.mp next
      rw [processOne, exec_processIdleMessage, if_neg (by omega),
        if_neg (by omega)]
      have matched := @handleSyncRequest_matches _ _ io
        (worker.log (.request (buffer.take 4) (Bytes.slice buffer 8
          (8 + Bytes.ofLe (Bytes.slice buffer 4 8)))))
        (buffer.drop (8 + Bytes.ofLe (Bytes.slice buffer 4 8)))
        (number + 1) _ _ answers
      exact matched.then true
  | receiving send =>
      rw [nextMessage, state] at next
      unfold nextSendMessage at next
      dsimp only at next
      rw [processOne, exec_processSendMessage]
      split at next
      · cases next
      · rename_i header
        rw [if_neg header]
        split at next
        · rename_i isData
          rw [if_pos isData]
          split at next
          · cases next
          · rename_i whole
            obtain ⟨rfl, rfl⟩ := Prod.mk.inj (Option.some.inj next)
            rw [if_neg whole]
            have matched := @handleData_matches _ fs io
              (worker.log (.data (Bytes.slice buffer 8
                (8 + Bytes.ofLe (Bytes.slice buffer 4 8)))))
              (buffer.drop (8 + Bytes.ofLe (Bytes.slice buffer 4 8)))
              (number + 1) send _ state (by
                have written := congrArg SyncAnswers.writeAll answers
                rwa [answersTo, state] at written)
            exact matched.then true
        · rename_i notData
          rw [if_neg notData]
          split at next
          · rename_i isDone
            obtain ⟨rfl, rfl⟩ := Prod.mk.inj (Option.some.inj next)
            rw [if_pos isDone]
            have matched := @handleDone_matches _ fs io
              (worker.log (.done (Bytes.ofLe (Bytes.slice buffer 4 8))))
              (buffer.drop 8) (number + 1) send _ state answers
            exact matched.then true
          · rename_i notDone
            obtain ⟨rfl, rfl⟩ := Prod.mk.inj (Option.some.inj next)
            rw [if_neg notDone]
            have matched := @queueFail_matches _
              { worker.log (.unexpected (buffer.take 4)) with state := .idle }
              [] (number + 1) ("expected DATA or DONE during SEND, got ".toList
                ++ Text.ofUtf8Lossy (buffer.take 4))
            exact matched.then false

/-- One round of the loop, and the rest of it. -/
private theorem exec_processBuffer (fuel : Nat) (work : SyncWork) :
    Stateful.exec (SyncM.processBuffer io (fuel + 1)) work =
      Stateful.exec (processOne io work.input.state >>= fun consumed =>
        if consumed then SyncM.processBuffer io fuel else pure ()) work := by
  obtain ⟨⟨buffer, state⟩, pushed, number⟩ := work
  cases state <;> rfl

private theorem perform_keeps {message : SyncMessage} {keeps : Bool}
    (kept : (worker.perform fs message).1 = .ok keeps) (size : Nat) :
    bufferAfter buffer size message =
      if keeps then buffer.drop size else [] := by
  obtain ⟨_, _, same⟩ := Run.map_eq_ok.mp kept
  cases message <;> simp_all [bufferAfter, SyncMessage.keepsBuffer]

/-- The packet loop's session does with a buffer what the worker does, given
the answers of its file system to the messages. -/
theorem processBuffer_matches {last : SyncWorker σ}
    {ending : Consumer.Ending IoError} {fuel : Nat}
    (drains : (consumer fs).Drains worker buffer ending last)
    (enough : buffer.length < fuel) :
    ∃ answers : Nat → SyncAnswers, ∀ io : SyncIo,
      (∀ later, number < later → io.answers later = answers later) →
      ∃ number' rest, Stateful.exec (SyncM.processBuffer io fuel)
        (worker.toWork buffer number) =
          (ending.outcome, last.toWork rest number') ∧
        (ending.outcome = .ok () → rest = ending.buffer) := by
  induction drains generalizing fuel number with
  | @waiting worker buffer incomplete =>
      obtain ⟨fuel, rfl⟩ : ∃ before, fuel = before + 1 :=
        ⟨fuel - 1, by omega⟩
      refine ⟨fun _ => {}, fun io _ => ⟨number, buffer, ?_, fun _ => rfl⟩⟩
      rw [exec_processBuffer, Stateful.exec_bind]
      rw [show (worker.toWork buffer number).input.state = worker.state from rfl,
        processOne_incomplete incomplete]
      rfl
  | @failed worker worker' buffer message size fault next performed =>
      obtain ⟨fuel, rfl⟩ : ∃ before, fuel = before + 1 :=
        ⟨fuel - 1, by omega⟩
      refine ⟨fun _ => worker.answersTo fs message, fun io answers =>
        ⟨number + 1, bufferAfter buffer size message, ?_,
          fun ok => by cases ok⟩⟩
      rw [consumer_perform] at performed
      rw [exec_processBuffer, Stateful.exec_bind]
      rw [show (worker.toWork buffer number).input.state = worker.state from rfl,
        processOne_message next (answers _ (Nat.lt_succ_self _)), performed]
      rfl
  | @discarded worker worker' buffer message size next performed =>
      obtain ⟨fuel, rfl⟩ : ∃ before, fuel = before + 1 :=
        ⟨fuel - 1, by omega⟩
      rw [consumer_perform] at performed
      have left := @perform_keeps _ fs worker buffer message false
        (by rw [performed]) size
      refine ⟨fun _ => worker.answersTo fs message, fun io answers =>
        ⟨number + 1, bufferAfter buffer size message, ?_, fun _ => left⟩⟩
      rw [exec_processBuffer, Stateful.exec_bind]
      rw [show (worker.toWork buffer number).input.state = worker.state from rfl,
        processOne_message next (answers _ (Nat.lt_succ_self _)), performed]
      rfl
  | @step worker worker' last buffer message size ending next performed _
      induction =>
      obtain ⟨fuel, rfl⟩ : ∃ before, fuel = before + 1 :=
        ⟨fuel - 1, by omega⟩
      rw [consumer_perform] at performed
      have left := @perform_keeps _ fs worker buffer message true
        (by rw [performed]) size
      obtain ⟨positive, inside⟩ := (consumer fs).next_size next
      obtain ⟨later, run⟩ := @induction (number + 1) fuel (by
        rw [List.length_drop]
        omega)
      refine ⟨fun index => if index = number + 1 then worker.answersTo fs message
        else later index, fun io answers => ?_⟩
      have now : io.answers (number + 1) = worker.answersTo fs message := by
        rw [answers _ (Nat.lt_succ_self _)]
        exact if_pos rfl
      obtain ⟨number', rest, run, whole⟩ := run io fun index behind => by
        rw [answers index (by omega)]
        exact if_neg (by omega)
      refine ⟨number', rest, ?_, whole⟩
      rw [exec_processBuffer, Stateful.exec_bind]
      rw [show (worker.toWork buffer number).input.state = worker.state from rfl,
        processOne_message next now, performed, left]
      exact run

/-- Every write of a session over a file system is a write of the packet
loop's session, with the answers that the file system gives. -/
theorem feed_refines (fs : FileSystem σ) (worker : SyncWorker σ)
    (buffer payload : Bytes) :
    ∃ io pushed rest number,
      SyncInput.write ⟨buffer, worker.state⟩ io payload =
        (((consumer fs).feed worker buffer payload).1,
          ⟨⟨rest, ((consumer fs).feed worker buffer payload).2.1.state⟩, pushed,
            number⟩) ∧
      ((consumer fs).feed worker buffer payload).2.1.responses =
        worker.responses ++ pushed ∧
      (((consumer fs).feed worker buffer payload).1 = .ok () →
        rest = ((consumer fs).feed worker buffer payload).2.2) := by
  have split : after worker ⟨worker.state, worker.files, [], []⟩ = worker := by
    simp [after]
  obtain ⟨ending, last, drains⟩ := @Consumer.drains_total _ _ _ (consumer fs)
    ⟨worker.state, worker.files, [], []⟩ (buffer ++ payload)
  have whole := drains_after worker drains
  rw [split] at whole
  obtain ⟨outcome, state, left⟩ := Consumer.feed_of_drains whole
  obtain ⟨answers, run⟩ := @processBuffer_matches _ fs _ _ 0 _ _ _ drains
    (Nat.lt_succ_self _)
  obtain ⟨number, rest, run, same⟩ := run (.ofAnswers answers) fun _ _ => rfl
  rw [outcome, state]
  refine ⟨.ofAnswers answers, last.responses, rest, number, run, rfl,
    fun ok => ?_⟩
  rw [left ok, same ok]

end

end SyncWorker

end Pocketboot.Adb
