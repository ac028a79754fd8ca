import Pocketboot.Adb.SyncDelivery

/-!
# What a session makes of its calls

A session that is given whole calls answers them in order.  Over files that
are kept by path, a push that is answered with `OKAY` has left its data, its
mode and its time at its path.
-/

namespace Pocketboot.Adb

open SyncWorker (SyncContent frame doneFrame)

structure FileNode where
  content : Bytes
  mode : Nat
  mtime : Nat
  deriving DecidableEq, Repr

/-- What regular files do when an operation on them succeeds.  An operation
that fails may leave anything. -/
structure FileSystem.KeepsFiles {σ : Type} (fs : FileSystem σ)
    (lookup : σ → Bytes → Option FileNode) : Prop where
  create : ∀ path files, (fs.create path files).1 = .ok () →
    ∃ node, lookup (fs.create path files).2 path = some node ∧
      node.content = []
  writeAll : ∀ path data files node, lookup files path = some node →
    (fs.writeAll path data files).1 = .ok () →
      ∃ written, lookup (fs.writeAll path data files).2 path = some written ∧
        written.content = node.content ++ data
  flush : ∀ path files node, lookup files path = some node →
    (fs.flush path files).1 = .ok () →
      ∃ flushed, lookup (fs.flush path files).2 path = some flushed ∧
        flushed.content = node.content
  setPermissions : ∀ path mode files node, lookup files path = some node →
    (fs.setPermissions path mode files).1 = .ok () →
      lookup (fs.setPermissions path mode files).2 path =
        some { node with mode := mode }
  utimens : ∀ path mtime files node, lookup files path = some node →
    (fs.utimens path mtime files).1 = .ok () →
      lookup (fs.utimens path mtime files).2 path =
        some { node with mtime := mtime }
  openRead : ∀ path files, lookup (fs.openRead path files).2 = lookup files
  read : ∀ path offset size files,
    lookup (fs.read path offset size files).2 = lookup files
  /-- A read returns a part of the file that is empty only at its end. -/
  reads : ∀ path offset size files node chunk,
    lookup files path = some node →
      (fs.read path offset size files).1 = .ok chunk →
        chunk <+: node.content.drop offset ∧
          (0 < size → chunk = [] → node.content.length ≤ offset)

namespace SyncWorker

variable {σ : Type}

/-! ## Answers -/

/-- A call is answered behind earlier responses, or the session fails on the
way. -/
inductive Answered (call : SyncCall) (before : List SyncResponse)
    (result : Run IoError Unit × SyncWorker σ) : Prop
  | whole {new : List SyncResponse} (outcome : result.1 = .ok ())
      (state : result.2.state = .idle)
      (responses : result.2.responses = before ++ new)
      (answer : answers.Whole call new)
  | failed {fault : Fault IoError} {new : List SyncResponse}
      (outcome : result.1 = .error fault)
      (responses : result.2.responses = before ++ new)
      (part : answers.Part call new)

/-- A single packet that ends the reply. -/
private theorem answered_packet {call : SyncCall} {worker : SyncWorker σ}
    (idle : worker.state = .idle) {packet : Bytes}
    (ends : answers.ends call (.packet packet)) :
    Answered call worker.responses (.ok (), worker.queuePacket packet) :=
  .whole rfl idle rfl ⟨[], .packet packet, rfl, nofun, ends⟩

theorem queueFail_cases (worker : SyncWorker σ) (message : Text) :
    (∃ packet, IsFail packet ∧
      worker.queueFail message = (.ok (), worker.queuePacket packet)) ∨
        ∃ fault, worker.queueFail message = (.error fault, worker) := by
  unfold queueFail
  cases told : syncFailPacket message with
  | ok packet => exact .inl ⟨packet, ⟨message, told⟩, rfl⟩
  | error fault => exact .inr ⟨fault, rfl⟩

private theorem answered_fail {call : SyncCall} {worker : SyncWorker σ}
    (idle : worker.state = .idle)
    (ends : ∀ packet, IsFail packet → answers.ends call (.packet packet))
    (message : Text) :
    Answered call worker.responses (worker.queueFail message) := by
  rcases worker.queueFail_cases message with ⟨packet, fails, result⟩ |
    ⟨fault, result⟩
  · rw [result]
    exact answered_packet idle (ends packet fails)
  · rw [result]
    exact .failed rfl (List.append_nil _).symm (Stage.Part.nil call)

/-- More of a listing, behind an entry that was queued. -/
private theorem answered_dent {path : SyncContent}
    {before : List SyncResponse} {packet : Bytes}
    {result : Run IoError Unit × SyncWorker σ} (dent : IsDent packet)
    (answered : Answered (.list path) (before ++ [.packet packet]) result) :
    Answered (.list path) before result := by
  have continues : answers.continues (.list path) (.packet packet) :=
    ⟨packet, rfl, dent⟩
  cases answered with
  | @whole new outcome idle responses answer =>
      obtain ⟨body, last, rfl, inside, ends⟩ := answer
      refine .whole outcome idle (responses.trans (List.append_assoc _ _ _))
        ⟨.packet packet :: body, last, rfl, ?_, ends⟩
      exact List.forall_mem_cons.mpr ⟨continues, inside⟩
  | failed outcome responses part =>
      exact .failed outcome (responses.trans (List.append_assoc _ _ _))
        (List.forall_mem_cons.mpr ⟨continues, part⟩)

theorem listEntries_answered (path : SyncContent) {worker : SyncWorker σ}
    (idle : worker.state = .idle) (directory : Bytes) (entries : List (Told SyncEntry)) :
    Answered (.list path) worker.responses
      (worker.listEntries directory entries) := by
  have fails : ∀ packet, IsFail packet →
      answers.ends (.list path) (.packet packet) :=
    fun packet fails => ⟨packet, rfl, .inr fails⟩
  induction entries generalizing worker with
  | nil => exact answered_packet idle ⟨_, rfl, .inl rfl⟩
  | cons entry rest induction =>
      cases entry with
      | error error => exact answered_fail idle fails _
      | ok entry =>
          unfold listEntries
          cases entry.metadata with
          | error error => exact answered_fail idle fails _
          | ok stat =>
              dsimp only
              cases packet : syncDentPacket stat entry.name with
              | error fault =>
                  exact .failed rfl (List.append_nil _).symm (Stage.Part.nil _)
              | ok payload =>
                  exact answered_dent ⟨stat, entry.name, packet⟩
                    (@induction (worker.queuePacket payload) idle)

variable (fs : FileSystem σ)

/-- A call that is one request is answered at once. -/
theorem handleSyncRequest_answered (call : SyncCall) {worker : SyncWorker σ}
    (idle : worker.state = .idle) (single : ∀ push, call ≠ .send push) :
    Answered call worker.responses (worker.handleSyncRequest fs
      (syncId call.name) call.payload.bytes) := by
  cases call with
  | stat path =>
      change Answered _ worker.responses
        (worker.handleSyncRequest fs (syncId "STAT") path.bytes)
      rw [handleSyncRequest, if_pos rfl]
      exact @answered_packet _ (.stat path)
        { worker with files := (fs.metadata path.bytes worker.files).2 } idle _
        ⟨_, rfl, _, rfl⟩
  | list path =>
      change Answered _ worker.responses
        (worker.handleSyncRequest fs (syncId "LIST") path.bytes)
      rw [handleSyncRequest, if_neg (by decide), if_pos rfl]
      unfold handleList
      rcases fs.readDir path.bytes worker.files with ⟨error | entries, files⟩
      · exact @answered_fail _ (.list path) { worker with files := files } idle
          (fun packet fails => ⟨packet, rfl, .inr fails⟩) _
      · exact @listEntries_answered _ path { worker with files := files } idle
          _ _
  | recv path =>
      change Answered _ worker.responses
        (worker.handleSyncRequest fs (syncId "RECV") path.bytes)
      rw [handleSyncRequest, if_neg (by decide), if_neg (by decide), if_pos rfl]
      exact .whole rfl idle rfl ⟨[], _, rfl, List.forall_mem_nil _, rfl⟩
  | send push => exact absurd rfl (single push)

/-- A message that answers a call. -/
theorem Answered.perform {fs} {call : SyncCall} {worker : SyncWorker σ}
    {message : SyncMessage}
    (answered : Answered call worker.responses
      ((worker.log message).handleMessage fs message))
    (keeps : message.keepsBuffer = true) :
    ∃ new, (worker.perform fs message).2.responses = worker.responses ++ new ∧
      (((worker.perform fs message).1 = .ok true ∧
          (worker.perform fs message).2.state = .idle ∧
            answers.Whole call new) ∨
        ((∃ fault, (worker.perform fs message).1 = .error fault) ∧
          answers.Part call new)) := by
  simp only [SyncWorker.perform]
  cases answered with
  | whole outcome idle responses answer =>
      refine ⟨_, responses, .inl ⟨?_, idle, answer⟩⟩
      rw [outcome, keeps]
      rfl
  | @failed fault _ outcome responses part =>
      refine ⟨_, responses, .inr ⟨⟨fault, ?_⟩, part⟩⟩
      rw [outcome]
      rfl

/-! ## Pushes -/

section

variable {fs} {lookup : σ → Bytes → Option FileNode}

/-- The bytes of some data. -/
def joined (contents : List SyncContent) : Bytes :=
  contents.flatMap SyncContent.bytes

@[simp] theorem joined_concat (contents : List SyncContent)
    (content : SyncContent) :
    joined (contents ++ [content]) = joined contents ++ content.bytes := by
  simp [joined]

/-- The push is one of a directory. -/
def Directory (push : SyncPush) : Prop :=
  push.mode &&& SyncM.sIfmt = SyncM.sIfdir

/-- While nothing failed, the path of a regular file holds the data so far. -/
def Written (lookup : σ → Bytes → Option FileNode) (files : σ)
    (push : SyncPush) (written : List SyncContent) (send : SyncSend) : Prop :=
  send.path = push.path ∧ send.mode = push.mode ∧
    (send.failure = none → Directory push ∨
      send.file = true ∧ ∃ node, lookup files push.path = some node ∧
        node.content = joined written)

/-- A push whose OKAY is due has left its file. -/
def Pushed (lookup : σ → Bytes → Option FileNode) (files : σ)
    (push : SyncPush) : Prop :=
  Directory push ∨ lookup files push.path =
    some ⟨joined push.contents, push.mode &&& 0o7777, push.mtime.toNat⟩

theorem openSend_written (keeps : fs.KeepsFiles lookup) (push : SyncPush)
    (files : σ) :
    Written lookup (openSend fs push.path push.mode files).2 push []
      (openSend fs push.path push.mode files).1 := by
  unfold openSend
  by_cases directory : push.mode &&& SyncM.sIfmt = SyncM.sIfdir
  · rw [if_pos directory]
    exact ⟨rfl, rfl, fun _ => .inl directory⟩
  · rw [if_neg directory]
    split
    · exact ⟨rfl, rfl, nofun⟩
    · unfold createSyncFile
      rcases fs.createParent push.path files with ⟨error | done, files⟩
      · exact ⟨rfl, rfl, nofun⟩
      · dsimp only
        have created := keeps.create push.path files
        rcases made : fs.create push.path files with ⟨error | done, files⟩
        · exact ⟨rfl, rfl, nofun⟩
        · rw [made] at created
          exact ⟨rfl, rfl, fun _ => .inr ⟨rfl, created rfl⟩⟩

theorem handleSendData_written (keeps : fs.KeepsFiles lookup)
    {push : SyncPush} {written : List SyncContent} {send : SyncSend}
    {files : σ} (content : SyncContent)
    (holds : Written lookup files push written send) :
    Written lookup (handleSendData fs send content.bytes files).2 push
      (written ++ [content]) (handleSendData fs send content.bytes files).1 := by
  obtain ⟨path, mode, file⟩ := holds
  unfold handleSendData
  cases failed : send.failure with
  | some failure =>
      exact ⟨path, mode, fun fine => absurd (failed.symm.trans fine) nofun⟩
  | none =>
      rw [if_neg (by simp)]
      rcases file failed with directory | ⟨opened, node, found, content'⟩
      · -- a directory stays one, whatever its data
        split
        · split <;> exact ⟨path, mode, fun _ => .inl directory⟩
        · rcases fs.writeAll send.path content.bytes files with
            ⟨error | done, files⟩ <;>
          exact ⟨path, mode, fun _ => .inl directory⟩
      · rw [opened, if_neg (by simp)]
        have written := keeps.writeAll push.path content.bytes files node found
        rw [← path] at written
        rcases wrote : fs.writeAll send.path content.bytes files with
          ⟨error | done, files⟩
        · exact ⟨path, mode, nofun⟩
        · rw [wrote, path] at written
          obtain ⟨after, found, appended⟩ := written rfl
          refine ⟨path, mode, fun _ => .inr ⟨opened, after, found, ?_⟩⟩
          rw [appended, content', joined_concat]

/-- An operation that is attempted without a failure has been made. -/
theorem attempt_none {name : String} {path : Bytes}
    {operation : σ → Told Unit × σ} {tried : Option Text × σ}
    (fine : (attempt name path operation tried).1 = none) :
    tried.1 = none ∧ (operation tried.2).1 = .ok () ∧
      (attempt name path operation tried).2 = (operation tried.2).2 := by
  obtain ⟨failure, files⟩ := tried
  cases failure with
  | some failure => cases fine
  | none =>
      unfold attempt at fine ⊢
      dsimp only at fine ⊢
      rcases operated : operation files with ⟨error | done, files⟩
      · rw [operated] at fine
        cases fine
      · exact ⟨rfl, rfl, rfl⟩

/-- A push that is flushed without a failure has its data at its path. -/
private theorem flushed_none (keeps : fs.KeepsFiles lookup) {push : SyncPush}
    {written : List SyncContent} {send : SyncSend} {files : σ}
    (holds : Written lookup files push written send)
    (fine : (if send.file then
        ((SyncM.failureOf "flush" send.path (fs.flush send.path files).1).or
          send.failure, (fs.flush send.path files).2)
      else (send.failure, files)).1 = none) :
    Directory push ∨ ∃ node,
      lookup (if send.file then
          ((SyncM.failureOf "flush" send.path (fs.flush send.path files).1).or
            send.failure, (fs.flush send.path files).2)
        else (send.failure, files)).2 push.path = some node ∧
        node.content = joined written := by
  obtain ⟨path, mode, file⟩ := holds
  cases opened : send.file with
  | false =>
      rw [opened, if_neg (by simp)] at fine
      rcases file fine with directory | ⟨opened', _⟩
      · exact .inl directory
      · rw [opened] at opened'
        cases opened'
  | true =>
      rw [opened, if_pos rfl, Option.or_eq_none_iff] at fine
      rcases file fine.2 with directory | ⟨_, node, found, content⟩
      · exact .inl directory
      · have flushed := keeps.flush push.path files node found
        rw [← path] at flushed
        rw [if_pos rfl]
        rcases done : (fs.flush send.path files).1 with error | done
        · rw [done] at fine
          exact absurd fine.1 nofun
        · obtain ⟨after, found, same⟩ := flushed done
          rw [path] at found
          exact .inr ⟨after, path ▸ found, same.trans content⟩

theorem closeSend_pushed (keeps : fs.KeepsFiles lookup) {push : SyncPush}
    {send : SyncSend} {files : σ}
    (holds : Written lookup files push push.contents send)
    (fine : (closeSend fs send push.mtime.toNat files).1 = none) :
    Pushed lookup (closeSend fs send push.mtime.toNat files).2 push := by
  unfold closeSend at fine ⊢
  dsimp only at fine ⊢
  obtain ⟨fine, timed, last⟩ := attempt_none fine
  rw [last]
  obtain ⟨fine, moded, last⟩ := attempt_none fine
  rw [last] at timed ⊢
  rcases flushed_none keeps holds fine with directory | ⟨node, found, content⟩
  · exact .inl directory
  · obtain ⟨path, mode, _⟩ := holds
    rw [← path] at found
    have moded := keeps.setPermissions _ _ _ node found moded
    unfold setSyncMtime at timed ⊢
    split at timed
    · cases timed
    · rename_i whole
      rw [if_neg whole]
      have timed := keeps.utimens _ _ _ _ moded timed
      refine .inr ?_
      rw [← path, ← mode, ← content]
      exact timed

/-! ## Messages of calls -/

variable {worker : SyncWorker σ}

/-- The request of a push opens it. -/
theorem perform_send (keeps : fs.KeepsFiles lookup) (push : SyncPush) :
    ∃ send, (worker.perform fs
        (.request (syncId "SEND") push.target.bytes)).1 = .ok true ∧
      (worker.perform fs (.request (syncId "SEND") push.target.bytes)).2.state =
        .receiving send ∧
      (worker.perform fs
        (.request (syncId "SEND") push.target.bytes)).2.responses =
          worker.responses ∧
      Written lookup (worker.perform fs
        (.request (syncId "SEND") push.target.bytes)).2.files push [] send := by
  simp only [perform, handleMessage, handleSyncRequest_send, startSend,
    push.parsed]
  exact ⟨_, rfl, rfl, rfl, openSend_written keeps push worker.files⟩

theorem perform_data (keeps : fs.KeepsFiles lookup) {push : SyncPush}
    {written : List SyncContent} {send : SyncSend}
    (state : worker.state = .receiving send)
    (holds : Written lookup worker.files push written send)
    (content : SyncContent) :
    ∃ send, (worker.perform fs (.data content.bytes)).1 = .ok true ∧
      (worker.perform fs (.data content.bytes)).2.state = .receiving send ∧
      (worker.perform fs (.data content.bytes)).2.responses =
        worker.responses ∧
      Written lookup (worker.perform fs (.data content.bytes)).2.files push
        (written ++ [content]) send := by
  simp only [perform, handleMessage, handleData, log, state]
  exact ⟨_, rfl, rfl, rfl, handleSendData_written keeps content holds⟩

/-- The end of a push answers it. -/
theorem finishSend_answered (keeps : fs.KeepsFiles lookup) {push : SyncPush}
    {send : SyncSend} (holds : Written lookup worker.files push push.contents send) :
    Answered (.send push) worker.responses
        (worker.finishSend fs send push.mtime.toNat) ∧
      ((worker.finishSend fs send push.mtime.toNat).2.responses =
          worker.responses ++ [.packet (syncStatusPacket "OKAY" 0)] →
        Pushed lookup (worker.finishSend fs send push.mtime.toNat).2.files
          push) := by
  have pushed := @closeSend_pushed _ fs lookup keeps push send worker.files holds
  unfold finishSend
  rcases closed : closeSend fs send push.mtime.toNat worker.files with
    ⟨failure | failure, files⟩
  · rw [closed] at pushed
    exact ⟨@answered_packet _ (.send push) { worker with state := .idle, files }
      rfl _ ⟨_, rfl, .inl rfl⟩, fun _ => pushed rfl⟩
  · have answered := @answered_fail _ (.send push)
      { worker with state := .idle, files } rfl
      (fun packet fails => ⟨packet, rfl, .inr fails⟩) failure
    dsimp only
    rcases @queueFail_cases σ { worker with state := .idle, files } failure with
      ⟨packet, fails, result⟩ | ⟨fault, result⟩
    · refine ⟨answered, fun responses => ?_⟩
      rw [result] at responses
      have last := SyncResponse.packet.inj
        (List.singleton_inj.mp (List.append_cancel_left responses))
      rw [last] at fails
      exact absurd fails.id (by decide)
    · refine ⟨answered, fun responses => ?_⟩
      rw [result] at responses
      simp at responses

end

end SyncWorker

end Pocketboot.Adb
