import Pocketboot.Adb.SyncFits
import Pocketboot.Adb.SyncPull

/-!
# Push and pull carry files

A sync stream to which whole calls are sent, in payloads cut anywhere, over
files that are kept by path.  Replies come in the order of the calls, each with
one packet that ends it, and none is missing when nothing is left to do; a push
that is answered with `OKAY` has left its file; a pull that ends in `DONE` has
sent the whole file.
-/

namespace Pocketboot.Adb

open SyncWorker (SyncContent frame Pushed joined Directory)

/-- A reply of packets that do not end it and one that does. -/
def IsReply (call : SyncCall) (run : List Bytes) : Prop :=
  ∃ body last, run = body ++ [last] ∧
    (∀ packet ∈ body,
      replies.continues call packet ∧ ¬ replies.ends call packet) ∧
        replies.ends call last

theorem isReply_of_whole {call : SyncCall} {run : List Bytes}
    (whole : replies.Whole call run) : IsReply call run := by
  obtain ⟨body, last, split, continues, ends⟩ := whole
  exact ⟨body, last, split, fun packet member =>
    ⟨continues packet member, replies_continues_ne (continues packet member)⟩,
      ends⟩

namespace SyncLink

variable {σ : Type}

/-- The first calls are answered, in order, and the reply of at most one more
is under way. -/
def RepliesInOrder (calls : List SyncCall) (link : SyncLink σ) : Prop :=
  ∃ runs part, link.sent = runs.flatten ++ part ∧
    List.Forall₂ IsReply (calls.take runs.length) runs ∧
      (part = [] ∨ ∃ call, calls[runs.length]? = some call ∧
        ∀ packet ∈ part,
          replies.continues call packet ∧ ¬ replies.ends call packet)

/-- All calls that have arrived as a whole are answered, and nothing else. -/
def AllAnswered (calls : List SyncCall) (link : SyncLink σ) : Prop :=
  ∃ done rest runs, calls = done ++ rest ∧ link.sent = runs.flatten ∧
    List.Forall₂ IsReply done runs ∧ encodeCalls done <+: link.arrived ∧
      ∀ call more, rest = call :: more →
        link.arrived.length < (encodeCalls (done ++ [call])).length

section

variable (fs : FileSystem σ) (lookup : σ → Bytes → Option FileNode)
  (maxPayload : UInt32) (files : σ) (calls : List SyncCall) (link : SyncLink σ)

/-- Neither the session nor the thread has anything to do, even if the host
acknowledges. -/
def Resting : Prop :=
  link.handle fs = none ∧ ∀ result,
    (link.setStream link.stream.acknowledgeOutput).stepOutput fs maxPayload
      result = none

structure Transfers : Prop where
  inOrder : RepliesInOrder calls link
  answered : link.stream.flow.closed = false → link.lost = false →
    Resting fs maxPayload link → AllAnswered calls link
  /-- At an `OKAY` of a push its file is there. -/
  pushed : ∀ next, link.handle fs = some next →
    next.worker.responses =
        link.worker.responses ++ [.packet (syncStatusPacket "OKAY" 0)] →
      ∃ done push rest, calls = done ++ .send push :: rest ∧
        next.arrived = encodeCalls (done ++ [.send push]) ++ next.buffer ∧
          (¬ Directory push → lookup next.worker.files push.path =
            some ⟨joined push.contents, push.mode &&& 0o7777,
              push.mtime.toNat⟩)
  /-- From the time when a pull is about to be taken until its reply is over,
  if its file stays the same. -/
  pulled : ∀ path content rest schedule next,
    link.stream.output = .receive →
    link.stream.channel = .file path :: rest →
    (steady fs lookup maxPayload files path content).runFrom link schedule =
      some next →
    next.taken = link.taken ++ [.file path] →
    next.stream.output = .receive →
      ∃ chunks body last, next.sent = link.sent ++ (body ++ [last]) ∧
        DataPackets chunks body ∧
          (last = syncStatusPacket "DONE" 0 → chunks.flatten = content)

end

section

variable {fs : FileSystem σ} {lookup : σ → Bytes → Option FileNode}
  {maxPayload : UInt32} {calls : List SyncCall} {link : SyncLink σ}

theorem repliesInOrder_of_streams (streams : replies.Streams calls link.sent) :
    RepliesInOrder calls link := by
  obtain ⟨runs, part, sent, wholes, inside⟩ := streams.exists_runs
  refine ⟨runs, part, sent, wholes.imp fun _ _ => isReply_of_whole,
    inside.imp_right ?_⟩
  rintro ⟨call, found, continues⟩
  exact ⟨call, found, fun packet member =>
    ⟨continues packet member, replies_continues_ne (continues packet member)⟩⟩

/-- The replies are streamed while the session follows the calls. -/
theorem replies_streams (served : link.Served)
    (follows : link.Follows lookup calls) :
    replies.Streams calls link.sent := by
  have streams := served.delivers.streams.more link.stream.channel
  rw [← served.queued] at streams
  exact follows.streams.through answers_through streams

/-- A payload that waits for credit goes on when the host acknowledges. -/
private theorem takeCredit_acknowledged (stream : Stream) (granted : Output) :
    stream.acknowledgeOutput.takeCredit granted ≠ none := by
  unfold Stream.takeCredit OutputFlow.waitForWriteCredit
  cases closed : stream.flow.closed <;>
    simp [Stream.acknowledgeOutput, OutputFlow.allowOneWrite, closed]

/-- A thread that rests has delivered everything. -/
private theorem resting_complete (served : link.Served)
    (fits : RepliesFit maxPayload link)
    (opened : link.stream.flow.closed = false) (found : link.lost = false)
    (resting : Resting fs maxPayload link) :
    deliveries.Complete link.worker.responses link.sent := by
  have rests := resting.2 .sent
  unfold stepOutput at rests
  cases served.delivers with
  | waits output complete =>
      have queued := served.queued
      cases channel : link.stream.channel with
      | nil =>
          rw [channel, List.append_nil] at queued
          rwa [queued]
      | cons response rest =>
          simp only [setStream, Stream.acknowledgeOutput, output, receive,
            channel] at rests
          cases response with
          | packet payload => simp [Stream.receive] at rests
          | file path =>
              rcases opens : fs.openRead path link.worker.files with
                ⟨error | done, files⟩ <;>
              simp [Stream.receive, opens] at rests
  | pulls output =>
      simp [setStream, Stream.acknowledgeOutput, output] at rests
  | carries output =>
      rcases output with waits | sends
      · simp only [setStream, Stream.acknowledgeOutput, waits,
          Option.map_eq_none_iff] at rests
        exact absurd rests (takeCredit_acknowledged link.stream _)
      · simp [setStream, Stream.acknowledgeOutput, sends] at rests
  | stopped output =>
      rcases fits.2 output with closed | lost
      · rw [opened] at closed
        cases closed
      · rw [found] at lost
        cases lost

/-- The bytes of the calls that arrived, before those in the buffer. -/
private theorem arrived_eq {front : Bytes}
    (part : link.arrived <+: encodeCalls calls)
    (whole : encodeCalls calls = front ++ link.unread calls) :
    link.arrived = front ++ link.buffer := by
  obtain ⟨later, arrived⟩ := part
  have same : link.arrived ++ later = (front ++ link.buffer) ++ later := by
    rw [arrived, whole, unread, ← arrived, List.drop_left, List.append_assoc]
  exact List.append_cancel_right same

/-- The calls that were answered have arrived, and the next one has not. -/
private theorem arrived_between {done rest : List SyncCall}
    (place : link.Place lookup calls done)
    (waits : link.worker.nextMessage link.buffer = none)
    (part : link.arrived <+: encodeCalls calls)
    (split : calls = done ++ rest) :
    encodeCalls done <+: link.arrived ∧ ∀ call more, rest = call :: more →
      link.arrived.length < (encodeCalls (done ++ [call])).length := by
  have single : ∀ call : SyncCall, (encodeCalls [call]).length =
      (frame call.name call.payload).length + call.remainder.length := by
    simp [encodeCalls, SyncCall.encode]
  cases place with
  | @between rest' split' idle unread =>
      obtain rfl := List.append_cancel_left (split.symm.trans split')
      have arrived : link.arrived = encodeCalls done ++ link.buffer :=
        arrived_eq part (by rw [unread, split, encodeCalls_append])
      refine ⟨arrived ▸ List.prefix_append _ _, ?_⟩
      rintro call more rfl
      rw [encodeCalls_cons] at unread
      have next := nextMessage_call idle call (call.remainder ++ encodeCalls more)
      rw [← unread] at next
      have short := length_lt_of_waits waits next
      rw [arrived, encodeCalls_append, List.length_append, List.length_append,
        single]
      omega
  | @pushing push rest' written left send split' contents state unread holds =>
      obtain rfl := List.append_cancel_left (split.symm.trans split')
      have tail : push.tail push.contents =
          written.flatMap (frame "DATA") ++ push.tail left := by
        rw [contents, SyncPush.tail, SyncPush.tail, List.flatMap_append,
          List.append_assoc]
      have remainder : (SyncCall.send push).remainder =
          push.tail push.contents := rfl
      have arrived : link.arrived = (encodeCalls done ++
          (frame "SEND" push.target ++ written.flatMap (frame "DATA"))) ++
            link.buffer := by
        refine arrived_eq part ?_
        rw [unread, split, encodeCalls_append, encodeCalls_cons, remainder, tail]
        simp only [SyncCall.name, SyncCall.payload, List.append_assoc]
      refine ⟨?_, ?_⟩
      · rw [arrived, List.append_assoc]
        exact List.prefix_append _ _
      · rintro call more same
        obtain ⟨rfl, rfl⟩ := List.cons.inj same
        obtain ⟨message, size, rest, next, _, inside, _⟩ :=
          nextMessage_tail state push left (encodeCalls rest')
        rw [← unread] at next
        have short := length_lt_of_waits waits next
        rw [arrived, encodeCalls_append, List.length_append, List.length_append,
          List.length_append, List.length_append, single, remainder, tail,
          List.length_append]
        simp only [SyncCall.name, SyncCall.payload]
        omega

theorem allAnswered (served : link.Served) (follows : link.Follows lookup calls)
    (fits : RepliesFit maxPayload link) (hungUp : link.stream.hungUp = false)
    (opened : link.stream.flow.closed = false) (found : link.lost = false)
    (part : link.arrived <+: encodeCalls calls)
    (resting : Resting fs maxPayload link) : AllAnswered calls link := by
  obtain ⟨done, answered, place⟩ := follows.place hungUp
  have delivered := resting_complete served fits opened found resting
  obtain ⟨runs, sent, wholes⟩ :=
    (answered.through answers_through delivered).exists_runs
  have waits : link.worker.nextMessage link.buffer = none := by
    have idle := resting.1
    unfold handle at idle
    rw [if_neg (by simp [hungUp])] at idle
    cases next : link.worker.nextMessage link.buffer with
    | none => rfl
    | some found =>
        rw [next] at idle
        dsimp only at idle
        split at idle <;> cases idle
  have split : ∃ rest, calls = done ++ rest := by
    cases place with
    | between split => exact ⟨_, split⟩
    | pushing split => exact ⟨_, split⟩
  obtain ⟨rest, split⟩ := split
  obtain ⟨arrived, short⟩ := arrived_between place waits part split
  exact ⟨done, rest, runs, split, sent,
    wholes.imp fun _ _ => isReply_of_whole, arrived, short⟩

/-- A sync stream carries files: over every run whose replies fit and whose
bytes are those of some calls. -/
theorem syncLink_transfers (keeps : fs.KeepsFiles lookup)
    (low : 4096 ≤ maxPayload.toNat) {files : σ}
    (reached : (tellable fs maxPayload files).Reachable link)
    (part : link.arrived <+: encodeCalls calls) :
    Transfers fs lookup maxPayload files calls link := by
  have served := ((served fs maxPayload files).restrict _).reachable reached
  have follows := ((follows keeps maxPayload files calls).restrict _).reachable
    reached part
  have fits := (tellable_linkFits low files).reachable reached
  refine ⟨repliesInOrder_of_streams (replies_streams served follows), ?_, ?_, ?_⟩
  · intro opened found resting
    have hungUp : link.stream.hungUp = false := by
      by_contra hung
      have closed := fits.hungUp (by simpa using hung)
      rw [opened] at closed
      cases closed
    exact allAnswered served follows fits.replies hungUp opened found part resting
  · intro next handled okay
    obtain ⟨opened, message, size, found, rfl | rfl⟩ := handle_cases handled
    · simp [unheard] at okay
    · obtain ⟨done, push, rest, split, unread, pushed⟩ :=
        (performed_follows keeps follows opened found).2 okay
      obtain ⟨_, _, _, _, _, arrived, _⟩ := link.performed_frame fs message size
      refine ⟨done, push, rest, split, arrived_eq (arrived ▸ part) ?_,
        pushed.resolve_left⟩
      rw [unread, ← encodeCalls_append, split, List.append_assoc]
      rfl
  · intro path content rest schedule next waits channel runs taken ended
    exact steady_pulls keeps files waits channel runs taken ended

end

end SyncLink

/-! ## Files in memory -/

/-- A change of the node at a path. -/
def changeNode (path : Bytes) (change : FileNode → FileNode)
    (files : Bytes → Option FileNode) : Told Unit × (Bytes → Option FileNode) :=
  (.ok (), Function.update files path ((files path).map change))

/-- Files that are a table by path. -/
def memoryFiles : FileSystem (Bytes → Option FileNode) where
  metadata path files :=
    ((files path).map fun node => ⟨node.mode, node.content.length, node.mtime⟩,
      files)
  readDir _ files := (.ok [], files)
  createDirAll _ files := (.ok (), files)
  createParent _ files := (.ok (), files)
  create path files :=
    (.ok (), Function.update files path (some ⟨[], 0o644, 0⟩))
  writeAll path data :=
    changeNode path fun node => { node with content := node.content ++ data }
  flush _ files := (.ok (), files)
  setPermissions path mode := changeNode path fun node => { node with mode }
  utimens path mtime := changeNode path fun node => { node with mtime }
  openRead path files :=
    (if (files path).isSome then .ok ()
      else .error "No such file or directory (os error 2)".toList, files)
  read path offset size files :=
    (.ok ((((files path).map FileNode.content).getD []).drop offset |>.take size),
      files)

theorem memoryFiles_keepsFiles : memoryFiles.KeepsFiles id where
  create path files _ := ⟨_, Function.update_self .., rfl⟩
  writeAll path data files node found _ := by
    refine ⟨{ node with content := node.content ++ data }, ?_, rfl⟩
    simp only [memoryFiles, changeNode, id, Function.update_self]
    exact congrArg (Option.map _) found
  flush path files node found _ := ⟨node, found, rfl⟩
  setPermissions path mode files node found _ := by
    simp only [memoryFiles, changeNode, id, Function.update_self]
    exact congrArg (Option.map _) found
  utimens path mtime files node found _ := by
    simp only [memoryFiles, changeNode, id, Function.update_self]
    exact congrArg (Option.map _) found
  openRead _ _ := rfl
  read _ _ _ _ := rfl
  reads path offset size files node chunk found read := by
    obtain rfl := Except.ok.inj read
    rw [show files path = some node from found]
    refine ⟨List.take_prefix _ _, fun positive empty => ?_⟩
    rcases List.take_eq_nil_iff.mp empty with zero | none
    · omega
    · exact List.drop_eq_nil_iff.mp none

private theorem smallTarget_length :
    (Text.utf8 "a,33188".toList).length < 2 ^ 32 := by
  decide

private theorem smallTarget_parsed :
    parseSendTarget (Text.utf8 "a,33188".toList) = .ok ([97], 33188) := by
  decide +kernel

private theorem smallContent_length :
    ([1, 2, 3] : Bytes).length < 2 ^ 32 := by
  decide

/-- A push of three bytes to `a`. -/
def smallPush : SyncPush where
  target := ⟨Text.utf8 "a,33188".toList, smallTarget_length⟩
  path := [97]
  mode := 33188
  parsed := smallTarget_parsed
  contents := [⟨[1, 2, 3], smallContent_length⟩]
  mtime := 7

/-- The push comes in two payloads, and its answer is sent. -/
def smallTransfer : List SyncAction :=
  [.arrive ((encodeCalls [.send smallPush]).take 20), .handle,
    .arrive ((encodeCalls [.send smallPush]).drop 20), .handle, .handle,
    .output .sent, .output .sent, .output .sent]

theorem syncLink_transfers_small :
    ∃ link, (tellable memoryFiles 4096 fun _ => none).runFrom
        (.opened fun _ => none) smallTransfer = some link ∧
      link.sent = [syncStatusPacket "OKAY" 0] ∧
      SyncLink.Transfers memoryFiles id 4096 (fun _ => none) [.send smallPush]
        link := by
  exact ⟨_, rfl, rfl, SyncLink.syncLink_transfers memoryFiles_keepsFiles
    (by decide) ⟨smallTransfer, rfl⟩ ⟨[], rfl⟩⟩

end Pocketboot.Adb
