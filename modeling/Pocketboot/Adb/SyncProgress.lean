import Pocketboot.Adb.SyncPushes

/-!
# Where a session is in its calls

What has arrived is a part of the bytes of some calls.  The session has
answered the first of them, and may be in the middle of a push.
-/

namespace Pocketboot.Adb

open SyncWorker (SyncContent frame doneFrame Answered Written Pushed joined)

@[simp] theorem encodeCalls_cons (call : SyncCall) (calls : List SyncCall) :
    encodeCalls (call :: calls) = frame call.name call.payload ++
      (call.remainder ++ encodeCalls calls) := by
  simp [encodeCalls, SyncCall.encode]

@[simp] theorem encodeCalls_append (front back : List SyncCall) :
    encodeCalls (front ++ back) = encodeCalls front ++ encodeCalls back :=
  List.flatMap_append

namespace SyncLink

variable {σ : Type}

/-- What is left of the calls for the session. -/
def unread (calls : List SyncCall) (link : SyncLink σ) : Bytes :=
  link.buffer ++ (encodeCalls calls).drop link.arrived.length

/-- Between two calls, or in a push after some of its data. -/
inductive Place (lookup : σ → Bytes → Option FileNode) (calls : List SyncCall)
    (link : SyncLink σ) (done : List SyncCall) : Prop
  | between {rest : List SyncCall} (split : calls = done ++ rest)
      (state : link.worker.state = .idle)
      (unread : link.unread calls = encodeCalls rest)
  | pushing {push : SyncPush} {rest : List SyncCall}
      {written left : List SyncContent} {send : SyncSend}
      (split : calls = done ++ .send push :: rest)
      (contents : push.contents = written ++ left)
      (state : link.worker.state = .receiving send)
      (unread : link.unread calls = push.tail left ++ encodeCalls rest)
      (holds : Written lookup link.worker.files push written send)

/-- The session answers the calls in order. -/
structure Follows (lookup : σ → Bytes → Option FileNode)
    (calls : List SyncCall) (link : SyncLink σ) : Prop where
  streams : answers.Streams calls link.worker.responses
  place : link.stream.hungUp = false →
    ∃ done, answers.Complete done link.worker.responses ∧
      link.Place lookup calls done

/-! ## Messages -/

/-- A message in the buffer is the next of what is left. -/
theorem nextMessage_unread {calls : List SyncCall} {link : SyncLink σ}
    {message : SyncMessage} {size : Nat}
    (next : link.worker.nextMessage link.buffer = some (message, size)) :
    link.worker.nextMessage (link.unread calls) = some (message, size) ∧
      (link.unread calls).drop size = link.buffer.drop size ++
        (encodeCalls calls).drop link.arrived.length := by
  obtain ⟨_, inside, found⟩ := SyncWorker.nextMessage_of_take next
  refine ⟨found _ ?_ (List.take_append_of_le_length inside),
    List.drop_append_of_le_length inside⟩
  rw [unread, List.length_append]
  omega

/-- Without a message, the buffer is shorter than the next one. -/
theorem length_lt_of_waits {worker : SyncWorker σ} {buffer later : Bytes}
    {message : SyncMessage} {size : Nat}
    (waits : worker.nextMessage buffer = none)
    (next : worker.nextMessage (buffer ++ later) = some (message, size)) :
    buffer.length < size := by
  by_contra long
  obtain ⟨_, _, found⟩ := SyncWorker.nextMessage_of_take next
  have same := found buffer (Nat.not_lt.mp long)
    (List.take_append_of_le_length (Nat.not_lt.mp long)).symm
  rw [waits] at same
  cases same

theorem nextMessage_call {worker : SyncWorker σ} (idle : worker.state = .idle)
    (call : SyncCall) (more : Bytes) :
    worker.nextMessage (frame call.name call.payload ++ more) =
      some (call.request, (frame call.name call.payload).length) := by
  rw [SyncWorker.nextMessage, idle]
  exact SyncWorker.nextIdleMessage_frame call.name_length call.payload more

theorem nextMessage_nil (worker : SyncWorker σ) :
    worker.nextMessage [] = none := by
  unfold SyncWorker.nextMessage
  split <;> rfl

/-- The next message of a push, and what is left behind it. -/
theorem nextMessage_tail {worker : SyncWorker σ} {send : SyncSend}
    (state : worker.state = .receiving send) (push : SyncPush)
    (left : List SyncContent) (more : Bytes) :
    ∃ message size rest,
      worker.nextMessage (push.tail left ++ more) = some (message, size) ∧
        (push.tail left ++ more).drop size = rest ∧
        size ≤ (push.tail left).length ∧
        ((left = [] ∧ message = .done push.mtime.toNat ∧ rest = more) ∨
          ∃ content later, left = content :: later ∧
            message = .data content.bytes ∧ rest = push.tail later ++ more) := by
  cases left with
  | nil =>
      have tail : push.tail [] = doneFrame push.mtime := rfl
      refine ⟨.done push.mtime.toNat, (doneFrame push.mtime).length, more, ?_, ?_,
        by rw [tail], .inl ⟨rfl, rfl, rfl⟩⟩
      · rw [SyncWorker.nextMessage, state, tail]
        exact SyncWorker.nextSendMessage_done push.mtime more
      · rw [tail, List.drop_left]
  | cons content later =>
      have tail : push.tail (content :: later) =
          frame "DATA" content ++ push.tail later := by
        simp [SyncPush.tail]
      refine ⟨.data content.bytes, (frame "DATA" content).length,
        push.tail later ++ more, ?_, ?_, ?_, .inr ⟨content, later, rfl, rfl, rfl⟩⟩
      · rw [SyncWorker.nextMessage, state, tail, List.append_assoc]
        exact SyncWorker.nextSendMessage_data content _
      · rw [tail, List.append_assoc, List.drop_left]
      · rw [tail, List.length_append]
        omega

/-! ## Steps of the session -/

section

variable {fs : FileSystem σ} {lookup : σ → Bytes → Option FileNode}
  {calls : List SyncCall} {link : SyncLink σ} {message : SyncMessage}
  {size : Nat}

theorem performed_ok (outcome : (link.worker.perform fs message).1 = .ok true) :
    (link.performed fs message size).buffer = link.buffer.drop size ∧
      (link.performed fs message size).stream.hungUp = link.stream.hungUp := by
  unfold performed
  dsimp only
  rw [outcome]
  exact ⟨rfl, rfl⟩

theorem performed_error {fault : Fault IoError}
    (outcome : (link.worker.perform fs message).1 = .error fault) :
    (link.performed fs message size).stream.hungUp = true := by
  unfold performed
  dsimp only
  rw [outcome]
  rfl

/-- An `OKAY` that is queued is that of a push which has left its file. -/
def OkayPushed (lookup : σ → Bytes → Option FileNode) (calls : List SyncCall)
    (link next : SyncLink σ) : Prop :=
  next.worker.responses =
      link.worker.responses ++ [.packet (syncStatusPacket "OKAY" 0)] →
    ∃ done push rest, calls = done ++ .send push :: rest ∧
      next.unread calls = encodeCalls rest ∧
        Pushed lookup next.worker.files push

/-- A message that answers the next call. -/
private theorem performed_answered {done rest : List SyncCall}
    {call : SyncCall} (split : calls = done ++ call :: rest)
    (complete : answers.Complete done link.worker.responses)
    (answered : Answered call link.worker.responses
      ((link.worker.log message).handleMessage fs message))
    (keeps : message.keepsBuffer = true)
    (left : link.buffer.drop size ++
      (encodeCalls calls).drop link.arrived.length = encodeCalls rest)
    (pushed : (link.worker.perform fs message).2.responses =
        link.worker.responses ++ [.packet (syncStatusPacket "OKAY" 0)] →
      ∀ push, call = .send push →
        Pushed lookup (link.worker.perform fs message).2.files push) :
    (link.performed fs message size).Follows lookup calls ∧
      OkayPushed lookup calls link (link.performed fs message size) := by
  obtain ⟨worker, _, _, _, _, arrived, _⟩ :=
    link.performed_frame fs message size
  obtain ⟨new, responses, ⟨outcome, idle, whole⟩ | ⟨⟨fault, outcome⟩, part⟩⟩ :=
    answered.perform keeps
  · obtain ⟨buffer, hungUp⟩ := @performed_ok _ fs link message size outcome
    have more := complete.append (.single whole)
    have unread : (link.performed fs message size).unread calls =
        encodeCalls rest := by
      rw [SyncLink.unread, buffer, arrived, left]
    have split' : calls = (done ++ [call]) ++ rest := by
      rw [split, List.append_assoc]
      rfl
    constructor
    · refine ⟨?_, fun _ => ⟨done ++ [call], ?_, .between split' ?_ unread⟩⟩
      · rw [worker, responses, split']
        have streams := more.streams (.nothing rest)
        rwa [List.append_nil] at streams
      · rwa [worker, responses]
      · rw [worker]
        exact idle
    · intro okay
      rw [worker] at okay
      have single := responses.symm.trans okay
      obtain rfl := List.append_cancel_left single
      obtain ⟨body, last, shape, _, ends⟩ := whole
      rw [← List.nil_append [SyncResponse.packet _]] at shape
      obtain ⟨rfl, same⟩ := List.append_inj' shape rfl
      rw [← List.singleton_inj.mp same] at ends
      obtain ⟨push, rfl⟩ := answers_okay.2 ends
      refine ⟨done, push, rest, split, unread, ?_⟩
      rw [worker]
      exact pushed okay push rfl
  · have hungUp := @performed_error _ fs link message size fault outcome
    refine ⟨⟨?_, fun opened => absurd (hungUp.symm.trans opened) nofun⟩, ?_⟩
    · rw [worker, responses, split]
      exact complete.streams (.within part)
    · intro okay
      rw [worker] at okay
      have single := responses.symm.trans okay
      obtain rfl := List.append_cancel_left single
      exact absurd (part _ List.mem_cons_self) answers_okay.1

/-- A message inside a push. -/
private theorem performed_inside {done rest : List SyncCall} {push : SyncPush}
    {written left : List SyncContent} {send : SyncSend}
    (split : calls = done ++ .send push :: rest)
    (complete : answers.Complete done link.worker.responses)
    (contents : push.contents = written ++ left)
    (outcome : (link.worker.perform fs message).1 = .ok true)
    (state : (link.worker.perform fs message).2.state = .receiving send)
    (responses : (link.worker.perform fs message).2.responses =
      link.worker.responses)
    (holds : Written lookup (link.worker.perform fs message).2.files push
      written send)
    (remains : link.buffer.drop size ++
      (encodeCalls calls).drop link.arrived.length =
        push.tail left ++ encodeCalls rest) :
    (link.performed fs message size).Follows lookup calls ∧
      OkayPushed lookup calls link (link.performed fs message size) := by
  obtain ⟨worker, _, _, _, _, arrived, _⟩ := link.performed_frame fs message size
  obtain ⟨buffer, _⟩ := @performed_ok _ fs link message size outcome
  rw [← worker] at state responses holds
  refine ⟨⟨?_, fun _ => ⟨done, ?_, .pushing split contents state ?_ holds⟩⟩, ?_⟩
  · rw [responses, split]
    have streams := complete.streams (.nothing (.send push :: rest))
    rwa [List.append_nil] at streams
  · rwa [responses]
  · rw [SyncLink.unread, buffer, arrived, remains]
  · intro okay
    rw [responses] at okay
    simp at okay

/-- The message of a call. -/
private theorem performed_between (keeps : fs.KeepsFiles lookup)
    {done rest : List SyncCall} {call : SyncCall}
    (split : calls = done ++ call :: rest)
    (complete : answers.Complete done link.worker.responses)
    (idle : link.worker.state = .idle)
    (remains : link.buffer.drop size ++
      (encodeCalls calls).drop link.arrived.length =
        call.remainder ++ encodeCalls rest) :
    (link.performed fs call.request size).Follows lookup calls ∧
      OkayPushed lookup calls link (link.performed fs call.request size) := by
  by_cases single : ∀ push, call ≠ .send push
  · have none : call.remainder = [] := by
      cases call with
      | send push => exact absurd rfl (single push)
      | _ => rfl
    rw [none, List.nil_append] at remains
    have answered := @SyncWorker.handleSyncRequest_answered _ fs call
      (link.worker.log call.request) idle single
    exact performed_answered split complete answered rfl remains
      (fun _ push same => absurd same (single push))
  · simp only [not_forall, not_not] at single
    obtain ⟨push, rfl⟩ := single
    obtain ⟨send, outcome, state, responses, holds⟩ :=
      @SyncWorker.perform_send _ fs lookup link.worker keeps push
    rw [SyncCall.request_send]
    exact performed_inside split complete (List.nil_append _).symm outcome state
      responses holds remains

/-- The end of a push. -/
private theorem performed_done (keeps : fs.KeepsFiles lookup)
    {done rest : List SyncCall} {push : SyncPush} {send : SyncSend}
    (split : calls = done ++ .send push :: rest)
    (complete : answers.Complete done link.worker.responses)
    (state : link.worker.state = .receiving send)
    (holds : Written lookup link.worker.files push push.contents send)
    (remains : link.buffer.drop size ++
      (encodeCalls calls).drop link.arrived.length = encodeCalls rest) :
    (link.performed fs (.done push.mtime.toNat) size).Follows lookup calls ∧
      OkayPushed lookup calls link
        (link.performed fs (.done push.mtime.toNat) size) := by
  have finish : (link.worker.log (.done push.mtime.toNat)).handleMessage fs
      (.done push.mtime.toNat) = (link.worker.log
        (.done push.mtime.toNat)).finishSend fs send push.mtime.toNat := by
    simp only [SyncWorker.handleMessage, SyncWorker.handleDone, SyncWorker.log,
      state]
  obtain ⟨answered, pushed⟩ := @SyncWorker.finishSend_answered _ fs lookup
    (link.worker.log (.done push.mtime.toNat)) keeps push send holds
  rw [← finish] at answered pushed
  refine performed_answered split complete answered rfl remains ?_
  intro okay other same
  obtain rfl := SyncCall.send.inj same
  exact pushed okay

/-- The next message, and what the session makes of it. -/
theorem performed_follows (keeps : fs.KeepsFiles lookup)
    (follows : link.Follows lookup calls)
    (opened : link.stream.hungUp = false)
    (next : link.worker.nextMessage link.buffer = some (message, size)) :
    (link.performed fs message size).Follows lookup calls ∧
      OkayPushed lookup calls link (link.performed fs message size) := by
  obtain ⟨done, complete, place⟩ := follows.place opened
  obtain ⟨next, remains⟩ := @nextMessage_unread _ calls link _ _ next
  cases place with
  | @between rest split idle unread =>
      cases rest with
      | nil =>
          rw [unread, show encodeCalls [] = [] from rfl, nextMessage_nil] at next
          cases next
      | cons call rest =>
          rw [unread, encodeCalls_cons, nextMessage_call idle] at next
          obtain ⟨rfl, rfl⟩ := Prod.mk.inj (Option.some.inj next)
          rw [unread, encodeCalls_cons, List.drop_left] at remains
          exact performed_between keeps split complete idle remains.symm
  | @pushing push rest written left send split contents state unread holds =>
      obtain ⟨message', size', behind, found, dropped, _, message_cases⟩ :=
        nextMessage_tail state push left (encodeCalls rest)
      rw [unread, found] at next
      obtain ⟨rfl, rfl⟩ := Prod.mk.inj (Option.some.inj next)
      rw [unread, dropped] at remains
      rcases message_cases with ⟨rfl, rfl, rfl⟩ | ⟨content, later, rfl, rfl, rfl⟩
      · rw [List.append_nil] at contents
        subst contents
        exact performed_done keeps split complete state holds remains.symm
      · obtain ⟨send, outcome, state, responses, holds⟩ :=
          @SyncWorker.perform_data _ fs lookup link.worker keeps push written
            send state holds content
        rw [List.append_cons] at contents
        exact performed_inside split complete contents outcome state responses
          holds remains.symm

/-! ## Steps of the link -/

/-- The parts of a link that the session reads are the same, but for the
state of the file system that does not show in its files. -/
structure SameSession (lookup : σ → Bytes → Option FileNode)
    (link next : SyncLink σ) : Prop where
  buffer : next.buffer = link.buffer
  arrived : next.arrived = link.arrived
  state : next.worker.state = link.worker.state
  responses : next.worker.responses = link.worker.responses
  files : lookup next.worker.files = lookup link.worker.files

theorem Follows.congr {next : SyncLink σ} (follows : link.Follows lookup calls)
    (same : SameSession lookup link next)
    (hungUp : next.stream.hungUp = false → link.stream.hungUp = false) :
    next.Follows lookup calls := by
  refine ⟨same.responses ▸ follows.streams, fun opened => ?_⟩
  obtain ⟨done, complete, place⟩ := follows.place (hungUp opened)
  refine ⟨done, same.responses ▸ complete, ?_⟩
  have unread : next.unread calls = link.unread calls := by
    rw [SyncLink.unread, SyncLink.unread, same.buffer, same.arrived]
  cases place with
  | between split idle remains =>
      exact .between split (same.state.trans idle) (unread.trans remains)
  | pushing split contents state remains holds =>
      refine .pushing split contents (same.state.trans state)
        (unread.trans remains) ⟨holds.1, holds.2.1, fun fine => ?_⟩
      rw [same.files]
      exact holds.2.2 fine

theorem receive_session (keeps : fs.KeepsFiles lookup) {maxPayload : UInt32}
    {next : SyncLink σ} (received : link.receive fs maxPayload = some next) :
    SameSession lookup link next ∧ next.stream.hungUp = link.stream.hungUp := by
  unfold receive at received
  cases channel : link.stream.channel with
  | nil =>
      simp only [channel, Stream.receive, Option.map_eq_some_iff] at received
      obtain ⟨stream, ended, rfl⟩ := received
      split at ended
      · obtain rfl := Option.some.inj ended
        exact ⟨⟨rfl, rfl, rfl, rfl, rfl⟩, rfl⟩
      · cases ended
  | cons response rest =>
      cases response with
      | packet payload =>
          simp only [channel, Stream.receive, Option.map_some,
            Option.some.injEq] at received
          obtain rfl := received
          exact ⟨⟨rfl, rfl, rfl, rfl, rfl⟩, rfl⟩
      | file path =>
          have files := keeps.openRead path link.worker.files
          rcases opens : fs.openRead path link.worker.files with
            ⟨error | done, files'⟩ <;>
          · rw [opens] at files
            simp only [channel, opens, Stream.receive, Option.map_some,
              Option.some.injEq] at received
            obtain rfl := received
            exact ⟨⟨rfl, rfl, rfl, rfl, files⟩, rfl⟩

theorem stepOutput_session (keeps : fs.KeepsFiles lookup)
    {maxPayload : UInt32} {next : SyncLink σ} {result : SendResult}
    (steps : link.stepOutput fs maxPayload result = some next) :
    SameSession lookup link next ∧ next.stream.hungUp = link.stream.hungUp := by
  unfold stepOutput at steps
  cases output : link.stream.output with
  | receive =>
      rw [output] at steps
      exact receive_session keeps steps
  | readFile path size =>
      rw [output] at steps
      obtain rfl := Option.some.inj steps
      obtain ⟨after, stream⟩ := link.stream.readFile_eq_setOutput path size
        ⟨(fs.read path link.offset size link.worker.files).1, .ok (), .sent⟩
      refine ⟨⟨rfl, rfl, rfl, rfl, keeps.read path link.offset size _⟩, ?_⟩
      change (link.stream.readFile path size _).hungUp = _
      rw [stream]
      rfl
  | awaitCreditFor payload after =>
      rw [output] at steps
      obtain ⟨stream, credit, rfl⟩ := Option.map_eq_some_iff.mp steps
      rcases Stream.takeCredit_cases credit with ⟨_, rfl⟩ | ⟨_, rfl⟩ <;>
        exact ⟨⟨rfl, rfl, rfl, rfl, rfl⟩, rfl⟩
  | sendFor payload after =>
      rw [output] at steps
      obtain rfl := Option.some.inj steps
      unfold send
      split <;> exact ⟨⟨rfl, rfl, rfl, rfl, rfl⟩, rfl⟩
  | _ => simp [output] at steps

/-- What arrives was left of the calls. -/
private theorem arrive_follows {next : SyncLink σ} {payload : Bytes}
    (follows : link.Follows lookup calls)
    (part : next.arrived <+: encodeCalls calls)
    (arrives : link.arrive payload = some next) :
    next.Follows lookup calls := by
  unfold arrive at arrives
  split at arrives
  · cases arrives
  · obtain rfl := Option.some.inj arrives
    refine ⟨follows.streams, fun opened => ?_⟩
    obtain ⟨done, complete, place⟩ := follows.place opened
    obtain ⟨later, whole⟩ := part
    have unread : (link.buffer ++ payload) ++ (encodeCalls calls).drop
        (link.arrived ++ payload).length = link.unread calls := by
      rw [SyncLink.unread, ← whole, List.drop_left, List.append_assoc,
        List.append_assoc, List.drop_left]
    refine ⟨done, complete, ?_⟩
    cases place with
    | between split idle remains =>
        exact .between split idle (unread.trans remains)
    | pushing split contents state remains holds =>
        exact .pushing split contents state (unread.trans remains) holds

/-- While the bytes of calls arrive, the session answers them. -/
theorem follows (keeps : fs.KeepsFiles lookup) (maxPayload : UInt32)
    (files : σ) (calls : List SyncCall) :
    (syncLink fs maxPayload files).Inductive fun link =>
      link.arrived <+: encodeCalls calls → link.Follows lookup calls where
  initially := fun _ => ⟨.nothing calls, fun _ => ⟨[], .nil, .between rfl rfl rfl⟩⟩
  kept := by
    intro link next action holds steps part
    cases action with
    | arrive payload =>
        have before : link.arrived <+: next.arrived := by
          change link.arrive payload = some next at steps
          unfold arrive at steps
          split at steps
          · cases steps
          · obtain rfl := Option.some.inj steps
            exact List.prefix_append _ _
        exact arrive_follows (holds (before.trans part)) part steps
    | handle =>
        obtain ⟨opened, message, size, found, rfl | rfl⟩ := handle_cases steps
        · have streams := (holds part).streams
          exact ⟨streams, fun opened => absurd opened (by simp [unheard, Stream.close])⟩
        · obtain ⟨_, _, _, _, _, arrived, _⟩ := link.performed_frame fs message size
          rw [arrived] at part
          exact (performed_follows keeps (holds part) opened found).1
    | output result =>
        obtain ⟨same, hungUp⟩ := stepOutput_session keeps steps
        exact (holds (same.arrived ▸ part)).congr same hungUp.symm.trans
    | okay =>
        obtain rfl := Option.some.inj steps
        exact (holds part).congr ⟨rfl, rfl, rfl, rfl, rfl⟩ id
    | close =>
        obtain rfl := Option.some.inj steps
        exact (holds part).congr ⟨rfl, rfl, rfl, rfl, rfl⟩ nofun

end

end SyncLink

end Pocketboot.Adb
