import Pocketboot.Adb.Steps
import Pocketboot.Adb.SyncFraming
import Pocketboot.Adb.SyncLink
import Pocketboot.Base.Utf8

/-!
# Sync replies and the payload limit

The replies of a sync stream are bounded by their own formats, but for the
text of a failure, which holds the path of the request.  Where no failure
makes a text that is too long, no reply is rejected and the output thread does
not stop while its stream is open.
-/

namespace Pocketboot.Adb

/-- The packet of a failure is within the limit. -/
def fits (limit : Nat) (message : Text) : Bool :=
  8 + message.utf8.length ≤ limit

/-- The failure of an operation on a path can be told. -/
def toldFits {α : Type} (limit : Nat) (operation : String) (path : Bytes) :
    Told α → Bool
  | .error error => fits limit (SyncM.about operation path error)
  | .ok _ => true

/-- A listing, up to its first failure. -/
def entriesFit (limit : Nat) (path : Bytes) : List (Told SyncEntry) → Bool
  | [] => true
  | .error error :: _ => fits limit (SyncM.about "list" path error)
  | .ok entry :: rest =>
      match entry.metadata with
      | .error error =>
          fits limit
            (SyncM.about "stat" (SyncM.entryPath path entry.name) error)
      | .ok _ => 20 + entry.name.length ≤ limit && entriesFit limit path rest

section

variable {σ : Type} (fs : FileSystem σ)

/-- What a message makes the session tell is within the limit. -/
def messageFits (limit : Nat) (worker : SyncWorker σ) : SyncMessage → Bool
  | .request id path =>
      if id = syncId "LIST" then
        match (fs.readDir path worker.files).1 with
        | .error error => fits limit (SyncM.about "list" path error)
        | .ok entries => entriesFit limit path entries
      else true
  | .done mtime =>
      match worker.state with
      | .idle => true
      | .receiving send =>
          (SyncWorker.closeSend fs send mtime worker.files).1.all (fits limit)
  | _ => true

/-- What a step makes the device tell is within the limit. -/
def actionFits (limit : Nat) (link : SyncLink σ) : SyncAction → Bool
  | .handle =>
      (link.worker.nextMessage link.buffer).all fun (message, _) =>
        messageFits fs limit link.worker message
  | .output _ =>
      match link.stream.output, link.stream.channel with
      | .receive, .file path :: _ =>
          toldFits limit "open" path (fs.openRead path link.worker.files).1
      | .readFile path size, _ =>
          toldFits limit "read" path
            (fs.read path link.offset size link.worker.files).1
      | _, _ => true
  | _ => true

end

/-! ## Lengths of replies -/

/-- The packets among the responses are within the limit. -/
def Within (limit : Nat) (responses : List SyncResponse) : Prop :=
  ∀ payload, .packet payload ∈ responses → payload.length ≤ limit

/-- The packet of a counted content, and its length. -/
theorem syncCounted_fits {id tooLong : String} {front content : Bytes}
    (letters : (syncId id).length = 4) (short : content.length < 2 ^ 32) :
    ∃ payload, syncCounted id tooLong front content = .ok payload ∧
      payload.length = 8 + front.length + content.length := by
  refine ⟨syncId id ++ front ++ le32 content.length ++ content, ?_, ?_⟩
  · rw [syncCounted, Run.ensure_of short]
    rfl
  · simp only [List.length_append, letters, le32, Bytes.toLe_length]
    omega

theorem syncFailPacket_fits {limit : Nat} {message : Text}
    (small : limit < 2 ^ 32) (short : fits limit message) :
    ∃ payload, syncFailPacket message = .ok payload ∧
      payload.length ≤ limit := by
  have bound : 8 + message.utf8.length ≤ limit := by simpa [fits] using short
  obtain ⟨payload, packet, length⟩ := @syncCounted_fits "FAIL"
    "sync failure message too long" [] message.utf8 (by decide) (by omega)
  exact ⟨payload, packet, by simpa [length] using bound⟩

theorem syncStatPacket_length (stat : SyncStat) :
    (syncStatPacket stat).length = 16 := by
  have four : (syncId "STAT").length = 4 := by decide
  simp only [syncStatPacket, List.length_append, four, le32, Bytes.toLe_length]

theorem Within.concat {limit : Nat} {responses : List SyncResponse}
    (within : Within limit responses) {payload : Bytes}
    (short : payload.length ≤ limit) :
    Within limit (responses ++ [.packet payload]) := by
  intro other member
  rcases List.mem_append.mp member with early | new
  · exact within other early
  · obtain ⟨⟩ := List.mem_singleton.mp new
    exact short

namespace SyncWorker

variable {σ : Type} {limit : Nat} {worker : SyncWorker σ}

/-- The handler succeeds, and the responses stay within the limit. -/
def StaysWithin (limit : Nat) (result : Run IoError Unit × SyncWorker σ) :
    Prop :=
  result.1 = .ok () ∧ Within limit result.2.responses

theorem queueFail_within (small : limit < 2 ^ 32)
    (within : Within limit worker.responses) {message : Text}
    (short : fits limit message) :
    StaysWithin limit (worker.queueFail message) := by
  obtain ⟨payload, packet, bound⟩ := syncFailPacket_fits small short
  rw [queueFail, packet]
  exact ⟨rfl, within.concat bound⟩

/-- A text with some bytes in it that are not the host's to choose. -/
theorem fits_lossy {text : String} {id : Bytes} (header : id.length ≤ 4)
    (words : (Text.utf8 text.toList).length ≤ 64) (low : 4096 ≤ limit) :
    fits limit (text.toList ++ Text.ofUtf8Lossy id) := by
  have lossy := Text.ofUtf8Lossy_utf8_length id
  simp only [fits, decide_eq_true_eq, Text.utf8_append, List.length_append]
  omega

private theorem parseIntError_length (high : Nat) (digits : Text) :
    (parseIntError high digits).utf8.length ≤ 64 := by
  induction digits generalizing high with
  | nil =>
      unfold parseIntError
      decide
  | cons letter rest induction =>
      unfold parseIntError
      split
      · decide
      · split
        · decide
        · exact induction _

private theorem parseSendTarget_error {payload : Bytes} {error : Text}
    (unparsed : parseSendTarget payload = .error error) (low : 4096 ≤ limit) :
    fits limit error := by
  have short : error.utf8.length ≤ 128 := by
    unfold parseSendTarget at unparsed
    dsimp only at unparsed
    split at unparsed
    · cases unparsed
      decide
    · split at unparsed
      · cases unparsed
        decide
      · split at unparsed
        · cases unparsed
        · cases unparsed
          have front : (Text.utf8 "SEND mode: ".toList).length ≤ 64 := by decide
          rw [Text.utf8_append, List.length_append]
          exact Nat.add_le_add front (parseIntError_length 0 _)
  simp only [fits, decide_eq_true_eq]
  omega

theorem listEntries_within (small : limit < 2 ^ 32) (low : 20 ≤ limit)
    {path : Bytes} {entries : List (Told SyncEntry)}
    (within : Within limit worker.responses)
    (short : entriesFit limit path entries) :
    StaysWithin limit (worker.listEntries path entries) := by
  induction entries generalizing worker with
  | nil => exact ⟨rfl, within.concat (le_trans (by decide) low)⟩
  | cons entry rest induction =>
      cases entry with
      | error error => exact queueFail_within small within short
      | ok entry =>
          unfold listEntries
          unfold entriesFit at short
          cases metadata : entry.metadata with
          | error error =>
              rw [metadata] at short
              exact queueFail_within small within short
          | ok stat =>
              rw [metadata] at short
              simp only [Bool.and_eq_true, decide_eq_true_eq] at short
              obtain ⟨name, later⟩ := short
              obtain ⟨payload, packet, length⟩ := @syncCounted_fits "DENT"
                "sync directory entry name too long"
                (le32 stat.mode ++ le32 stat.size ++ le32 stat.mtime)
                entry.name (by decide) (by omega)
              dsimp only
              rw [syncDentPacket, packet]
              refine induction (within.concat ?_) later
              simp only [length, List.length_append, le32, Bytes.toLe_length]
              omega

/-- The id of a message is four bytes of the buffer. -/
private theorem nextMessage_id {buffer id : Bytes} {message : SyncMessage}
    {size : Nat} (next : worker.nextMessage buffer = some (message, size))
    (named : (∃ payload, message = .request id payload) ∨
      message = .unexpected id) : id.length ≤ 4 := by
  have taken : (buffer.take 4).length ≤ 4 := List.length_take_le 4 buffer
  cases state : worker.state with
  | idle =>
      rw [nextMessage, state] at next
      obtain ⟨_, _, _, rfl⟩ := nextIdleMessage_eq_some.mp next
      simp only [SyncMessage.request.injEq, reduceCtorEq, or_false] at named
      obtain ⟨_, rfl, _⟩ := named
      exact taken
  | receiving send =>
      rw [nextMessage, state] at next
      unfold nextSendMessage at next
      dsimp only at next
      split at next
      · cases next
      · split at next
        · split at next
          · cases next
          · obtain ⟨rfl, _⟩ := Prod.mk.inj (Option.some.inj next)
            simp at named
        · split at next
          · obtain ⟨rfl, _⟩ := Prod.mk.inj (Option.some.inj next)
            simp at named
          · obtain ⟨rfl, _⟩ := Prod.mk.inj (Option.some.inj next)
            simp only [reduceCtorEq, exists_false, SyncMessage.unexpected.injEq,
              false_or] at named
            rwa [← named]

variable (fs : FileSystem σ)

/-- A message whose failures fit is handled within the limit. -/
theorem perform_within (small : limit < 2 ^ 32) (low : 4096 ≤ limit)
    {buffer : Bytes} {message : SyncMessage} {size : Nat}
    (next : worker.nextMessage buffer = some (message, size))
    (within : Within limit worker.responses)
    (short : messageFits fs limit worker message) :
    (∃ keeps, (worker.perform fs message).1 = .ok keeps) ∧
      Within limit (worker.perform fs message).2.responses := by
  have handled : StaysWithin limit
      ((worker.log message).handleMessage fs message) := by
    cases message with
    | request id payload =>
        have header : id.length ≤ 4 := nextMessage_id next (.inl ⟨payload, rfl⟩)
        unfold handleMessage handleSyncRequest
        dsimp only
        split
        · exact ⟨rfl, within.concat (le_trans (syncStatPacket_length _).le
            (by omega))⟩
        · split
          · rename_i isList
            simp only [messageFits, if_pos isList] at short
            unfold handleList
            rcases listed : fs.readDir payload worker.files with
              ⟨error | entries, files⟩
            · rw [listed] at short
              simp only [log, listed]
              exact @queueFail_within _ _ ⟨worker.state, files, _, _⟩ small
                within _ short
            · rw [listed] at short
              simp only [log, listed]
              exact listEntries_within small (by omega) within short
          · split
            · refine ⟨rfl, fun other member => ?_⟩
              rcases List.mem_append.mp member with early | new
              · exact within other early
              · simp at new
            · split
              · unfold startSend
                cases parsed : parseSendTarget payload with
                | error error =>
                    exact @queueFail_within _ _ (worker.log _) small within _
                      (parseSendTarget_error parsed low)
                | ok target => exact ⟨rfl, within⟩
              · split
                · exact ⟨rfl, within⟩
                · exact @queueFail_within _ _ (worker.log _) small within _
                    (@fits_lossy _ "unsupported sync request " _ header
                      (by decide) low)
    | data content =>
        refine ⟨rfl, ?_⟩
        unfold handleMessage handleData
        cases state : (worker.log (.data content)).state <;> exact within
    | done mtime =>
        unfold handleMessage handleDone
        cases state : worker.state with
        | idle =>
            simp only [log, state]
            exact ⟨rfl, within⟩
        | receiving send =>
            simp only [messageFits, state] at short
            simp only [log, state, finishSend]
            rcases closed : closeSend fs send mtime worker.files with
              ⟨failure, files⟩
            rw [closed] at short
            cases failure with
            | none => exact ⟨rfl, within.concat (le_trans (by decide) low)⟩
            | some failure =>
                exact @queueFail_within _ _ ⟨.idle, files, _, _⟩ small within _
                  short
    | unexpected id =>
        have header : id.length ≤ 4 := nextMessage_id next (.inr rfl)
        exact @queueFail_within _ _
          { worker.log (.unexpected id) with state := .idle } small within _
          (@fits_lossy _ "expected DATA or DONE during SEND, got " _ header
            (by decide) low)
  refine ⟨?_, handled.2⟩
  rw [perform]
  dsimp only
  rw [handled.1]
  exact ⟨_, rfl⟩

end SyncWorker

/-! ## Replies of a stream -/

section

variable {σ : Type} {fs : FileSystem σ} {maxPayload : UInt32}

/-- No reply that the thread hands to `send` is too long, and the thread stops
only with its stream or with the transport. -/
def RepliesFit (maxPayload : UInt32) (link : SyncLink σ) : Prop :=
  (∀ payload next, link.stream.output = .sendFor payload next →
    payload.length ≤ maxPayload.toNat) ∧
  (link.stream.output = .done → link.stream.flow.closed ∨ link.lost)

/-- What the output thread is about to send fits. -/
def OutputFits (limit : Nat) : Output → Prop
  | .readFile _ size => 8 + size ≤ limit
  | .awaitCreditFor payload next | .sendFor payload next =>
      payload.length ≤ limit ∧
        ∀ path size, next = .chunk path size → 8 + size ≤ limit
  | _ => True

structure LinkFits (limit : Nat) (link : SyncLink σ) : Prop where
  channel : Within limit link.stream.channel
  output : OutputFits limit link.stream.output
  done : link.stream.output = .done → link.stream.flow.closed ∨ link.lost
  hungUp : link.stream.hungUp → link.stream.flow.closed

theorem Within.append {limit : Nat} {front back : List SyncResponse}
    (first : Within limit front) (second : Within limit back) :
    Within limit (front ++ back) := by
  intro payload member
  rcases List.mem_append.mp member with early | late
  · exact first payload early
  · exact second payload late

private theorem handle_fits {link next : SyncLink σ}
    (low : 4096 ≤ maxPayload.toNat) (fits : LinkFits maxPayload.toNat link)
    (short : actionFits fs maxPayload.toNat link .handle)
    (handled : link.handle fs = some next) :
    LinkFits maxPayload.toNat next := by
  unfold SyncLink.handle at handled
  split at handled
  · cases handled
  · split at handled
    · cases handled
    · rename_i message size found
      rw [actionFits, found, Option.all_some] at short
      have small : maxPayload.toNat < 2 ^ 32 := maxPayload.toNat_lt
      obtain ⟨⟨keeps, kept⟩, queued⟩ := @SyncWorker.perform_within _ _
        link.worker.blank fs small low link.buffer message size found
        (fun payload member => by simp [SyncWorker.blank] at member) short
      rw [← SyncLink.queued_eq] at queued
      have outcome := congrArg Prod.fst
        (SyncWorker.perform_blank fs link.worker message)
      dsimp only at outcome
      rw [kept] at outcome
      split at handled
      · obtain rfl := Option.some.inj handled
        exact ⟨fits.channel, fits.output, fun _ =>
          .inl (Stream.close_flow_closed link.stream), fun _ =>
            Stream.close_flow_closed link.stream⟩
      · obtain rfl := Option.some.inj handled
        have channel := fits.channel.append queued
        unfold SyncLink.performed
        dsimp only
        rw [outcome]
        cases keeps <;> exact ⟨channel, fits.output, fits.done, fits.hungUp⟩

private theorem failedFor_fits {limit : Nat} {message : Text}
    (small : limit < 2 ^ 32) (short : fits limit message) :
    OutputFits limit (failedFor message) ∧ failedFor message ≠ .done := by
  obtain ⟨payload, packet, bound⟩ := syncFailPacket_fits small short
  rw [failedFor, packet]
  exact ⟨⟨bound, by simp⟩, by simp⟩

/-- The thread goes on with an output that fits. -/
private theorem LinkFits.goesOn {limit : Nat} {link next : SyncLink σ}
    (fits : LinkFits limit link)
    (channel : Within limit next.stream.channel)
    (output : OutputFits limit next.stream.output)
    (going : next.stream.output ≠ .done)
    (hungUp : next.stream.hungUp = link.stream.hungUp)
    (flow : link.stream.flow.closed → next.stream.flow.closed) :
    LinkFits limit next where
  channel := channel
  output := output
  done := fun done => absurd done going
  hungUp := fun hung => flow (fits.hungUp (hungUp ▸ hung))

private theorem LinkFits.outputs {limit : Nat} {link next : SyncLink σ}
    (fits : LinkFits limit link) {output : Output}
    (stream : next.stream = link.stream.setOutput output)
    (short : OutputFits limit output) (going : output ≠ .done) :
    LinkFits limit next :=
  fits.goesOn (stream ▸ fits.channel) (by rwa [stream]) (by rwa [stream])
    (by rw [stream]; rfl) (by rw [stream]; exact id)

private theorem receive_fits {link next : SyncLink σ}
    (low : 4096 ≤ maxPayload.toNat) (fits : LinkFits maxPayload.toNat link)
    (waits : link.stream.output = .receive) {result : SendResult}
    (short : actionFits fs maxPayload.toNat link (.output result))
    (received : link.receive fs maxPayload = some next) :
    LinkFits maxPayload.toNat next := by
  unfold SyncLink.receive at received
  cases channel : link.stream.channel with
  | nil =>
      simp only [channel, Stream.receive, Option.map_eq_some_iff] at received
      obtain ⟨stream, ended, rfl⟩ := received
      split at ended
      · rename_i hung
        obtain rfl := Option.some.inj ended
        exact ⟨fits.channel, trivial, fun _ => .inl (fits.hungUp hung),
          fits.hungUp⟩
      · cases ended
  | cons response rest =>
      have later : Within maxPayload.toNat rest := fun payload member =>
        fits.channel payload (by rw [channel]; exact List.mem_cons_of_mem _ member)
      cases response with
      | packet payload =>
          have bound := fits.channel payload (by rw [channel]; exact List.mem_cons_self)
          simp only [channel, Stream.receive, Option.map_some,
            Option.some.injEq] at received
          obtain rfl := received
          exact fits.goesOn later ⟨bound, by simp⟩
            (by simp [SyncLink.setStream, Stream.setOutput]) rfl id
      | file path =>
          simp only [actionFits, waits, channel] at short
          rcases opens : fs.openRead path link.worker.files with
            ⟨error | done, files⟩
          · simp only [channel, opens, Stream.receive, Option.map_some,
              Option.some.injEq] at received
            rw [opens] at short
            obtain ⟨told, going⟩ := failedFor_fits maxPayload.toNat_lt short
            obtain rfl := received
            exact fits.goesOn later told going rfl id
          · simp only [channel, opens, Stream.receive, Option.map_some,
              Option.some.injEq] at received
            obtain rfl := received
            refine fits.goesOn later ?_
              (by simp [SyncLink.setStream, Stream.setOutput]) rfl id
            change 8 + min syncChunk (max (maxPayload.toNat - 8) 1) ≤ _
            omega

private theorem readFile_fits {link : SyncLink σ}
    (low : 4096 ≤ maxPayload.toNat) (fits : LinkFits maxPayload.toNat link)
    {path : Bytes} {size : Nat} (reads : link.stream.output = .readFile path size)
    {result : SendResult}
    (short : actionFits fs maxPayload.toNat link (.output result)) :
    LinkFits maxPayload.toNat (link.readFile fs path size) := by
  have bound : 8 + size ≤ maxPayload.toNat := by
    have output := fits.output
    rwa [reads] at output
  have small : maxPayload.toNat < 2 ^ 32 := maxPayload.toNat_lt
  simp only [actionFits, reads] at short
  unfold SyncLink.readFile
  rcases reading : fs.read path link.offset size link.worker.files with
    ⟨error | content, files⟩
  · rw [reading] at short
    obtain ⟨told, going⟩ := failedFor_fits small short
    exact fits.goesOn fits.channel told going rfl id
  · have taken : (content.take size).length ≤ size := List.length_take_le _ _
    by_cases empty : content.take size = []
    · have stream : (link.stream.readFile path size ⟨.ok content, .ok (), .sent⟩) =
          link.stream.setOutput
            (.awaitCreditFor (syncStatusPacket "DONE" 0) .response) := by
        simp only [Stream.readFile, if_pos empty]
      exact fits.outputs stream ⟨le_trans (by decide) low, by simp⟩ (by simp)
    · obtain ⟨payload, packet, length⟩ := @syncCounted_fits "DATA"
        "sync data packet too large" [] (content.take size) (by decide)
        (by omega)
      have stream :
          link.stream.readFile path size ⟨.ok content, .ok (), .sent⟩ =
            link.stream.setOutput (.awaitCreditFor payload (.chunk path size)) := by
        simp only [Stream.readFile, if_neg empty, syncDataPacket, packet]
      refine fits.outputs stream ⟨?_, ?_⟩ (by simp)
      · rw [length, List.length_nil]
        omega
      · rintro _ _ ⟨⟩
        exact bound

private theorem send_fits {link : SyncLink σ}
    (fits : LinkFits maxPayload.toNat link) {payload : Bytes} {after : SyncNext}
    (sends : link.stream.output = .sendFor payload after)
    (result : SendResult) :
    LinkFits maxPayload.toNat (link.send maxPayload payload after result) := by
  have output := fits.output
  rw [sends] at output
  obtain ⟨bound, later⟩ := output
  rw [SyncLink.send, if_neg (Nat.not_lt.mpr bound)]
  cases fault : result.fault with
  | none =>
      rw [if_pos rfl]
      refine ⟨fits.channel, ?_, ?_, fits.hungUp⟩
      · cases after with
        | response => trivial
        | chunk path size => exact later path size rfl
      · cases after <;> simp [SyncLink.setStream, Stream.setOutput, State.resume]
  | some disconnect =>
      rw [if_neg (by simp)]
      exact ⟨fits.channel, trivial, fun _ => .inr (by simp), fits.hungUp⟩

private theorem stepOutput_fits {link next : SyncLink σ}
    (low : 4096 ≤ maxPayload.toNat) (fits : LinkFits maxPayload.toNat link)
    {result : SendResult}
    (short : actionFits fs maxPayload.toNat link (.output result))
    (steps : link.stepOutput fs maxPayload result = some next) :
    LinkFits maxPayload.toNat next := by
  unfold SyncLink.stepOutput at steps
  cases output : link.stream.output with
  | receive =>
      rw [output] at steps
      exact receive_fits low fits output short steps
  | readFile path size =>
      rw [output] at steps
      obtain rfl := Option.some.inj steps
      exact readFile_fits low fits output short
  | awaitCreditFor payload after =>
      rw [output] at steps
      obtain ⟨stream, taken, rfl⟩ := Option.map_eq_some_iff.mp steps
      have bound := fits.output
      rw [output] at bound
      rcases Stream.takeCredit_cases taken with ⟨closed, rfl⟩ | ⟨credit, rfl⟩
      · exact ⟨fits.channel, trivial, fun _ => .inl closed, fits.hungUp⟩
      · refine fits.goesOn fits.channel bound (by simp [SyncLink.setStream]) rfl ?_
        simp [credit]
  | sendFor payload after =>
      rw [output] at steps
      obtain rfl := Option.some.inj steps
      exact send_fits fits output result
  | _ => simp [output] at steps

/-- The link as it is while no failure is told in too long a text. -/
def tellable (fs : FileSystem σ) (maxPayload : UInt32) (files : σ) :
    Transition.System (SyncLink σ) SyncAction :=
  (syncLink fs maxPayload files).restrict fun link action =>
    actionFits fs maxPayload.toNat link action = true

theorem tellable_linkFits (low : 4096 ≤ maxPayload.toNat) (files : σ) :
    (tellable fs maxPayload files).Inductive
      (LinkFits maxPayload.toNat) where
  initially :=
    { channel := by simp [tellable, Transition.System.restrict, syncLink,
        SyncLink.opened, Stream.spawn, Stream.allowOutput, Within]
      output := trivial
      done := nofun
      hungUp := nofun }
  kept := by
    intro link next action fits steps
    obtain ⟨short, steps⟩ := Transition.System.restrict_step_eq_some.mp steps
    cases action with
    | arrive payload =>
        change link.arrive payload = some next at steps
        unfold SyncLink.arrive at steps
        split at steps
        · cases steps
        · obtain rfl := Option.some.inj steps
          exact ⟨fits.channel, fits.output, fits.done, fits.hungUp⟩
    | handle => exact handle_fits low fits short steps
    | output result => exact stepOutput_fits low fits short steps
    | okay =>
        obtain rfl := Option.some.inj steps
        exact ⟨fits.channel, fits.output, fun done =>
          (fits.done done).imp_left fun closed => by
            simpa [SyncLink.setStream, Stream.acknowledgeOutput] using closed,
          fun hung => by
            simpa [SyncLink.setStream, Stream.acknowledgeOutput] using
              fits.hungUp hung⟩
    | close =>
        obtain rfl := Option.some.inj steps
        exact ⟨fits.channel, fits.output, fun _ =>
          .inl (Stream.close_flow_closed _), fun _ =>
            Stream.close_flow_closed _⟩

theorem LinkFits.replies {link : SyncLink σ}
    (fits : LinkFits maxPayload.toNat link) : RepliesFit maxPayload link := by
  refine ⟨fun payload after sends => ?_, fits.done⟩
  have output := fits.output
  rw [sends] at output
  exact output.1

def tooLong : Text := "File name too long (os error 36)".toList

end

end Pocketboot.Adb
