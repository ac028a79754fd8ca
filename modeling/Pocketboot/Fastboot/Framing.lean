import Pocketboot.Fastboot.Server

/-!
# Payload is not read as commands

The server knows how much payload is still to come only while it is inside
`download`.  As long as it stays there until the payload is complete, the bytes
in flight are those it waits for, and no command line has a payload byte.
-/

namespace Pocketboot.Fastboot

open Transition Stateful

/-! ## When a download leaves no payload behind -/

/-- A `DATA` response that counts as failed did not reach the host, or announces
nothing; reading the payload does not fail; a chunk whose write fails is the
last one. -/
def KeepsFraming (state : State) : Action → Prop
  | .prepare none (.failed _ delivered) _ =>
      delivered = false ∨ state.device = .preparing 0
  | .receive (some _) _ =>
      match state.device with
      | .receiving _ size remaining => remaining ≤ State.chunkLen size remaining
      | _ => True
  | .receiveFails _ _ _ => False
  | _ => True

instance (state : State) (action : Action) :
    Decidable (KeepsFraming state action) := by
  unfold KeepsFraming
  split
  · infer_instance
  · split <;> infer_instance
  · infer_instance
  · infer_instance

/-- No command line has a payload byte. -/
def CommandsOnly (state : State) : Prop :=
  ∀ line ∈ state.lines, ∀ byte ∈ line, byte.payload = false

/-! ## Transfers -/

def Clean (transfer : Transfer) : Prop :=
  ∀ byte ∈ transfer, byte.payload = false

def IsPayload (transfer : Transfer) : Prop :=
  ∀ byte ∈ transfer, byte.payload = true

/-- The transfer holds a download command. -/
def AsksDownload (transfer : Transfer) : Prop :=
  startsDownload (values (commandLine HostByte.value transfer)) = true

theorem values_commandLine (transfer : Transfer) :
    values (commandLine HostByte.value transfer) =
      commandLine id (values transfer) := by
  unfold values commandLine
  rw [List.takeWhile_map]
  rfl

@[simp] theorem values_commandTransfer (line : Bytes) :
    values (commandTransfer line) = line := by
  simp [values, commandTransfer, Function.comp_def]

@[simp] theorem drain_zero (transfers : List Transfer) :
    drain 0 transfers = transfers := by
  cases transfers <;> rfl

theorem drain_cons {count : Nat} {transfer : Transfer}
    (rest : List Transfer) (length : transfer.length = count + 1) :
    drain (count + 1) (transfer :: rest) = rest := by
  rw [drain, if_pos (le_of_eq length), length, Nat.sub_self, drain_zero]

theorem drain_append {count : Nat} {front : List Transfer}
    (back : List Transfer) (enough : count ≤ front.flatten.length) :
    drain count (front ++ back) = drain count front ++ back := by
  induction front generalizing count with
  | nil =>
      obtain rfl : count = 0 := by simpa using enough
      simp
  | cons transfer rest induction =>
      cases count with
      | zero => rfl
      | succ count =>
          simp only [List.cons_append, drain]
          split
          · rename_i short
            rw [List.flatten_cons, List.length_append] at enough
            exact induction (by omega)
          · rfl

theorem drain_length {count : Nat} {transfers : List Transfer}
    (enough : count ≤ transfers.flatten.length) :
    (drain count transfers).flatten.length =
      transfers.flatten.length - count := by
  induction transfers generalizing count with
  | nil =>
      obtain rfl : count = 0 := by simpa using enough
      rfl
  | cons transfer rest induction =>
      cases count with
      | zero => rfl
      | succ count =>
          rw [List.flatten_cons, List.length_append] at enough
          simp only [drain]
          split
          · rw [induction (by omega), List.flatten_cons, List.length_append]
            omega
          · simp only [List.flatten_cons, List.length_append,
              List.length_drop]
            omega

theorem drain_payload {count : Nat} {transfers : List Transfer}
    (payload : ∀ transfer ∈ transfers, IsPayload transfer) :
    ∀ transfer ∈ drain count transfers, IsPayload transfer := by
  induction transfers generalizing count with
  | nil => cases count <;> simp [drain]
  | cons first rest induction =>
      have later : ∀ transfer ∈ rest, IsPayload transfer :=
        fun transfer member => payload transfer (List.mem_cons_of_mem _ member)
      cases count with
      | zero => exact payload
      | succ count =>
          simp only [drain]
          split
          · exact induction later
          · intro transfer member
            rcases List.mem_cons.mp member with rfl | member
            · exact fun byte inside => payload first List.mem_cons_self byte
                (List.mem_of_mem_drop inside)
            · exact later transfer member

/-! ## The invariant -/

/-- The commands in the queue.  Only the last one can start a download, and
then the host waits for the answer. -/
structure Queued (host : Host) (commands : List Transfer) : Prop where
  clean : ∀ transfer ∈ commands, Clean transfer
  short : ∀ transfer ∈ commands, transfer.length ≤ commandMax
  downloads :
    match host with
    | .ready => ∀ transfer ∈ commands, ¬AsksDownload transfer
    | .awaiting => ∃ front last, commands = front ++ [last] ∧
        (∀ transfer ∈ front, ¬AsksDownload transfer) ∧ AsksDownload last
    | .sending _ => commands = []

def Host.owed : Host → Nat
  | sending owed => owed
  | _ => 0

/-- The payload bytes the server still reads; `none` between a download
command and its answer. -/
def Device.remaining : Device → Option Nat
  | waiting => some 0
  | handling line => if startsDownload (values line) then none else some 0
  | preparing _ => none
  | receiving _ _ remaining => some remaining
  | stopped => some 0

/-- The first responses to downloads that have not arrived. -/
def State.answers (state : State) : List Sent :=
  state.responses.filter Sent.answers

/-- How the bytes in flight fit what the server and the host are doing. -/
inductive Framed (state : State) : Prop
  | flowing (payload commands : List Transfer) (remaining : Nat)
      (device : state.device.remaining = some remaining)
      (answers : state.answers = [])
      (rx : state.rx = payload ++ commands)
      (whole : ∀ transfer ∈ payload, IsPayload transfer)
      (count : payload.flatten.length + state.host.owed = remaining)
      (queued : Queued state.host commands)
  | busy (device : state.device.remaining = none)
      (host : state.host = .awaiting) (answers : state.answers = [])
      (rx : state.rx = [])
  | announced (sent : Sent) (size : Nat)
      (device : state.device.remaining = some size)
      (host : state.host = .awaiting) (answers : state.answers = [sent])
      (status : sent.response.status = .data)
      (told : Fastboot.announced sent.response = size) (rx : state.rx = [])
  | answered (device : state.device.remaining = some 0)
      (host : state.host = .awaiting) (single : state.answers.length ≤ 1)
      (status : ∀ sent ∈ state.answers, sent.response.status ≠ .data)
      (rx : state.rx = [])

/-- The sizes of a download. -/
def Device.Sized : Device → Prop
  | preparing size => size ≤ maxDownloadSize
  | receiving _ size remaining => remaining ≤ size
  | _ => True

structure Inv (state : State) : Prop where
  lines : CommandsOnly state
  framed : Framed state
  sized : state.device.Sized

/-- What matters to the framing is unchanged. -/
structure SameFraming (state next : State) : Prop where
  device : next.device.remaining = state.device.remaining
  host : next.host = state.host
  answers : next.answers = state.answers
  rx : next.rx = state.rx

theorem Framed.same {state next : State} (framed : Framed state)
    (same : SameFraming state next) : Framed next := by
  obtain ⟨sameDevice, sameHost, sameAnswers, sameRx⟩ := same
  cases framed with
  | flowing payload commands remaining device answers rx whole count queued =>
      exact .flowing payload commands remaining (sameDevice.trans device)
        (sameAnswers.trans answers) (sameRx.trans rx) whole
        (by rw [sameHost]; exact count) (by rw [sameHost]; exact queued)
  | busy device host answers rx =>
      exact .busy (sameDevice.trans device) (sameHost.trans host)
        (sameAnswers.trans answers) (sameRx.trans rx)
  | announced sent size device host answers status told rx =>
      exact .announced sent size (sameDevice.trans device)
        (sameHost.trans host) (sameAnswers.trans answers) status told
        (sameRx.trans rx)
  | answered device host single status rx =>
      exact .answered (sameDevice.trans device) (sameHost.trans host)
        (by rw [sameAnswers]; exact single)
        (by rw [sameAnswers]; exact status) (sameRx.trans rx)

/-! ## Steps of the server -/

theorem Device.after_remaining (outcome : Run OsError ServerStep) :
    (Device.after outcome).remaining = some 0 := by
  unfold Device.after
  split
  · rfl
  · rfl
  · split <;> rfl
  · rfl

theorem Device.after_sized (outcome : Run OsError ServerStep) :
    (Device.after outcome).Sized := by
  unfold Device.after
  split
  · trivial
  · trivial
  · split <;> trivial
  · trivial

/-- What `downloadFails` does to the framing. -/
structure Failed (state : State) (answers : Bool) (next : State) : Prop where
  device : next.device.remaining = some 0
  sized : next.device.Sized
  host : next.host = state.host
  rx : next.rx = state.rx
  lines : next.lines = state.lines
  added : ∃ responses, next.responses = state.responses ++ responses ∧
    responses.length ≤ 1 ∧ ∀ sent ∈ responses, sent.answers = answers ∧
      sent.response.status ≠ .data

theorem State.downloadFails_failed (state : State) (error : OsError)
    (result : SendResult) (answers : Bool) :
    Failed state answers (state.downloadFails error result answers) := by
  unfold State.downloadFails
  split
  · exact ⟨rfl, trivial, rfl, rfl, rfl, [], by simp, by simp, by simp⟩
  · refine ⟨?_, ?_, rfl, rfl, rfl, ?_⟩
    · cases result with
      | sent => rfl
      | failed error delivered => simp only; split <;> rfl
    · cases result with
      | sent => trivial
      | failed error delivered => simp only; split <;> trivial
    · by_cases delivered : result.delivered = true
      · exact ⟨[_], by simp [delivered]; rfl, by simp, by simp⟩
      · exact ⟨[], by simp [delivered], by simp, by simp⟩

theorem Failed.answers_false {state next : State}
    (failed : Failed state false next) : next.answers = state.answers := by
  obtain ⟨responses, added, _, unmarked⟩ := failed.added
  have none : responses.filter Sent.answers = [] := by
    rw [List.filter_eq_nil_iff]
    intro sent member
    simp [(unmarked sent member).1]
  rw [State.answers, added, List.filter_append, none, List.append_nil]
  rfl

theorem Failed.lines_only {state next : State} {answers : Bool}
    (failed : Failed state answers next) (only : CommandsOnly state) :
    CommandsOnly next := by
  unfold CommandsOnly
  rw [failed.lines]
  exact only

/-- An error after the payload is complete. -/
theorem Failed.settles {state next : State} (failed : Failed state false next)
    (framed : Framed state) (complete : state.device.remaining = some 0) :
    Framed next :=
  framed.same
    ⟨failed.device.trans complete.symm, failed.host, failed.answers_false,
      failed.rx⟩

/-- An error before the `DATA` response. -/
theorem Failed.answers {state next : State} (failed : Failed state true next)
    (host : state.host = .awaiting) (answers : state.answers = [])
    (rx : state.rx = []) : Framed next := by
  obtain ⟨responses, added, single, marked⟩ := failed.added
  have nextAnswers : next.answers = responses.filter Sent.answers := by
    have before : state.responses.filter Sent.answers = [] := answers
    rw [State.answers, added, List.filter_append, before, List.nil_append]
  refine .answered failed.device (failed.host.trans host) ?_ ?_
    (failed.rx.trans rx)
  · rw [nextAnswers]
    exact (List.length_filter_le _ _).trans single
  · intro sent member
    rw [nextAnswers] at member
    exact (marked sent (List.mem_filter.mp member).1).2

/-- The busy phase is between a download command and its answer. -/
theorem Framed.of_busy {state : State} (framed : Framed state)
    (device : state.device.remaining = none) :
    state.host = .awaiting ∧ state.answers = [] ∧ state.rx = [] := by
  cases framed with
  | flowing _ _ _ known => simp [device] at known
  | busy _ host answers rx => exact ⟨host, answers, rx⟩
  | announced _ _ known => simp [device] at known
  | answered known => simp [device] at known

/-- The answer to a download was lost. -/
theorem Framed.silent {state : State} (device : state.device.remaining = some 0)
    (host : state.host = .awaiting) (answers : state.answers = [])
    (rx : state.rx = []) : Framed state :=
  .answered device host (by simp [answers]) (by simp [answers]) rx

theorem requestedSize_le {command : Text} {size : Nat}
    (requested : requestedSize command = .ok size) : size ≤ maxDownloadSize := by
  unfold requestedSize at requested
  obtain ⟨parsed, _, requested⟩ := Run.bind_eq_ok.mp requested
  cases parsed with
  | none => simp [throw, throwThe, MonadExceptOf.throw] at requested
  | some value =>
      obtain ⟨_, fits, same⟩ := Run.bind_eq_ok.mp requested
      obtain rfl : value = size := by simpa using same
      exact Run.ensure_eq_ok.mp fits

theorem announced_data {size : Nat} (small : size < 2 ^ 32) :
    announced (State.announcement size).response = size := by
  rw [announced, State.announcement, Text.ofUtf8_utf8, Option.bind_some,
    Text.parseU32_hexDigits small, Option.getD_some]

/-- A command that is not a download. -/
private theorem Inv.runLine {state : State} {io : CommandIo}
    {request : Dispatch} (inv : Inv state)
    (settled : state.device.remaining = some 0) :
    Inv (state.runLine io request) where
  lines := inv.lines
  framed := by
    refine inv.framed.same ⟨?_, rfl, ?_, rfl⟩
    · rw [settled]
      exact Device.after_remaining _
    · simp [State.answers, State.runLine, sentBy]
  sized := Device.after_sized _

private theorem Inv.startDownload {state : State} {result : SendResult}
    {command : Text} (inv : Inv state)
    (busy : state.device.remaining = none) :
    Inv (state.startDownload result command) := by
  obtain ⟨host, answers, rx⟩ := inv.framed.of_busy busy
  let cleared : State :=
    { state with staged := none, attempt := some ⟨[], false⟩ }
  unfold State.startDownload
  split
  · rename_i size requested
    exact ⟨inv.lines, .busy rfl host answers rx, requestedSize_le requested⟩
  · rename_i error _
    have failed := cleared.downloadFails_failed error result true
    exact ⟨failed.lines_only inv.lines, failed.answers host answers rx,
      failed.sized⟩
  · exact ⟨inv.lines, .silent rfl host answers rx, trivial⟩

private theorem announceDownload_answers {state : State} {size : Nat}
    {announce : SendResult} (answers : state.answers = [])
    (delivered : announce.delivered = true) :
    (state.announceDownload size announce).answers =
      [State.announcement size] := by
  have before : state.responses.filter Sent.answers = [] := answers
  rw [State.answers, State.announceDownload, if_pos delivered,
    List.filter_append, before]
  rfl

private theorem Inv.prepare {state : State} {size : Nat}
    {create : Option OsError} {announce result : SendResult} (inv : Inv state)
    (preparing : state.device = .preparing size)
    (keeps : KeepsFraming state (.prepare create announce result)) :
    Inv (state.prepareDownload size create announce result) := by
  have busy : state.device.remaining = none := by rw [preparing]; rfl
  obtain ⟨host, answers, rx⟩ := inv.framed.of_busy busy
  have sized : size ≤ maxDownloadSize := by
    have := inv.sized
    rwa [preparing] at this
  have small : size < 2 ^ 32 := by
    unfold maxDownloadSize at sized
    omega
  unfold State.prepareDownload
  cases create with
  | some error =>
      have failed := state.downloadFails_failed error result true
      exact ⟨failed.lines_only inv.lines, failed.answers host answers rx,
        failed.sized⟩
  | none =>
      cases announce with
      | sent =>
          have told : (state.announceDownload size .sent).answers =
              [State.announcement size] := announceDownload_answers answers rfl
          refine ⟨inv.lines, ?_, le_refl size⟩
          exact .announced (State.announcement size) size rfl host told rfl
            (announced_data small) rx
      | failed error delivered =>
          let told := state.announceDownload size (.failed error delivered)
          have failed := told.downloadFails_failed error result (!delivered)
          refine ⟨failed.lines_only inv.lines, ?_, failed.sized⟩
          cases delivered with
          | false => exact failed.answers host answers rx
          | true =>
              obtain rfl : size = 0 := by
                rcases keeps with silent | empty
                · simp at silent
                · simpa [preparing] using empty
              exact .announced (State.announcement 0) 0 failed.device
                (failed.host.trans host)
                (failed.answers_false.trans
                  (announceDownload_answers answers rfl))
                rfl (announced_data small) (failed.rx.trans rx)

/-- The chunk the server waits for is payload. -/
private theorem Framed.take {state : State} {file : File}
    {size remaining : Nat} (framed : Framed state)
    (receiving : state.device = .receiving file size remaining)
    (sized : remaining ≤ size) (positive : 0 < remaining)
    (enough : State.chunkLen size remaining ≤ state.rx.flatten.length) :
    ∃ payload commands,
      (state.take (State.chunkLen size remaining)).rx = payload ++ commands ∧
      (∀ transfer ∈ payload, IsPayload transfer) ∧
      payload.flatten.length + state.host.owed =
        remaining - State.chunkLen size remaining ∧
      Queued state.host commands ∧ state.answers = [] := by
  have chunk : 0 < State.chunkLen size remaining ∧
      State.chunkLen size remaining ≤ remaining := by
    have : 0 < transferChunk := by decide
    unfold State.chunkLen
    omega
  have device : state.device.remaining = some remaining := by rw [receiving]; rfl
  cases framed with
  | flowing payload commands known same answers rx whole count queued =>
      obtain rfl : known = remaining := Option.some.inj (same.symm.trans device)
      have inPayload : State.chunkLen size known ≤ payload.flatten.length := by
        cases host : state.host with
        | ready => rw [host] at count; simp only [Host.owed] at count; omega
        | awaiting => rw [host] at count; simp only [Host.owed] at count; omega
        | sending owed =>
            have noCommands := queued.downloads
            rw [host] at noCommands
            simp only at noCommands
            rw [rx, noCommands, List.append_nil] at enough
            exact enough
      refine ⟨drain (State.chunkLen size known) payload, commands, ?_,
        drain_payload whole, ?_, queued, answers⟩
      · rw [← drain_append commands inPayload, ← rx]
        rfl
      · rw [drain_length inPayload]
        omega
  | busy none => simp [device] at none
  | announced sent size' same host answers status told rx =>
      rw [rx] at enough
      simp only [List.flatten_nil, List.length_nil] at enough
      omega
  | answered zero =>
      have : remaining = 0 := Option.some.inj (device.symm.trans zero)
      omega

private theorem Inv.receive {state : State} {file : File}
    {size remaining : Nat} {write : Option OsError} {result : SendResult}
    (inv : Inv state)
    (receiving : state.device = .receiving file size remaining)
    (positive : 0 < remaining)
    (enough : State.chunkLen size remaining ≤ state.rx.flatten.length)
    (keeps : KeepsFraming state (.receive write result)) :
    Inv (state.receiveChunk file size remaining write result) := by
  have sized : remaining ≤ size := by
    have := inv.sized
    rwa [receiving] at this
  obtain ⟨payload, commands, rx, whole, count, queued, answers⟩ :=
    inv.framed.take receiving sized positive enough
  unfold State.receiveChunk
  cases write with
  | none =>
      refine ⟨inv.lines, .flowing payload commands _ rfl answers rx whole count
        queued, ?_⟩
      simp only [Device.Sized]
      omega
  | some error =>
      have last : remaining ≤ State.chunkLen size remaining := by
        have := keeps
        simpa only [KeepsFraming, receiving] using this
      let taken := state.take (State.chunkLen size remaining)
      have failed := taken.downloadFails_failed error result false
      refine ⟨failed.lines_only inv.lines, ?_, failed.sized⟩
      refine .flowing payload commands 0 failed.device
        (failed.answers_false.trans answers) (failed.rx.trans rx) whole ?_
        (by rw [failed.host]; exact queued)
      rw [failed.host]
      change payload.flatten.length + state.host.owed = 0
      omega

private theorem Inv.finish {state : State} {file : File} {size : Nat}
    {rewind : Option OsError} {okay result : SendResult} (inv : Inv state)
    (receiving : state.device = .receiving file size 0) :
    Inv (state.finishDownload file size rewind okay result) := by
  have complete : state.device.remaining = some 0 := by rw [receiving]; rfl
  unfold State.finishDownload
  cases rewind with
  | some error =>
      have failed := state.downloadFails_failed error result false
      exact ⟨failed.lines_only inv.lines, failed.settles inv.framed complete,
        failed.sized⟩
  | none =>
      simp only
      have same : SameFraming state (state.stageDownload file size okay) := by
        refine ⟨rfl, rfl, ?_, rfl⟩
        simp only [State.answers, State.stageDownload]
        split
        · simp
        · rfl
      have framed := inv.framed.same same
      have lines : CommandsOnly (state.stageDownload file size okay) :=
        inv.lines
      have stagedComplete := same.device.trans complete
      cases okay with
      | sent =>
          refine ⟨lines, framed.same ⟨?_, rfl, rfl, rfl⟩, trivial⟩
          exact stagedComplete.symm
      | failed error delivered =>
          have failed := State.downloadFails_failed
            (state.stageDownload file size (.failed error delivered)) error
            result false
          exact ⟨failed.lines_only lines, failed.settles framed stagedComplete,
            failed.sized⟩

/-! ## Steps of the host -/

theorem asksDownload_commandTransfer (line : Bytes) :
    AsksDownload (commandTransfer line) ↔
      startsDownload (commandLine id line) = true := by
  rw [AsksDownload, values_commandLine, values_commandTransfer]

theorem Host.owed_owing (owed : Nat) : (owing owed).owed = owed := by
  unfold owing
  split
  · rename_i none
    exact none.symm
  · rfl

theorem queued_owing (owed : Nat) : Queued (.owing owed) [] := by
  refine ⟨by simp, by simp, ?_⟩
  by_cases none : owed = 0
  · simp [Host.owing, none]
  · simp [Host.owing, none]

private theorem Inv.hostCommand {state : State} {line : Bytes} (inv : Inv state)
    (ready : state.host = .ready) (short : line.length ≤ commandMax) :
    Inv (state.sendCommand line) := by
  refine ⟨inv.lines, ?_, inv.sized⟩
  unfold State.sendCommand
  cases inv.framed with
  | flowing payload commands remaining device answers rx whole count queued =>
      rw [ready] at count queued
      have none := queued.downloads
      refine .flowing payload (commands ++ [commandTransfer line]) remaining
        device answers (by simp [rx]) whole ?_ ⟨?_, ?_, ?_⟩
      · simp only [← count]
        split <;> rfl
      · intro transfer member
        rcases List.mem_append.mp member with before | last
        · exact queued.clean transfer before
        · obtain rfl := List.mem_singleton.mp last
          simp [Clean, commandTransfer]
      · intro transfer member
        rcases List.mem_append.mp member with before | last
        · exact queued.short transfer before
        · obtain rfl := List.mem_singleton.mp last
          simpa [commandTransfer] using short
      · by_cases asks : startsDownload (commandLine id line) = true
        · rw [if_pos asks]
          exact ⟨commands, _, rfl, none,
            (asksDownload_commandTransfer line).mpr asks⟩
        · rw [if_neg asks]
          intro transfer member
          rcases List.mem_append.mp member with before | last
          · exact none transfer before
          · obtain rfl := List.mem_singleton.mp last
            rwa [asksDownload_commandTransfer]
  | busy _ host => simp [ready] at host
  | announced _ _ _ host => simp [ready] at host
  | answered _ host => simp [ready] at host

private theorem Inv.hostPayload {state : State} {owed : Nat} {data : Bytes}
    (inv : Inv state) (sending : state.host = .sending owed)
    (fits : data.length ≤ owed) :
    Inv (state.sendPayload owed data) := by
  refine ⟨inv.lines, ?_, inv.sized⟩
  unfold State.sendPayload
  cases inv.framed with
  | flowing payload commands remaining device answers rx whole count queued =>
      rw [sending] at count queued
      have none : commands = [] := queued.downloads
      subst none
      refine .flowing (payload ++ [payloadTransfer data]) [] remaining device
        answers (by simp [rx]) ?_ ?_ (queued_owing _)
      · intro transfer member
        rcases List.mem_append.mp member with before | last
        · exact whole transfer before
        · obtain rfl := List.mem_singleton.mp last
          simp [IsPayload, payloadTransfer]
      · rw [Host.owed_owing]
        simp only [Host.owed] at count
        simp only [List.flatten_append, List.flatten_cons, List.flatten_nil,
          List.append_nil, List.length_append, payloadTransfer,
          List.length_map]
        omega
  | busy _ host => simp [sending] at host
  | announced _ _ _ host => simp [sending] at host
  | answered _ host => simp [sending] at host

/-- A response that answers no download changes nothing for the host. -/
theorem Host.receive_other (host : Host) {sent : Sent}
    (other : sent.answers = false) : host.receive sent = host := by
  cases host <;> simp [Host.receive, other]

private theorem Inv.hostReceive {state : State} {sent : Sent}
    {rest : List Sent} (inv : Inv state)
    (responses : state.responses = sent :: rest) :
    Inv (state.receiveResponse sent rest) := by
  refine ⟨inv.lines, ?_, inv.sized⟩
  unfold State.receiveResponse
  by_cases marked : sent.answers = true
  · have answersEq : state.answers = sent :: rest.filter Sent.answers := by
      rw [State.answers, responses, List.filter_cons_of_pos marked]
    cases inv.framed with
    | flowing _ _ _ _ answers => simp [answersEq] at answers
    | busy _ _ answers => simp [answersEq] at answers
    | announced first size device host answers status told rx =>
        rw [answersEq, List.cons.injEq] at answers
        obtain ⟨rfl, none⟩ := answers
        have receives : state.host.receive sent = .owing size := by
          simp [host, Host.receive, marked, status, told]
        refine .flowing [] [] size device none rx (by simp) ?_ ?_
        · rw [receives, Host.owed_owing]
          simp
        · rw [receives]
          exact queued_owing size
    | answered device host single status rx =>
        rw [answersEq] at single status
        have none : rest.filter Sent.answers = [] := by
          simp only [List.length_cons] at single
          exact List.length_eq_zero_iff.mp (by omega)
        have refused := status sent List.mem_cons_self
        have receives : state.host.receive sent = .ready := by
          simp only [host, Host.receive, marked, if_true]
        refine .flowing [] [] 0 device none rx (by simp) ?_ ?_
        · simp [receives, Host.owed]
        · rw [receives]
          exact ⟨by simp, by simp, by simp⟩
  · have other : sent.answers = false := by simpa using marked
    refine inv.framed.same ⟨rfl, Host.receive_other _ other, ?_, rfl⟩
    simp [State.answers, responses, other]

/-! ## Reading a command line -/

theorem startsDownload_nil : startsDownload [] = false := by decide +kernel

/-- The queue after its first command, which does not start a download. -/
theorem Queued.tail {host : Host} {transfer : Transfer}
    {rest : List Transfer} (queued : Queued host (transfer :: rest))
    (other : ¬AsksDownload transfer) : Queued host rest where
  clean t member := queued.clean t (List.mem_cons_of_mem _ member)
  short t member := queued.short t (List.mem_cons_of_mem _ member)
  downloads := by
    have downloads := queued.downloads
    cases host with
    | ready => exact fun t member => downloads t (List.mem_cons_of_mem _ member)
    | awaiting =>
        obtain ⟨front, last, split, none, asks⟩ := downloads
        cases front with
        | nil =>
            simp only [List.nil_append, List.cons.injEq] at split
            obtain ⟨rfl, _⟩ := split
            exact (other asks).elim
        | cons first front =>
            simp only [List.cons_append, List.cons.injEq] at split
            exact ⟨front, last, split.2,
              fun t member => none t (List.mem_cons_of_mem _ member), asks⟩
    | sending owed => simp at downloads

/-- A download command is the last one, and the host waits. -/
theorem Queued.asks {host : Host} {transfer : Transfer}
    {rest : List Transfer} (queued : Queued host (transfer :: rest))
    (asks : AsksDownload transfer) : host = .awaiting ∧ rest = [] := by
  have downloads := queued.downloads
  cases host with
  | ready => exact (downloads transfer List.mem_cons_self asks).elim
  | awaiting =>
      obtain ⟨front, last, split, none, _⟩ := downloads
      cases front with
      | nil =>
          simp only [List.nil_append, List.cons.injEq] at split
          exact ⟨rfl, split.2⟩
      | cons first front =>
          simp only [List.cons_append, List.cons.injEq] at split
          obtain ⟨rfl, _⟩ := split
          exact (none transfer List.mem_cons_self asks).elim
  | sending owed => simp at downloads

private theorem Inv.readCommand {state : State} {transfer : Transfer}
    {rest : List Transfer} (inv : Inv state)
    (waiting : state.device = .waiting) (rx : state.rx = transfer :: rest) :
    Inv (state.readCommand transfer rest) := by
  have idle : state.device.remaining = some 0 := by rw [waiting]; rfl
  unfold State.readCommand
  cases inv.framed with
  | flowing payload commands remaining device answers split whole count
      queued =>
      obtain rfl : remaining = 0 := Option.some.inj (device.symm.trans idle)
      rw [rx] at split
      cases payload with
      | nil =>
          obtain rfl : transfer :: rest = commands := split
          have short := queued.short transfer List.mem_cons_self
          have clean := queued.clean transfer List.mem_cons_self
          rw [List.take_of_length_le short, if_pos short]
          refine ⟨?_, ?_, trivial⟩
          · intro line member
            rcases List.mem_append.mp member with before | last
            · exact inv.lines line before
            · obtain rfl := List.mem_singleton.mp last
              exact fun byte inside => clean byte (List.takeWhile_subset _ inside)
          · by_cases asks : AsksDownload transfer
            · obtain ⟨host, rfl⟩ := queued.asks asks
              exact .busy (if_pos asks) host answers rfl
            · exact .flowing [] rest 0 (if_neg asks) answers rfl (by simp)
                count (queued.tail asks)
      | cons first payload =>
          obtain ⟨rfl, restEq⟩ := List.cons.inj split
          obtain rfl : transfer = [] := by
            rw [List.flatten_cons, List.length_append] at count
            exact List.length_eq_zero_iff.mp (by omega)
          rw [if_pos (by simp)]
          refine ⟨?_, ?_, trivial⟩
          · intro line member
            rcases List.mem_append.mp member with before | last
            · exact inv.lines line before
            · obtain rfl := List.mem_singleton.mp last
              simp [commandLine]
          · have handling : (Device.handling []).remaining = some 0 := by
              simp [Device.remaining, values, startsDownload_nil]
            have later : ∀ t ∈ payload, IsPayload t :=
              fun t member => whole t (List.mem_cons_of_mem _ member)
            exact .flowing payload commands 0 handling answers restEq later
              (by simpa using count) queued
  | busy device => simp [idle] at device
  | announced _ _ _ _ _ _ _ none => simp [rx] at none
  | answered _ _ _ _ none => simp [rx] at none

theorem inv_inductive : (server.restrict KeepsFraming).Inductive Inv where
  initially := by
    refine ⟨by simp [CommandsOnly, System.restrict, server, startState], ?_,
      trivial⟩
    exact .flowing [] [] 0 rfl rfl rfl (by simp) rfl
      ⟨by simp, by simp, by simp [System.restrict, server, startState]⟩
  kept := by
    intro state next action inv restricted
    obtain ⟨keeps, steps⟩ := System.restrict_step_eq_some.mp restricted
    rw [server_step] at steps
    cases State.steps_of_step steps with
    | hostCommand ready short => exact inv.hostCommand ready short
    | hostPayload sending fits => exact inv.hostPayload sending fits
    | hostReceive responses => exact inv.hostReceive responses
    | readCommand waiting rx => exact inv.readCommand waiting rx
    | readCommandFails waiting =>
        refine ⟨inv.lines, inv.framed.same ⟨?_, rfl, rfl, rfl⟩, ?_⟩
        · rw [waiting, State.readCommandFails]
          simp only
          split <;> rfl
        · rw [State.readCommandFails]
          simp only
          split <;> trivial
    | startDownload handling request =>
        refine inv.startDownload ?_
        rw [handling]
        exact if_pos (by rw [startsDownload, request])
    | runLine handling other =>
        refine inv.runLine ?_
        rw [handling]
        exact if_neg (by simp [other])
    | prepare preparing => exact inv.prepare preparing keeps
    | receive receiving positive enough =>
        exact inv.receive receiving positive enough keeps
    | receiveFails => exact keeps.elim
    | finish receiving => exact inv.finish receiving

/-- A server that leaves no payload behind reads no payload as a command. -/
theorem server_commandsOnly {state : State}
    (reached : (server.restrict KeepsFraming).Reachable state) :
    CommandsOnly state :=
  (inv_inductive.reachable reached).lines

/-- A payload of six bytes that spell a command, and then the command. -/
def framedRun : List Action :=
  [.hostCommand smallCommand, .readCommand, .runLine idleIo .sent,
    .prepare none .sent .sent, .hostReceive, .hostPayload rebootBytes,
    .receive none .sent, .hostCommand rebootBytes, .finish none .sent .sent,
    .readCommand]

theorem server_commandsOnly_framedRun :
    ∃ state, (server.restrict KeepsFraming).Reachable state ∧
      CommandsOnly state ∧
      state.lines =
        [commandTransfer smallCommand, commandTransfer rebootBytes] := by
  have lines : ((server.restrict KeepsFraming).runFrom startState
      framedRun).map State.lines =
      some [commandTransfer smallCommand, commandTransfer rebootBytes] := by
    decide +kernel
  obtain ⟨state, runs, read⟩ := Option.map_eq_some_iff.mp lines
  exact ⟨state, ⟨framedRun, runs⟩, server_commandsOnly ⟨framedRun, runs⟩, read⟩

/-! ## A write error that turns payload into a command -/

def largeCommand : Bytes := Text.utf8 "download:00100006".toList

/-- One chunk and six more bytes. -/
def largeSize : Nat := transferChunk + 6

/-- The host has been told to send the payload. -/
def announcedState : State where
  host := .sending largeSize
  device := .receiving (File.empty.setLen largeSize) largeSize largeSize
  rx := []
  responses := []
  staged := none
  attempt := some ⟨[], false⟩
  lines := [commandTransfer largeCommand]
  observations := []

theorem announcedState_reachable : server.Reachable announcedState := by
  refine ⟨[.hostCommand largeCommand, .readCommand, .runLine idleIo .sent,
    .prepare none .sent .sent, .hostReceive], ?_⟩
  rfl

/-- The first chunk is on its way. -/
def chunkSentState : State :=
  announcedState.sendPayload largeSize (List.replicate transferChunk 0)

theorem chunkSentState_reachable : server.Reachable chunkSentState := by
  have fits : (List.replicate transferChunk (0 : UInt8)).length ≤ largeSize := by
    rw [List.length_replicate]
    exact Nat.le_add_right transferChunk 6
  have steps : server.step announcedState
      (.hostPayload (List.replicate transferChunk 0)) =
      some chunkSentState := by
    have sending : announcedState.host = .sending largeSize := rfl
    rw [server_step, State.step, sending]
    exact if_pos fits
  exact System.Reachable.next announcedState_reachable steps

/-- The payload is on its way. -/
def sentState : State := chunkSentState.sendPayload 6 rebootBytes

theorem sentState_rx : sentState.rx =
    [payloadTransfer (List.replicate transferChunk 0),
      payloadTransfer rebootBytes] := rfl

theorem sentState_reachable : server.Reachable sentState := by
  have steps : server.step chunkSentState (.hostPayload rebootBytes) =
      some sentState := by
    have sending : chunkSentState.host = .sending 6 := by
      rw [chunkSentState, State.sendPayload, List.length_replicate]
      rfl
    have length : rebootBytes.length = 6 := by decide +kernel
    rw [server_step, State.step, sending]
    exact if_pos (le_of_eq length)
  exact System.Reachable.next chunkSentState_reachable steps

/-- The write of the first chunk fails. -/
def abandonedState : State :=
  sentState.receiveChunk (File.empty.setLen largeSize) largeSize largeSize
    (some writeError) .sent

theorem chunkLen_large : State.chunkLen largeSize largeSize = transferChunk := by
  decide

theorem abandonedState_reachable : server.Reachable abandonedState := by
  have enough : State.chunkLen largeSize largeSize ≤
      sentState.rx.flatten.length := by
    rw [chunkLen_large, sentState_rx]
    simp [payloadTransfer]
  have steps : server.step sentState (.receive (some writeError) .sent) =
      some abandonedState := by
    rw [server_step]
    have receiving : sentState.device = .receiving
        (File.empty.setLen largeSize) largeSize largeSize := rfl
    simp only [State.step, receiving]
    exact if_pos ⟨by decide, enough⟩
  exact System.Reachable.next sentState_reachable steps

theorem abandonedState_rx :
    abandonedState.rx = [payloadTransfer rebootBytes] := by
  have transport : isUsbDisconnect writeError = false := by decide
  have drained : drain transferChunk sentState.rx =
      [payloadTransfer rebootBytes] :=
    drain_cons _ (by rw [payloadTransfer, List.length_map,
      List.length_replicate]; rfl)
  simp only [abandonedState, State.receiveChunk, State.downloadFails,
    transport, Bool.false_eq_true, if_false, State.take, chunkLen_large]
  exact drained

/-- The rest of the payload is read as a command. -/
theorem server_rebootFromPayload : ∃ state, server.Reachable state ∧
    payloadTransfer rebootBytes ∈ state.lines := by
  have idle : abandonedState.device = .waiting := by
    have transport : isUsbDisconnect writeError = false := by decide
    simp [abandonedState, State.receiveChunk, State.downloadFails, transport]
  have line : commandLine HostByte.value
      ((payloadTransfer rebootBytes).take commandMax) =
      payloadTransfer rebootBytes := by
    decide +kernel
  refine ⟨_, System.Reachable.next abandonedState_reachable (by
    rw [server_step _ .readCommand, State.step, idle, abandonedState_rx]), ?_⟩
  simp [State.readCommand, line]

theorem server_readsPayload :
    ¬∀ state, server.Reachable state → CommandsOnly state := by
  intro commandsOnly
  obtain ⟨state, reached, member⟩ := server_rebootFromPayload
  have payload : ∃ byte ∈ payloadTransfer rebootBytes, byte.payload = true := by
    decide +kernel
  obtain ⟨byte, inside, marked⟩ := payload
  have clean := commandsOnly state reached _ member byte inside
  exact absurd (clean.symm.trans marked) (by decide)

end Pocketboot.Fastboot
