import Pocketboot.Adb.Steps
import Pocketboot.Adb.SyncLink
import Pocketboot.Adb.SyncReplies

/-!
# What the output thread has delivered

The output thread takes the responses in the order in which they were queued,
and delivers the packets of each before it takes the next.
-/

namespace Pocketboot.Adb

/-- A read changes only where the thread is. -/
theorem Stream.readFile_eq_setOutput (stream : Stream) (path : Bytes)
    (size : Nat) (io : OutputIo) :
    ∃ output, stream.readFile path size io = stream.setOutput output := by
  unfold Stream.readFile
  split
  · exact ⟨_, rfl⟩
  · dsimp only
    split
    · exact ⟨_, rfl⟩
    · split <;> exact ⟨_, rfl⟩

namespace SyncLink

variable {σ : Type}

/-- Where the thread is in the response it took last. -/
inductive Delivers (link : SyncLink σ) : Prop
  | waits (output : link.stream.output = .receive)
      (complete : deliveries.Complete link.taken link.sent)
  | pulls {path : Bytes} {size : Nat} {front : List SyncResponse}
      {packets part : List Bytes}
      (output : link.stream.output = .readFile path size)
      (taken : link.taken = front ++ [.file path])
      (complete : deliveries.Complete front packets)
      (sent : link.sent = packets ++ part)
      (inside : deliveries.Part (.file path) part)
  | carries {payload : Bytes} {next : SyncNext} {front : List SyncResponse}
      {response : SyncResponse} {packets part : List Bytes}
      (output : link.stream.output = .awaitCreditFor payload next ∨
        link.stream.output = .sendFor payload next)
      (taken : link.taken = front ++ [response])
      (complete : deliveries.Complete front packets)
      (sent : link.sent = packets ++ part)
      (inside : deliveries.Part response part)
      (goes : (next = .response ∧ deliveries.ends response payload) ∨
        ∃ path size, response = .file path ∧ next = .chunk path size ∧
          IsData payload)
  | stopped (output : link.stream.output = .done)
      (streams : deliveries.Streams link.taken link.sent)

/-- At every time the responses taken are delivered in order. -/
theorem Delivers.streams {link : SyncLink σ} (delivers : link.Delivers) :
    deliveries.Streams link.taken link.sent := by
  cases delivers with
  | waits _ complete =>
      have streams := complete.streams Stage.Streams.idle
      rwa [List.append_nil, List.append_nil] at streams
  | pulls _ taken complete sent inside =>
      rw [taken, sent]
      exact complete.streams (.within inside)
  | carries _ taken complete sent inside =>
      rw [taken, sent]
      exact complete.streams (.within inside)
  | stopped _ streams => exact streams

/-- Steps of the session and of the flow do not touch what was delivered. -/
theorem Delivers.congr {link other : SyncLink σ} (delivers : link.Delivers)
    (output : other.stream.output = link.stream.output)
    (taken : other.taken = link.taken) (sent : other.sent = link.sent) :
    other.Delivers := by
  cases delivers with
  | waits waiting complete =>
      exact .waits (output.trans waiting) (taken ▸ sent ▸ complete)
  | pulls reads last complete packets inside =>
      exact .pulls (output.trans reads) (taken.trans last) complete
        (sent.trans packets) inside
  | carries carried last complete packets inside goes =>
      exact .carries (carried.imp output.trans output.trans) (taken.trans last)
        complete (sent.trans packets) inside goes
  | stopped ended streams =>
      exact .stopped (output.trans ended) (taken ▸ sent ▸ streams)

/-- A thread that stops has delivered what it has delivered. -/
theorem Delivers.stop {link other : SyncLink σ} (delivers : link.Delivers)
    (output : other.stream.output = .done)
    (taken : link.taken <+: other.taken) (sent : other.sent = link.sent) :
    other.Delivers := by
  obtain ⟨later, taken⟩ := taken
  refine .stopped output ?_
  rw [← taken, sent]
  exact delivers.streams.more later

theorem failedFor_cases (message : Text) :
    failedFor message = .done ∨
      ∃ payload, failedFor message = .awaitCreditFor payload .response ∧
        IsFail payload := by
  unfold failedFor
  cases told : syncFailPacket message with
  | error fault => exact .inl rfl
  | ok payload => exact .inr ⟨payload, rfl, message, told⟩

section

variable {fs : FileSystem σ} {maxPayload : UInt32} {link next : SyncLink σ}

private theorem receive_delivers (waits : link.stream.output = .receive)
    (complete : deliveries.Complete link.taken link.sent)
    (received : link.receive fs maxPayload = some next) : next.Delivers := by
  have delivers : link.Delivers := .waits waits complete
  unfold receive at received
  cases channel : link.stream.channel with
  | nil =>
      simp only [channel, Stream.receive, Option.map_eq_some_iff] at received
      obtain ⟨stream, ended, rfl⟩ := received
      split at ended
      · obtain rfl := Option.some.inj ended
        exact delivers.stop rfl ⟨[], rfl⟩ rfl
      · cases ended
  | cons response rest =>
      cases response with
      | packet payload =>
          simp only [channel, Stream.receive, Option.map_some,
            Option.some.injEq] at received
          obtain rfl := received
          exact .carries (.inl rfl) rfl complete (List.append_nil _).symm
            (Stage.Part.nil _) (.inl ⟨rfl, rfl⟩)
      | file path =>
          rcases opens : fs.openRead path link.worker.files with
            ⟨error | done, files⟩
          · simp only [channel, opens, Stream.receive, Option.map_some,
              Option.some.injEq] at received
            obtain rfl := received
            rcases failedFor_cases (SyncM.about "open" path error) with
              ended | ⟨payload, told, fails⟩
            · exact delivers.stop ended ⟨[.file path], rfl⟩ rfl
            · exact .carries (.inl told) rfl complete (List.append_nil _).symm
                (Stage.Part.nil _) (.inl ⟨rfl, .inr fails⟩)
          · simp only [channel, opens, Stream.receive, Option.map_some,
              Option.some.injEq] at received
            obtain rfl := received
            exact .pulls rfl rfl complete (List.append_nil _).symm
              (Stage.Part.nil _)

private theorem readFile_delivers {path : Bytes} {size : Nat}
    {front : List SyncResponse} {packets part : List Bytes}
    (delivers : link.Delivers) (taken : link.taken = front ++ [.file path])
    (complete : deliveries.Complete front packets)
    (sent : link.sent = packets ++ part)
    (inside : deliveries.Part (.file path) part) :
    (link.readFile fs path size).Delivers := by
  unfold readFile
  rcases reads : fs.read path link.offset size link.worker.files with
    ⟨error | content, files⟩
  · rcases failedFor_cases (SyncM.about "read" path error) with
      ended | ⟨payload, told, fails⟩
    · exact delivers.stop ended ⟨[], List.append_nil _⟩ rfl
    · exact .carries (.inl told) taken complete sent inside
        (.inl ⟨rfl, .inr fails⟩)
  · by_cases empty : content.take size = []
    · have stream :
          link.stream.readFile path size ⟨.ok content, .ok (), .sent⟩ =
            link.stream.setOutput
              (.awaitCreditFor (syncStatusPacket "DONE" 0) .response) := by
        simp only [Stream.readFile, if_pos empty]
      refine .carries (.inl (congrArg Stream.output stream)) taken complete sent
        inside (.inl ⟨rfl, .inl rfl⟩)
    · cases packet : syncDataPacket (content.take size) with
      | error fault =>
          have stream :
              link.stream.readFile path size ⟨.ok content, .ok (), .sent⟩ =
                link.stream.setOutput .done := by
            simp only [Stream.readFile, if_neg empty, packet]
          exact delivers.stop (congrArg Stream.output stream)
            ⟨[], List.append_nil _⟩ rfl
      | ok payload =>
          have stream :
              link.stream.readFile path size ⟨.ok content, .ok (), .sent⟩ =
                link.stream.setOutput
                  (.awaitCreditFor payload (.chunk path size)) := by
            simp only [Stream.readFile, if_neg empty, packet]
          exact .carries (.inl (congrArg Stream.output stream)) taken complete
            sent inside (.inr ⟨path, size, rfl, rfl, _, packet⟩)

private theorem send_delivers {payload : Bytes} {after : SyncNext}
    {front : List SyncResponse} {response : SyncResponse}
    {packets part : List Bytes} (delivers : link.Delivers)
    (taken : link.taken = front ++ [response])
    (complete : deliveries.Complete front packets)
    (sent : link.sent = packets ++ part)
    (inside : deliveries.Part response part)
    (goes : (after = .response ∧ deliveries.ends response payload) ∨
      ∃ path size, response = .file path ∧ after = .chunk path size ∧
        IsData payload) (result : SendResult) :
    (link.send maxPayload payload after result).Delivers := by
  unfold send
  split
  · exact delivers.stop rfl ⟨[], List.append_nil _⟩ rfl
  · cases delivered : result.delivered with
    | false =>
        have failed : result.fault ≠ none := by
          cases result <;> simp_all [SendResult.delivered, SendResult.fault]
        rw [if_neg failed]
        exact delivers.stop rfl ⟨[], List.append_nil _⟩ rfl
    | true =>
        rcases goes with ⟨rfl, ends⟩ | ⟨path, size, rfl, rfl, data⟩
        · have whole := complete.append (.single (inside.concat_whole ends))
          rw [← List.append_assoc, ← sent, ← taken] at whole
          by_cases fine : result.fault = none
          · rw [if_pos fine]
            exact .waits rfl whole
          · rw [if_neg fine]
            have streams := whole.streams Stage.Streams.idle
            rw [List.append_nil, List.append_nil] at streams
            exact .stopped rfl streams
        · have more := inside.concat
            (show deliveries.continues (.file path) payload from data)
          by_cases fine : result.fault = none
          · rw [if_pos fine]
            exact .pulls rfl taken complete
              (by rw [← List.append_assoc, ← sent]; rfl) more
          · rw [if_neg fine]
            refine .stopped rfl ?_
            have streams : deliveries.Streams (front ++ [.file path])
                (packets ++ (part ++ [payload])) :=
              complete.streams (.within more)
            rw [← List.append_assoc, ← sent, ← taken] at streams
            exact streams

theorem stepOutput_delivers {result : SendResult} (delivers : link.Delivers)
    (steps : link.stepOutput fs maxPayload result = some next) :
    next.Delivers := by
  unfold stepOutput at steps
  cases delivers with
  | waits output complete =>
      rw [output] at steps
      exact receive_delivers output complete steps
  | pulls output taken complete sent inside =>
      rw [output] at steps
      obtain rfl := Option.some.inj steps
      exact readFile_delivers (.pulls output taken complete sent inside) taken
        complete sent inside
  | @carries payload after _ _ _ _ output taken complete sent inside goes =>
      have delivers : link.Delivers :=
        .carries output taken complete sent inside goes
      rcases output with waits | sends
      · rw [waits] at steps
        obtain ⟨stream, credit, rfl⟩ := Option.map_eq_some_iff.mp steps
        rcases Stream.takeCredit_cases credit with ⟨_, rfl⟩ | ⟨_, rfl⟩
        · exact delivers.stop rfl ⟨[], List.append_nil _⟩ rfl
        · exact .carries (.inr rfl) taken complete sent inside goes
      · rw [sends] at steps
        obtain rfl := Option.some.inj steps
        exact send_delivers delivers taken complete sent inside goes result
  | stopped output streams => simp [output] at steps

end

/-- What every step keeps of the queue and of what was delivered. -/
structure Served (link : SyncLink σ) : Prop where
  queued : link.worker.responses = link.taken ++ link.stream.channel
  delivers : link.Delivers

theorem receive_queued {fs : FileSystem σ} {maxPayload : UInt32}
    {link next : SyncLink σ}
    (queued : link.worker.responses = link.taken ++ link.stream.channel)
    (received : link.receive fs maxPayload = some next) :
    next.worker.responses = next.taken ++ next.stream.channel := by
  unfold receive at received
  cases channel : link.stream.channel with
  | nil =>
      simp only [channel, Stream.receive, Option.map_eq_some_iff] at received
      obtain ⟨stream, ended, rfl⟩ := received
      split at ended
      · obtain rfl := Option.some.inj ended
        simpa [setStream, Stream.setOutput, channel] using queued
      · cases ended
  | cons response rest =>
      rw [channel, List.append_cons] at queued
      cases response with
      | packet payload =>
          simp only [channel, Stream.receive, Option.map_some,
            Option.some.injEq] at received
          obtain rfl := received
          exact queued
      | file path =>
          rcases opens : fs.openRead path link.worker.files with
            ⟨error | done, files⟩ <;>
          · simp only [channel, opens, Stream.receive, Option.map_some,
              Option.some.injEq] at received
            obtain rfl := received
            exact queued

theorem stepOutput_queued {fs : FileSystem σ} {maxPayload : UInt32}
    {link next : SyncLink σ} {result : SendResult}
    (queued : link.worker.responses = link.taken ++ link.stream.channel)
    (steps : link.stepOutput fs maxPayload result = some next) :
    next.worker.responses = next.taken ++ next.stream.channel := by
  unfold stepOutput at steps
  cases output : link.stream.output with
  | receive =>
      rw [output] at steps
      exact receive_queued queued steps
  | readFile path size =>
      rw [output] at steps
      obtain rfl := Option.some.inj steps
      obtain ⟨after, stream⟩ := link.stream.readFile_eq_setOutput path size
        ⟨(fs.read path link.offset size link.worker.files).1, .ok (), .sent⟩
      change link.worker.responses =
        link.taken ++ (link.stream.readFile path size _).channel
      rw [stream]
      exact queued
  | awaitCreditFor payload after =>
      rw [output] at steps
      obtain ⟨stream, credit, rfl⟩ := Option.map_eq_some_iff.mp steps
      rcases Stream.takeCredit_cases credit with ⟨_, rfl⟩ | ⟨_, rfl⟩ <;>
        exact queued
  | sendFor payload after =>
      rw [output] at steps
      obtain rfl := Option.some.inj steps
      unfold send
      split <;> exact queued
  | _ => simp [output] at steps

theorem served (fs : FileSystem σ) (maxPayload : UInt32) (files : σ) :
    (syncLink fs maxPayload files).Inductive Served where
  initially := ⟨rfl, .waits rfl .nil⟩
  kept := by
    intro link next action kept steps
    cases action with
    | arrive payload =>
        change link.arrive payload = some next at steps
        unfold arrive at steps
        split at steps
        · cases steps
        · obtain rfl := Option.some.inj steps
          exact ⟨kept.queued, kept.delivers.congr rfl rfl rfl⟩
    | handle =>
        obtain ⟨_, message, size, _, rfl | rfl⟩ := handle_cases steps
        · exact ⟨kept.queued, kept.delivers.congr rfl rfl rfl⟩
        · obtain ⟨worker, channel, output, taken, sent, _⟩ :=
            link.performed_frame fs message size
          refine ⟨?_, kept.delivers.congr output taken sent⟩
          rw [worker, channel, taken, perform_responses, kept.queued,
            List.append_assoc]
    | output result =>
        exact ⟨stepOutput_queued kept.queued steps,
          stepOutput_delivers kept.delivers steps⟩
    | okay =>
        obtain rfl := Option.some.inj steps
        exact ⟨kept.queued, kept.delivers.congr rfl rfl rfl⟩
    | close =>
        obtain rfl := Option.some.inj steps
        exact ⟨kept.queued, kept.delivers.congr rfl rfl rfl⟩

end SyncLink

end Pocketboot.Adb
