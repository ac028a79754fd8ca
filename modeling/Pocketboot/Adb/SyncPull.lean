import Pocketboot.Adb.SyncProgress

/-!
# Pulls

The reply run of one `RECV`, from the time when the output thread is about to
take it until it is over.  While the file is not modified, the data that is
sent is the front of the file up to the thread's position in it.
-/

namespace Pocketboot.Adb

namespace SyncLink

variable {σ : Type}

/-- The packets of some chunks. -/
def DataPackets : List Bytes → List Bytes → Prop :=
  List.Forall₂ fun chunk packet => syncDataPacket chunk = .ok packet

/-- A run that ends in `DONE` holds the whole content. -/
def EndsPull (content : Bytes) (chunks : List Bytes) (packet : Bytes) : Prop :=
  IsFail packet ∨ chunks.flatten = content

/-- Where the thread is in the pull of a file with this content that it is
about to take when so much was taken and sent. -/
inductive Pulling (path content : Bytes) (taken : List SyncResponse)
    (sent : List Bytes) (link : SyncLink σ) : Prop
  | before {rest : List SyncResponse} (output : link.stream.output = .receive)
      (taken : link.taken = taken) (sent : link.sent = sent)
      (channel : link.stream.channel = .file path :: rest)
  | reads {size : Nat} {chunks body : List Bytes}
      (output : link.stream.output = .readFile path size) (positive : 0 < size)
      (taken : link.taken = taken ++ [.file path])
      (sent : link.sent = sent ++ body) (data : DataPackets chunks body)
      (front : chunks.flatten = content.take link.offset)
  | carries {payload chunk : Bytes} {size : Nat} {chunks body : List Bytes}
      (output : link.stream.output = .awaitCreditFor payload (.chunk path size) ∨
        link.stream.output = .sendFor payload (.chunk path size))
      (positive : 0 < size) (taken : link.taken = taken ++ [.file path])
      (sent : link.sent = sent ++ body) (data : DataPackets chunks body)
      (packet : syncDataPacket chunk = .ok payload)
      (front : chunks.flatten ++ chunk = content.take link.offset)
  | ends {payload : Bytes} {chunks body : List Bytes}
      (output : link.stream.output = .awaitCreditFor payload .response ∨
        link.stream.output = .sendFor payload .response)
      (taken : link.taken = taken ++ [.file path])
      (sent : link.sent = sent ++ body) (data : DataPackets chunks body)
      (last : EndsPull content chunks payload)
  | finished {payload : Bytes} {chunks body : List Bytes}
      (output : link.stream.output = .receive)
      (taken : link.taken = taken ++ [.file path])
      (sent : link.sent = sent ++ (body ++ [payload]))
      (data : DataPackets chunks body)
      (last : EndsPull content chunks payload)
  | stopped (output : link.stream.output = .done)
  | beyond (longer : taken.length + 1 < link.taken.length)

section

variable {fs : FileSystem σ} {lookup : σ → Bytes → Option FileNode}
  {maxPayload : UInt32} {path content : Bytes} {taken : List SyncResponse}
  {sent : List Bytes} {link next : SyncLink σ}

/-- Steps of the session only put responses behind the others. -/
theorem Pulling.congr (pulling : link.Pulling path content taken sent)
    (output : next.stream.output = link.stream.output)
    (taken' : next.taken = link.taken) (sent' : next.sent = link.sent)
    (offset : next.offset = link.offset)
    (channel : link.stream.channel <+: next.stream.channel) :
    next.Pulling path content taken sent := by
  cases pulling with
  | before waits first sends head =>
      obtain ⟨later, channel⟩ := channel
      rw [head, List.cons_append] at channel
      exact .before (output.trans waits) (taken'.trans first) (sent'.trans sends)
        channel.symm
  | reads waits positive last packets data front =>
      exact .reads (output.trans waits) positive (taken'.trans last)
        (sent'.trans packets) data (offset ▸ front)
  | carries waits positive last packets data packet front =>
      exact .carries (waits.imp output.trans output.trans) positive
        (taken'.trans last) (sent'.trans packets) data packet (offset ▸ front)
  | ends waits last packets data ended =>
      exact .ends (waits.imp output.trans output.trans) (taken'.trans last)
        (sent'.trans packets) data ended
  | finished waits last packets data ended =>
      exact .finished (output.trans waits) (taken'.trans last)
        (sent'.trans packets) data ended
  | stopped ended => exact .stopped (output.trans ended)
  | beyond longer => exact .beyond (taken' ▸ longer)

/-- What the thread takes is logged. -/
theorem receive_taken (received : link.receive fs maxPayload = some next) :
    (link.stream.channel = [] ∧ next.stream.output = .done) ∨
      ∃ response rest, link.stream.channel = response :: rest ∧
        next.taken = link.taken ++ [response] := by
  unfold receive at received
  cases channel : link.stream.channel with
  | nil =>
      simp only [channel, Stream.receive, Option.map_eq_some_iff] at received
      obtain ⟨stream, ended, rfl⟩ := received
      split at ended
      · obtain rfl := Option.some.inj ended
        exact .inl ⟨rfl, rfl⟩
      · cases ended
  | cons response rest =>
      refine .inr ⟨response, rest, rfl, ?_⟩
      cases response with
      | packet payload =>
          simp only [channel, Stream.receive, Option.map_some,
            Option.some.injEq] at received
          obtain rfl := received
          rfl
      | file path =>
          rcases opens : fs.openRead path link.worker.files with
            ⟨error | done, files⟩ <;>
          · simp only [channel, opens, Stream.receive, Option.map_some,
              Option.some.injEq] at received
            obtain rfl := received
            rfl

/-- The thread takes the pull. -/
private theorem receive_pulling {rest : List SyncResponse}
    (taken' : link.taken = taken) (sent' : link.sent = sent)
    (channel : link.stream.channel = .file path :: rest)
    (received : link.receive fs maxPayload = some next) :
    next.Pulling path content taken sent := by
  subst taken' sent'
  unfold receive at received
  rcases opens : fs.openRead path link.worker.files with ⟨error | done, files⟩
  · simp only [channel, opens, Stream.receive, Option.map_some,
      Option.some.injEq] at received
    obtain rfl := received
    rcases failedFor_cases (SyncM.about "open" path error) with
      ended | ⟨payload, told, fails⟩
    · exact .stopped ended
    · exact .ends (.inl told) rfl (List.append_nil _).symm .nil (.inl fails)
  · simp only [channel, opens, Stream.receive, Option.map_some,
      Option.some.injEq] at received
    obtain rfl := received
    refine .reads rfl ?_ rfl (List.append_nil _).symm .nil rfl
    have positive : 0 < syncChunk := by decide
    omega

/-- The thread reads on in the file. -/
private theorem readFile_pulling (keeps : fs.KeepsFiles lookup) {size : Nat}
    {chunks body : List Bytes} (positive : 0 < size)
    (taken' : link.taken = taken ++ [.file path])
    (sent' : link.sent = sent ++ body) (data : DataPackets chunks body)
    (front : chunks.flatten = content.take link.offset)
    (steady : (lookup link.worker.files path).map FileNode.content =
      some content) :
    (link.readFile fs path size).Pulling path content taken sent := by
  obtain ⟨node, found, rfl⟩ := Option.map_eq_some_iff.mp steady
  unfold readFile
  rcases reads : fs.read path link.offset size link.worker.files with
    ⟨error | chunk, files⟩
  · rcases failedFor_cases (SyncM.about "read" path error) with
      ended | ⟨payload, told, fails⟩
    · exact .stopped ended
    · exact .ends (.inl told) taken' sent' data (.inl fails)
  · obtain ⟨part, atEnd⟩ := keeps.reads path link.offset size _ node chunk found
      (by rw [reads])
    by_cases empty : chunk.take size = []
    · have stream :
          link.stream.readFile path size ⟨.ok chunk, .ok (), .sent⟩ =
            link.stream.setOutput
              (.awaitCreditFor (syncStatusPacket "DONE" 0) .response) := by
        simp only [Stream.readFile, if_pos empty]
      have none : chunk = [] := by
        rcases List.take_eq_nil_iff.mp empty with zero | none
        · omega
        · exact none
      refine .ends (.inl (congrArg Stream.output stream)) taken' sent' data
        (.inr ?_)
      rw [front, List.take_of_length_le (atEnd positive none)]
    · cases packet : syncDataPacket (chunk.take size) with
      | error fault =>
          have stream :
              link.stream.readFile path size ⟨.ok chunk, .ok (), .sent⟩ =
                link.stream.setOutput .done := by
            simp only [Stream.readFile, if_neg empty, packet]
          exact .stopped (congrArg Stream.output stream)
      | ok payload =>
          have stream :
              link.stream.readFile path size ⟨.ok chunk, .ok (), .sent⟩ =
                link.stream.setOutput
                  (.awaitCreditFor payload (.chunk path size)) := by
            simp only [Stream.readFile, if_neg empty, packet]
          refine .carries (.inl (congrArg Stream.output stream)) positive taken'
            sent' data packet ?_
          obtain ⟨rest, split⟩ := (List.take_prefix size chunk).trans part
          change _ = node.content.take (link.offset + (chunk.take size).length)
          rw [front, List.take_add, ← split, List.take_left]

/-- What was taken stays taken. -/
theorem stepOutput_taken {result : SendResult}
    (steps : link.stepOutput fs maxPayload result = some next) :
    link.taken.length ≤ next.taken.length := by
  unfold stepOutput at steps
  cases output : link.stream.output with
  | receive =>
      rw [output] at steps
      dsimp only at steps
      have received := receive_taken steps
      unfold receive at steps
      rcases received with ⟨channel, _⟩ | ⟨response, rest, _, taken⟩
      · simp only [channel, Option.map_eq_some_iff] at steps
        obtain ⟨stream, _, rfl⟩ := steps
        simp
      · simp [taken]
  | readFile path size =>
      rw [output] at steps
      obtain rfl := Option.some.inj steps
      exact le_rfl
  | awaitCreditFor payload after =>
      rw [output] at steps
      obtain ⟨stream, _, rfl⟩ := Option.map_eq_some_iff.mp steps
      exact le_rfl
  | sendFor payload after =>
      rw [output] at steps
      obtain rfl := Option.some.inj steps
      unfold send
      split <;> exact le_rfl
  | _ => simp [output] at steps

/-- A payload is sent, or the thread stops. -/
theorem send_cases (payload : Bytes) (after : SyncNext) (result : SendResult) :
    (link.send maxPayload payload after result).stream.output = .done ∨
      (link.send maxPayload payload after result).stream.output =
          State.resume after ∧
        (link.send maxPayload payload after result).sent =
          link.sent ++ [payload] ∧
        (link.send maxPayload payload after result).taken = link.taken ∧
        (link.send maxPayload payload after result).offset = link.offset := by
  unfold send
  split
  · exact .inl rfl
  · cases result with
    | sent => exact .inr ⟨rfl, rfl, rfl, rfl⟩
    | failed disconnect delivered => exact .inl rfl

theorem stepOutput_pulling (keeps : fs.KeepsFiles lookup)
    (pulling : link.Pulling path content taken sent)
    (steady : (lookup link.worker.files path).map FileNode.content =
      some content) {result : SendResult}
    (steps : link.stepOutput fs maxPayload result = some next) :
    next.Pulling path content taken sent := by
  have longer := stepOutput_taken steps
  unfold stepOutput at steps
  cases pulling with
  | before output first packets channel =>
      rw [output] at steps
      exact receive_pulling first packets channel steps
  | reads output positive last packets data front =>
      rw [output] at steps
      obtain rfl := Option.some.inj steps
      exact readFile_pulling keeps positive last packets data front steady
  | @carries payload chunk size chunks body output positive last packets data packet
      front =>
      rcases output with waits | sends
      · rw [waits] at steps
        obtain ⟨stream, credit, rfl⟩ := Option.map_eq_some_iff.mp steps
        rcases Stream.takeCredit_cases credit with ⟨_, rfl⟩ | ⟨_, rfl⟩
        · exact .stopped rfl
        · exact .carries (.inr rfl) positive last packets data packet front
      · rw [sends] at steps
        obtain rfl := Option.some.inj steps
        rcases @send_cases _ maxPayload link payload (.chunk path size) result with
          ended | ⟨resumed, more, kept, offset⟩
        · exact .stopped ended
        · refine @Pulling.reads _ _ _ _ _ _ size (chunks ++ [chunk])
            (body ++ [payload]) resumed positive (kept.trans last) ?_ ?_ ?_
          · rw [more, packets, List.append_assoc]
          · exact List.rel_append data (.cons packet .nil)
          · rw [offset, List.flatten_append, List.flatten_singleton, front]
  | @ends payload chunks body output last packets data ended =>
      rcases output with waits | sends
      · rw [waits] at steps
        obtain ⟨stream, credit, rfl⟩ := Option.map_eq_some_iff.mp steps
        rcases Stream.takeCredit_cases credit with ⟨_, rfl⟩ | ⟨_, rfl⟩
        · exact .stopped rfl
        · exact .ends (.inr rfl) last packets data ended
      · rw [sends] at steps
        obtain rfl := Option.some.inj steps
        rcases @send_cases _ maxPayload link payload .response result with
          stops | ⟨resumed, more, kept, _⟩
        · exact .stopped stops
        · refine .finished resumed (kept.trans last) ?_ data ended
          rw [more, packets, List.append_assoc]
  | finished output last packets data ended =>
      rw [output] at steps
      rcases receive_taken steps with ⟨_, stops⟩ | ⟨response, rest, _, taken'⟩
      · exact .stopped stops
      · refine .beyond ?_
        rw [taken', last, List.length_append, List.length_append]
        simp
  | stopped output =>
      rw [output] at steps
      cases steps
  | beyond long => exact .beyond (long.trans_le longer)

/-- The link while a file has this content. -/
def steady (fs : FileSystem σ) (lookup : σ → Bytes → Option FileNode)
    (maxPayload : UInt32) (files : σ) (path content : Bytes) :
    Transition.System (SyncLink σ) SyncAction :=
  (syncLink fs maxPayload files).restrict fun link _ =>
    (lookup link.worker.files path).map FileNode.content = some content

theorem steady_pulling (keeps : fs.KeepsFiles lookup) (files : σ)
    {schedule : List SyncAction}
    (pulling : link.Pulling path content taken sent)
    (runs : (steady fs lookup maxPayload files path content).runFrom link
      schedule = some next) : next.Pulling path content taken sent := by
  induction schedule generalizing link with
  | nil =>
      obtain rfl := Option.some.inj runs
      exact pulling
  | cons action schedule induction =>
      obtain ⟨middle, steps, runs⟩ :=
        Transition.System.runFrom_cons_eq_some.mp runs
      refine induction ?_ runs
      obtain ⟨same, steps⟩ := Transition.System.restrict_step_eq_some.mp steps
      cases action with
      | arrive payload =>
          change link.arrive payload = some middle at steps
          unfold arrive at steps
          split at steps
          · cases steps
          · obtain rfl := Option.some.inj steps
            exact pulling.congr rfl rfl rfl rfl (List.prefix_refl _)
      | handle =>
          obtain ⟨_, message, size, _, rfl | rfl⟩ := handle_cases steps
          · exact pulling.congr rfl rfl rfl rfl (List.prefix_refl _)
          · obtain ⟨_, channel, output, taken', sent', _, offset⟩ :=
              link.performed_frame fs message size
            exact pulling.congr output taken' sent' offset
              (channel ▸ List.prefix_append _ _)
      | output result => exact stepOutput_pulling keeps pulling same steps
      | okay =>
          obtain rfl := Option.some.inj steps
          exact pulling.congr rfl rfl rfl rfl (List.prefix_refl _)
      | close =>
          obtain rfl := Option.some.inj steps
          exact pulling.congr rfl rfl rfl rfl (List.prefix_refl _)

/-- The reply run of a pull whose file is not modified meanwhile. -/
theorem steady_pulls (keeps : fs.KeepsFiles lookup) (files : σ)
    {schedule : List SyncAction} {rest : List SyncResponse}
    (waits : link.stream.output = .receive)
    (channel : link.stream.channel = .file path :: rest)
    (runs : (steady fs lookup maxPayload files path content).runFrom link
      schedule = some next)
    (taken' : next.taken = link.taken ++ [.file path])
    (ended : next.stream.output = .receive) :
    ∃ chunks body last, next.sent = link.sent ++ (body ++ [last]) ∧
      DataPackets chunks body ∧
        (last = syncStatusPacket "DONE" 0 → chunks.flatten = content) := by
  have pulling := steady_pulling keeps files (.before waits rfl rfl channel) runs
  cases pulling with
  | before _ same => simp [same] at taken'
  | reads output => rw [output] at ended; cases ended
  | carries output =>
      rcases output with output | output <;> rw [output] at ended <;> cases ended
  | ends output =>
      rcases output with output | output <;> rw [output] at ended <;> cases ended
  | @finished payload chunks body _ _ packets data last =>
      refine ⟨chunks, body, payload, packets, data, ?_⟩
      rintro rfl
      rcases last with fails | whole
      · exact absurd fails.id (by decide)
      · exact whole
  | stopped output => rw [output] at ended; cases ended
  | beyond longer => simp [taken'] at longer

end

end SyncLink

end Pocketboot.Adb
