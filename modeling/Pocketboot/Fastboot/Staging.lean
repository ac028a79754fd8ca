import Pocketboot.Fastboot.Server

/-!
# What the staging area holds

The staging area is meant to hold what the last producer attempt put there, or
nothing.  Handlers that only consume it leave it alone; a producer clears it
before any step that may fail and fills it once.
-/

namespace Pocketboot.Fastboot

open Stateful

/-! ## The meaning of the staging area -/

/-- The payload an attempt has left behind. -/
def Attempt.area : Option Attempt → Option Bytes
  | some ⟨source, true⟩ => some source
  | _ => none

/-- The staging area holds exactly this payload, with its length. -/
def Denotes (staged : Option StagedData) : Option Bytes → Prop
  | none => staged = none
  | some payload => ∃ data, staged = some data ∧ data.content = payload ∧
      data.len = payload.length

theorem denotes_none {area : Option Bytes} :
    Denotes none area ↔ area = none := by
  cases area <;> simp [Denotes]

theorem denotes_some {data : StagedData} {area : Option Bytes} :
    Denotes (some data) area ↔ ∃ payload, area = some payload ∧
      data.content = payload ∧ data.len = payload.length := by
  cases area with
  | none => simp [Denotes]
  | some payload =>
      constructor
      · rintro ⟨same, found, content, length⟩
        obtain rfl := Option.some.inj found
        exact ⟨payload, rfl, content, length⟩
      · rintro ⟨same, found, content, length⟩
        obtain rfl := Option.some.inj found
        exact ⟨data, rfl, content, length⟩

/-- What a consumer has seen is the payload, read from its start. -/
def Agrees (area : Option Bytes) : Observed → Prop
  | .nothing => area = none
  | .tooLarge => ∃ payload, area = some payload ∧ 2 ^ 32 ≤ payload.length
  | .length size => ∃ payload, area = some payload ∧ size = payload.length
  | .opened file => area = some file.content ∧ file.position = 0
  | .sent bytes complete => ∃ payload, area = some payload ∧
      bytes <+: payload ∧ (complete = true → bytes = payload)

/-! ## Files -/

namespace File

/-- A write that leaves no gap. -/
theorem writeAll_inside {file : File} (data : Bytes)
    (inside : file.position ≤ file.content.length) :
    file.writeAll data =
      ⟨file.content.take file.position ++ data ++
        file.content.drop (file.position + data.length),
        file.position + data.length⟩ := by
  unfold writeAll setLen
  have whole : file.position ≤
      max file.content.length (file.position + data.length) := by omega
  simp only
  rw [List.take_append_of_le_length (by rw [List.length_take]; omega),
    List.take_take, min_eq_left whole]

/-- A write at the end of the file. -/
theorem writeAll_end {file : File} (data : Bytes)
    (atEnd : file.position = file.content.length) :
    file.writeAll data =
      ⟨file.content ++ data, (file.content ++ data).length⟩ := by
  rw [writeAll_inside data (le_of_eq atEnd), atEnd, List.take_length,
    List.drop_of_length_le (by omega), List.append_nil, List.length_append]

/-- A write over zeros that are still to be overwritten. -/
theorem writeAll_zeros {front data : Bytes} {count : Nat} :
    (File.mk (front ++ List.replicate count 0) front.length).writeAll data =
      ⟨front ++ data ++ List.replicate (count - data.length) 0,
        (front ++ data).length⟩ := by
  rw [writeAll_inside data (by simp)]
  simp [List.drop_append, List.drop_of_length_le]

theorem readExact_some {file next : File} {count : Nat} {data : Bytes}
    (read : file.readExact count = some (data, next)) :
    data.length = count ∧ next.content = file.content ∧
      next.position = file.position + count ∧
      file.content.drop file.position =
        data ++ next.content.drop next.position := by
  unfold readExact at read
  simp only at read
  split at read
  · rename_i fits
    simp only [Option.some.injEq, Prod.mk.injEq] at read
    obtain ⟨rfl, rfl⟩ := read
    refine ⟨?_, rfl, rfl, Bytes.drop_eq_slice_append _ (by omega)⟩
    rw [Bytes.slice_length_of_le fits, Nat.add_sub_cancel_left]
  · simp at read

end File

namespace StagedData

theorem asFile_content (staged : StagedData) :
    staged.asFile.content = staged.content := by
  unfold asFile content
  cases staged.payload with
  | memory data =>
      simp only [File.seekStart]
      rw [File.writeAll_end data rfl]
      rfl
  | file file size => rfl

theorem asFile_position (staged : StagedData) :
    staged.asFile.position = 0 := by
  unfold asFile
  cases staged.payload with
  | memory data => rfl
  | file file size => rfl

end StagedData

namespace Session

/-! ## Packets do not touch the staging area -/

/-- The predicate says nothing about the packets sent. -/
def IgnoresPackets (holds : SessionState → Prop) : Prop :=
  ∀ state packets responses, holds state →
    holds { state with packets := packets, responses := responses }

section

variable {io : CommandIo} {holds : SessionState → Prop}

theorem check_keeps (error : Option OsError) : Keeps holds (check error) := by
  cases error with
  | none => exact .pure ()
  | some error => exact .fail error

theorem ofExcept_keeps {α : Type} (outcome : Except OsError α) :
    Keeps holds (ofExcept outcome) := by
  cases outcome with
  | ok item => exact .pure item
  | error error => exact .fail error

theorem parameter_keeps (start wrong missing : String) (command : Text) :
    Keeps holds (parameter start wrong missing command) := by
  unfold parameter
  split
  · exact .fail _
  · split
    · exact .fail _
    · exact .pure _

/-- The session after a packet. -/
theorem writePacket_ends (response : Response) (state : SessionState) :
    Ends (writePacket io response) state fun _ last =>
      last = { state with
        packets := state.packets + 1
        responses :=
          if (io.respond state.packets).delivered then
            state.responses ++ [response]
          else state.responses } := by
  refine Ends.bind (Ends.get ?_)
  refine Ends.bind (Ends.set ?_)
  cases io.respond state.packets with
  | sent => exact Ends.pure (by simp)
  | failed error delivered => exact Ends.fail (by simp)

variable (ignores : IgnoresPackets holds)

include ignores

theorem writePacket_keeps (response : Response) :
    Keeps holds (writePacket io response) := fun state before =>
  (writePacket_ends response state).mono fun _ _ told =>
    told ▸ ignores state _ _ before

theorem writePackets_keeps (status : Status) (chunks : List Bytes) :
    Keeps holds (writePackets io status chunks) := by
  induction chunks with
  | nil => exact .pure ()
  | cons chunk rest induction =>
      exact (writePacket_keeps ignores _).bind fun _ => induction

theorem info_keeps (message : Text) : Keeps holds (info io message) :=
  writePackets_keeps ignores _ _

theorem infos_keeps (messages : List Text) :
    Keeps holds (infos io messages) := by
  induction messages with
  | nil => exact .pure ()
  | cons message rest induction =>
      exact (info_keeps ignores message).bind fun _ => induction

theorem okay_keeps (message : Text) : Keeps holds (okay io message) :=
  writePacket_keeps ignores _

theorem fail_keeps (message : Text) : Keeps holds (fail io message) :=
  writePacket_keeps ignores _

theorem data_keeps (size : Nat) : Keeps holds (data io size) :=
  writePacket_keeps ignores _

theorem writeResponses_keeps (responses : List Response) :
    Keeps holds (writeResponses io responses) := by
  induction responses with
  | nil => exact .pure ()
  | cons response rest induction =>
      exact (writePacket_keeps ignores response).bind fun _ => induction

/-- Reporting the error of a handler adds only packets. -/
theorem handleCommand_ends {command : Text} {handler : Handler}
    {state : SessionState}
    (ends : Ends (runHandler io command handler) state
      fun _ last => holds last) :
    Ends (handleCommand io command handler) state fun _ last => holds last := by
  refine Ends.attempt_bind ends ?_
  intro outcome middle kept
  have reported : ∀ message : Text, Keeps holds
      (do fail io message; return ServerStep.proceed) :=
    fun message => (fail_keeps ignores message).bind fun _ => .pure _
  split
  · exact Ends.pure kept
  · split
    · exact Ends.fail kept
    · exact reported _ middle kept
  · exact Ends.throw kept

end

/-! ## Consumers -/

/-- A command that has only consumed: the staging area is the one it found, and
so many bytes have been uploaded from it. -/
structure Consuming (staged : Option StagedData) (area : Option Bytes)
    (uploaded : Bytes) (state : SessionState) : Prop where
  staged : state.staged = staged
  idle : state.put = false ∧ state.source = []
  uploaded : state.uploaded = uploaded
  observed : ∀ observed ∈ state.observed, Agrees area observed

section

variable {io : CommandIo} {staged : Option StagedData} {area : Option Bytes}
  {uploaded : Bytes}

theorem consuming_ignoresPackets :
    IgnoresPackets (Consuming staged area uploaded) :=
  fun _ _ _ before => ⟨before.staged, before.idle, before.uploaded,
    before.observed⟩

theorem observe_keeps {observed : Observed} (agrees : Agrees area observed) :
    Keeps (Consuming staged area uploaded) (observe observed) := by
  refine .modify fun state before =>
    ⟨before.staged, before.idle, before.uploaded, ?_⟩
  intro seen member
  rcases List.mem_append.mp member with earlier | last
  · exact before.observed seen earlier
  · obtain rfl := List.mem_singleton.mp last
    exact agrees

theorem asFile_keeps {data : StagedData} (denotes : Denotes (some data) area) :
    Keeps (Consuming (some data) area uploaded) (asFile io data) := by
  refine (check_keeps _).bind fun _ => ?_
  refine (observe_keeps ?_).bind fun _ => .pure _
  obtain ⟨payload, rfl, content, _⟩ := denotes_some.mp denotes
  exact ⟨by rw [data.asFile_content, content], data.asFile_position⟩

theorem stagedFile_keeps (denotes : Denotes staged area) :
    Keeps (Consuming staged area uploaded) (stagedFile io) := by
  refine .get fun state before => ?_
  rw [before.staged]
  cases staged with
  | none =>
      refine (observe_keeps ?_).bind (fun _ => .fail noStagedData) state before
      exact denotes_none.mp denotes
  | some data => exact asFile_keeps denotes state before

theorem stagedLen_keeps (denotes : Denotes staged area) :
    Keeps (Consuming staged area uploaded) stagedLen := by
  refine .get fun state before => ?_
  rw [before.staged]
  cases staged with
  | none =>
      refine (observe_keeps ?_).bind (fun _ => .fail noStagedData) state before
      exact denotes_none.mp denotes
  | some data =>
      obtain ⟨payload, rfl, _, length⟩ := denotes_some.mp denotes
      refine (observe_keeps ?_).bind (fun _ => .pure _) state before
      exact ⟨payload, rfl, length⟩

theorem loadStaged_keeps (denotes : Denotes staged area) :
    Keeps (Consuming staged area uploaded) (loadStaged io) :=
  (stagedFile_keeps denotes).bind fun _ => ofExcept_keeps _

theorem boot_keeps (denotes : Denotes staged area) :
    Keeps (Consuming staged area uploaded) (boot io) :=
  (loadStaged_keeps denotes).bind fun _ =>
    (okay_keeps consuming_ignoresPackets _).bind fun _ => .pure _

theorem kexecLoad_keeps (denotes : Denotes staged area) :
    Keeps (Consuming staged area uploaded) (kexecLoad io) :=
  (loadStaged_keeps denotes).bind fun _ =>
    (okay_keeps consuming_ignoresPackets _).bind fun _ => .pure _

theorem flash_keeps (denotes : Denotes staged area) (command : Text) :
    Keeps (Consuming staged area uploaded) (flash io command) := by
  have packets := @consuming_ignoresPackets staged area uploaded
  refine (parameter_keeps _ _ _ _).bind fun _ => ?_
  refine (ofExcept_keeps _).bind fun name => ?_
  refine (stagedLen_keeps denotes).bind fun size => ?_
  split
  · exact .fail _
  · refine (stagedFile_keeps denotes).bind fun _ => ?_
    refine (ofExcept_keeps _).bind fun checks => ?_
    refine (infos_keeps packets checks).bind fun _ => ?_
    refine (ofExcept_keeps _).bind fun messages => ?_
    refine (infos_keeps packets messages).bind fun _ => ?_
    exact (okay_keeps packets _).bind fun _ => .pure _

theorem other_keeps : Keeps (Consuming staged area uploaded) (other io) :=
  (writeResponses_keeps consuming_ignoresPackets _).bind fun _ =>
    (ofExcept_keeps _).bind fun _ => .pure _

/-- Reading the script to run is consuming. -/
theorem readStagedCommand_keeps (denotes : Denotes staged area) :
    Keeps (Consuming staged area uploaded) (readStagedCommand io) := by
  refine (stagedFile_keeps denotes).bind fun file => ?_
  refine (check_keeps _).bind fun _ => ?_
  refine (Keeps.ofOption _ _).bind fun command => ?_
  split
  · exact .fail _
  · split
    · exact .fail _
    · exact .pure _

/-! ## Uploads -/

/-- Part of the payload has been uploaded, all of it if nothing failed. -/
def Uploading (staged : Option StagedData) (payload uploaded : Bytes) :
    Run OsError Unit → SessionState → Prop
  | .ok _ => Consuming staged (some payload) uploaded
  | .error _ => fun last => ∃ part, Consuming staged (some payload) part last

theorem sendPayload_ends {payload part : Bytes} {state : SessionState}
    (before : Consuming staged (some payload) uploaded state)
    (isPrefix : uploaded ++ part <+: payload) :
    Ends (sendPayload io part) state
      (Uploading staged payload (uploaded ++ part)) := by
  have next : ∀ bytes, uploaded ++ bytes <+: payload →
      Consuming staged (some payload) (uploaded ++ bytes)
        { state with
          parts := state.parts + 1
          uploaded := state.uploaded ++ bytes
          observed :=
            state.observed ++ [.sent (state.uploaded ++ bytes) false] } := by
    intro bytes begins
    refine ⟨before.staged, before.idle, by rw [before.uploaded], ?_⟩
    intro seen member
    rcases List.mem_append.mp member with earlier | last
    · exact before.observed seen earlier
    · obtain rfl := List.mem_singleton.mp last
      rw [before.uploaded]
      exact ⟨payload, rfl, begins, by simp⟩
  refine Ends.bind (Ends.get ?_)
  simp only
  cases io.sendPayload state.parts with
  | none => exact next part isPrefix
  | some failed =>
      refine ⟨_, next (part.take failed.1) ?_⟩
      exact ((List.prefix_append_right_inj _).mpr
        (part.take_prefix failed.1)).trans isPrefix

theorem sendPayloadFromReader_ends {payload : Bytes} {fuel remaining : Nat}
    {reader : File} {state : SessionState}
    (before : Consuming staged (some payload) uploaded state)
    (split : payload = uploaded ++ reader.content.drop reader.position)
    (left : (reader.content.drop reader.position).length = remaining) :
    Ends (sendPayloadFromReader io fuel reader remaining) state
      (Uploading staged payload payload) := by
  induction fuel generalizing uploaded reader remaining state with
  | zero => exact ⟨uploaded, before⟩
  | succ fuel induction =>
      unfold sendPayloadFromReader
      by_cases more : 0 < remaining
      · rw [if_pos more]
        refine (check_keeps _).ends before (fun _ state before => ?_)
          fun _ last kept => ⟨uploaded, kept⟩
        cases read : reader.readExact (min remaining transferChunk) with
        | none => exact ⟨uploaded, before⟩
        | some result =>
            obtain ⟨chunk, next⟩ := result
            obtain ⟨length, _, _, rest⟩ := File.readExact_some read
            rw [rest, ← List.append_assoc] at split
            have sends : Ends (sendPayload io chunk) state
                (Uploading staged payload (uploaded ++ chunk)) :=
              sendPayload_ends before ⟨_, split.symm⟩
            refine Ends.bind (Ends.pure ?_)
            refine sends.seq (fun _ middle sent => ?_) fun _ _ failed => failed
            refine induction sent split ?_
            rw [rest, List.length_append] at left
            omega
      · obtain rfl : remaining = 0 := by omega
        rw [if_neg more]
        have complete : uploaded = payload := by
          rw [List.length_eq_zero_iff.mp left, List.append_nil] at split
          exact split.symm
        subst complete
        exact Ends.pure before

theorem send_ends {payload : Bytes} {data : StagedData}
    {state : SessionState} (content : data.content = payload)
    (length : data.len = payload.length) (isStaged : staged = some data)
    (before : Consuming staged (some payload) [] state) :
    Ends (send io data) state (Uploading staged payload payload) := by
  subst isStaged
  unfold send
  split
  · rename_i bytes memory
    obtain rfl : bytes = payload := by
      rw [← content, StagedData.content, memory]
    exact sendPayload_ends before (List.prefix_refl _)
  · rename_i file size stored
    have denotes : Denotes (some data) (some payload) :=
      denotes_some.mpr ⟨payload, rfl, content, length⟩
    have opens : Ends (asFile io data) state fun outcome last =>
        Consuming (some data) (some payload) [] last ∧
          ∀ file, outcome = .ok file → file = data.asFile := by
      refine ⟨asFile_keeps denotes state before, ?_⟩
      intro opened ran
      unfold asFile at ran
      cases failed : io.openStaged with
      | none =>
          rw [failed] at ran
          exact (Except.ok.inj ran).symm
      | some error =>
          rw [failed] at ran
          cases ran
    refine opens.seq (fun opened middle ends => ?_)
      fun _ last ends => ⟨[], ends.1⟩
    obtain rfl := ends.2 opened rfl
    have whole : data.asFile.content.drop data.asFile.position = payload := by
      rw [data.asFile_position, data.asFile_content, content]
      rfl
    refine sendPayloadFromReader_ends ends.1 (by rw [whole]; rfl) ?_
    rw [whole, ← length, StagedData.len, stored]

/-- Some bytes have been uploaded from the unchanged staging area. -/
def Uploaded (staged : Option StagedData) (area : Option Bytes)
    (state : SessionState) : Prop :=
  ∃ part, Consuming staged area part state

theorem uploadStaged_ends {state : SessionState}
    (denotes : Denotes staged area) (before : Consuming staged area [] state) :
    Ends (uploadStaged io) state fun _ last => Uploaded staged area last := by
  have begun : ∀ last, Consuming staged area [] last →
      Uploaded staged area last := fun _ kept => ⟨[], kept⟩
  have packets : ∀ part, IgnoresPackets (Consuming staged area part) :=
    fun _ => consuming_ignoresPackets
  refine Ends.bind (Ends.get ?_)
  simp only
  rw [before.staged]
  cases isStaged : staged with
  | none =>
      subst isStaged
      simp only
      have nothing : Agrees area .nothing := denotes_none.mp denotes
      refine (observe_keeps nothing).ends before (fun _ middle kept => ?_)
        fun _ => begun
      exact (fail_keeps (packets []) _ middle kept).mono fun _ => begun
  | some data =>
      subst isStaged
      obtain ⟨payload, rfl, content, length⟩ := denotes_some.mp denotes
      simp only
      by_cases large : 2 ^ 32 ≤ data.len
      · rw [if_pos large]
        have tooLarge : Agrees (some payload) .tooLarge :=
          ⟨payload, rfl, by omega⟩
        refine (observe_keeps tooLarge).ends before (fun _ middle kept => ?_)
          fun _ => begun
        exact (fail_keeps (packets []) _ middle kept).mono fun _ => begun
      · rw [if_neg large]
        refine (data_keeps (packets []) _).ends before (fun _ middle kept => ?_)
          fun _ => begun
        refine (send_ends content length rfl kept).seq
          (fun _ middle sent => ?_) fun _ _ failed => failed
        refine Ends.bind (Ends.get ?_)
        simp only
        have complete : Agrees (some payload) (.sent middle.uploaded true) :=
          ⟨payload, rfl, by rw [sent.uploaded], fun _ => sent.uploaded⟩
        have finishes : Keeps (Consuming (some data) (some payload) payload) (do
            observe (.sent middle.uploaded true)
            okay io []) :=
          (observe_keeps complete).bind fun _ => okay_keeps (packets payload) []
        exact (finishes middle sent).mono fun _ _ kept => ⟨payload, kept⟩

end

/-! ## Producers -/

/-- Before a command has staged anything, with what it has taken so far. -/
structure Cleared (area : Option Bytes) (source : Bytes)
    (state : SessionState) : Prop where
  staged : state.staged = none
  source : state.source = source
  put : state.put = false
  observed : ∀ observed ∈ state.observed, Agrees area observed

/-- The staging area holds what the command has put there; `area` is what the
command itself may have read before. -/
structure Produced (area : Option Bytes) (state : SessionState) : Prop where
  denotes : Denotes state.staged
    (Attempt.area (some ⟨state.source, state.put⟩))
  observed : ∀ observed ∈ state.observed, Agrees area observed

section

variable {io : CommandIo} {area : Option Bytes} {source : Bytes}

theorem produced_ignoresPackets : IgnoresPackets (Produced area) :=
  fun _ _ _ before => ⟨before.denotes, before.observed⟩

/-- A producer that stops before it stages leaves the area empty. -/
theorem Cleared.produced {state : SessionState}
    (cleared : Cleared area source state) : Produced area state := by
  refine ⟨?_, cleared.observed⟩
  rw [cleared.put, cleared.staged]
  rfl

theorem clearStaged_ends {staged : Option StagedData} {uploaded : Bytes}
    {state : SessionState} (before : Consuming staged area uploaded state) :
    Ends clearStaged state fun outcome last =>
      outcome = .ok PUnit.unit ∧ Cleared area [] last :=
  ⟨rfl, rfl, before.idle.2, before.idle.1, before.observed⟩

theorem took_ends {data : Bytes} {state : SessionState}
    (before : Cleared area source state) :
    Ends (took data) state fun outcome last =>
      outcome = .ok PUnit.unit ∧ Cleared area (source ++ data) last := by
  refine ⟨rfl, before.staged, ?_, before.put, before.observed⟩
  rw [← before.source]
  rfl

theorem stage_ends {data : StagedData} {state : SessionState}
    (before : Cleared area source state) (content : data.content = source)
    (length : data.len = source.length) :
    Ends (stage data) state fun _ last => Produced area last := by
  refine ⟨⟨data, rfl, ?_, ?_⟩, before.observed⟩
  · exact content.trans before.source.symm
  · exact length.trans (congrArg List.length before.source.symm)

/-- A copy that is complete is what was taken. -/
def Copied (area : Option Bytes) : Run OsError (File × Nat) →
    SessionState → Prop
  | .ok copy, last => ∃ source, Cleared area source last ∧
      copy.1.content = source ∧ copy.2 = source.length
  | .error _, last => ∃ source, Cleared area source last

theorem copyLimited_ends {path : Text} {number total : Nat}
    {reads : List (Except OsError Bytes)} {copy : File} {state : SessionState}
    (before : Cleared area source state) (content : copy.content = source)
    (atEnd : copy.position = copy.content.length)
    (length : total = source.length) :
    Ends (copyLimited io path number reads copy total) state (Copied area) := by
  induction reads generalizing source number total copy state with
  | nil => exact ⟨source, before, content, length⟩
  | cons read rest induction =>
      cases read with
      | error error => exact ⟨source, before⟩
      | ok read =>
          unfold copyLimited
          by_cases last : read = []
          · rw [if_pos last]
            exact ⟨source, before, content, length⟩
          · rw [if_neg last]
            refine (took_ends before).seq ?_ fun fault _ taken => by
              simp at taken
            intro _ state taken
            by_cases large : maxStagedSize < total + read.length
            · simp only [if_pos large]
              exact ⟨_, taken.2⟩
            · simp only [if_neg large]
              refine (check_keeps _).ends taken.2 (fun _ state kept => ?_)
                fun _ _ kept => ⟨_, kept⟩
              rw [File.writeAll_end read atEnd]
              refine induction kept ?_ rfl ?_
              · simp only [content]
              · rw [List.length_append, length]

theorem cat_ends {staged : Option StagedData} {uploaded : Bytes}
    {state : SessionState} (command : Text)
    (before : Consuming staged area uploaded state) :
    Ends (cat io command) state fun _ last => Produced area last := by
  have packets := @produced_ignoresPackets area
  have stops : ∀ source last, Cleared area source last → Produced area last :=
    fun _ _ => Cleared.produced
  refine (clearStaged_ends before).seq ?_ fun _ _ cleared => by simp at cleared
  intro _ state cleared
  refine (parameter_keeps _ _ _ _).ends cleared.2 ?_ fun _ => stops []
  intro path state cleared
  refine (check_keeps _).ends cleared ?_ fun _ => stops []
  intro _ state cleared
  refine (check_keeps _).ends cleared ?_ fun _ => stops []
  intro _ state cleared
  refine (copyLimited_ends cleared rfl rfl rfl).seq ?_ ?_
  · rintro ⟨copy, size⟩ state ⟨source, cleared, content, length⟩
    refine (check_keeps _).ends cleared ?_ fun _ => stops source
    intro _ state cleared
    refine Ends.seq (stage_ends cleared ?_ ?_) ?_ fun _ _ done => done
    · exact content
    · exact length
    intro _ state produced
    refine (info_keeps packets _).bind (fun _ => ?_) state produced
    refine (info_keeps packets _).bind fun _ => ?_
    exact (okay_keeps packets _).bind fun _ => .pure _
  · rintro fault last ⟨source, cleared⟩
    exact stops source last cleared

theorem dmesg_ends {staged : Option StagedData} {uploaded : Bytes}
    {state : SessionState} (before : Consuming staged area uploaded state) :
    Ends (dmesg io) state fun _ last => Produced area last := by
  have packets := @produced_ignoresPackets area
  have stops : ∀ source last, Cleared area source last → Produced area last :=
    fun _ _ => Cleared.produced
  refine (clearStaged_ends before).seq ?_ fun _ _ cleared => by simp at cleared
  intro _ state cleared
  refine (ofExcept_keeps _).ends cleared.2 ?_ fun _ => stops []
  intro capture state cleared
  refine (took_ends cleared).seq ?_ fun _ _ taken => by simp at taken
  intro _ state taken
  refine (stage_ends taken.2 rfl rfl).seq ?_ fun _ _ done => done
  intro _ state produced
  refine (info_keeps packets _).bind (fun _ => ?_) state produced
  have finishes : Keeps (Produced area) (do
      info io "run fastboot get_staged /dev/stdout to view".toList
      okay io []
      return ServerStep.proceed) :=
    (info_keeps packets _).bind fun _ =>
      (okay_keeps packets _).bind fun _ => .pure _
  split
  · exact (info_keeps packets _).bind fun _ => finishes
  · exact finishes

theorem runShell_ends {state : SessionState}
    (before : Cleared area [] state) :
    Ends (runShell io) state (Copied area) := by
  have measured : ∀ (source : Bytes) (output : File) (state : SessionState),
      Cleared area source state → output.content = source →
      Ends (do
        check (io.shell.fails .measure)
        check (io.shell.fails .rewind)
        return (output.seekStart, output.content.length)) state
        (Copied area) := by
    intro source output state cleared content
    refine (check_keeps _).ends cleared ?_ fun _ _ kept => ⟨_, kept⟩
    intro _ state cleared
    refine (check_keeps _).ends cleared ?_ fun _ _ kept => ⟨_, kept⟩
    intro _ state cleared
    exact ⟨source, cleared, content, congrArg List.length content⟩
  refine (check_keeps _).ends before ?_ fun _ _ kept => ⟨_, kept⟩
  intro _ state cleared
  refine (check_keeps _).ends cleared ?_ fun _ _ kept => ⟨_, kept⟩
  intro _ state cleared
  refine (check_keeps _).ends cleared ?_ fun _ _ kept => ⟨_, kept⟩
  intro _ state cleared
  refine (check_keeps _).ends cleared ?_ fun _ _ kept => ⟨_, kept⟩
  intro _ state cleared
  refine (took_ends cleared).seq ?_ fun _ _ taken => by simp at taken
  intro _ state taken
  refine (check_keeps _).ends taken.2 ?_ fun _ _ kept => ⟨_, kept⟩
  intro _ state cleared
  have written : (File.empty.writeAll io.shell.output).content =
      io.shell.output := by
    rw [File.writeAll_end io.shell.output rfl]
    rfl
  by_cases timedOut : io.shell.timedOut = true
  · simp only [timedOut, if_true]
    refine (check_keeps _).ends cleared ?_ fun _ _ kept => ⟨_, kept⟩
    intro _ state cleared
    refine (took_ends cleared).seq ?_ fun _ _ taken => by simp at taken
    intro _ state taken
    refine Ends.bind (Ends.pure ?_)
    refine measured _ _ state taken.2 ?_
    rw [File.writeAll_end timeoutMessage rfl]
    exact congrArg (· ++ timeoutMessage) written
  · simp only [timedOut]
    exact measured _ _ state cleared (by rw [written]; rfl)

/-- A shell started on an empty staging area. -/
theorem runAndStage_ends {state : SessionState}
    (before : Cleared area [] state) :
    Ends (runAndStage io) state fun _ last => Produced area last := by
  have packets := @produced_ignoresPackets area
  refine (runShell_ends before).seq ?_ ?_
  · rintro ⟨file, size⟩ state ⟨source, cleared, content, length⟩
    refine Ends.seq (stage_ends cleared ?_ ?_) ?_ fun _ _ done => done
    · exact content
    · exact length
    intro _ state produced
    refine (info_keeps packets _).bind (fun _ => ?_) state produced
    refine (info_keeps packets _).bind fun _ => ?_
    split
    · exact (okay_keeps packets _).bind fun _ => .pure _
    · exact (fail_keeps packets _).bind fun _ => .pure _
  · rintro fault last ⟨source, cleared⟩
    exact cleared.produced

theorem shell_ends {staged : Option StagedData} {uploaded : Bytes}
    {state : SessionState} (command : Text)
    (before : Consuming staged area uploaded state) :
    Ends (shell io command) state fun _ last => Produced area last := by
  refine (clearStaged_ends before).seq ?_ fun _ _ cleared => by simp at cleared
  intro _ state cleared
  split
  · exact Ends.fail cleared.2.produced
  · split
    · exact Ends.fail cleared.2.produced
    · exact runAndStage_ends cleared.2

theorem shellStaged_ends {staged : Option StagedData} {uploaded : Bytes}
    {state : SessionState} (denotes : Denotes staged area)
    (before : Consuming staged area uploaded state) :
    Ends (shellStaged io) state fun _ last => Produced area last := by
  have reads : Ends (readStagedCommand io) state fun _ last =>
      Consuming staged area uploaded last :=
    readStagedCommand_keeps denotes state before
  refine Ends.attempt_bind reads fun command state kept => ?_
  refine (clearStaged_ends kept).seq ?_ fun _ _ cleared => by simp at cleared
  intro _ state cleared
  exact (Keeps.ofRun command).ends cleared.2
    (fun _ _ kept => runAndStage_ends kept) fun _ _ kept => kept.produced

/-! ## Any command but a download -/

/-- What a command does to the staging area, and what it has seen of it. -/
structure Disciplined (staged : Option StagedData) (area : Option Bytes)
    (produces : Bool) (state : SessionState) : Prop where
  observed : ∀ observed ∈ state.observed, Agrees area observed
  produced : produces = true →
    Denotes state.staged (Attempt.area (some ⟨state.source, state.put⟩))
  consumed : produces = false → state.staged = staged

theorem disciplined_ignoresPackets {staged : Option StagedData}
    {produces : Bool} : IgnoresPackets (Disciplined staged area produces) :=
  fun _ _ _ before => ⟨before.observed, before.produced, before.consumed⟩

theorem Consuming.disciplined {staged : Option StagedData} {uploaded : Bytes}
    {state : SessionState} (kept : Consuming staged area uploaded state) :
    Disciplined staged area false state :=
  ⟨kept.observed, by simp, fun _ => kept.staged⟩

theorem Produced.disciplined {staged : Option StagedData}
    {state : SessionState} (done : Produced area state) :
    Disciplined staged area true state :=
  ⟨done.observed, fun _ => done.denotes, by simp⟩

theorem runHandler_ends {staged : Option StagedData} {state : SessionState}
    (handler : Handler) (command : Text) (denotes : Denotes staged area)
    (before : Consuming staged area [] state) :
    Ends (runHandler io command handler) state fun _ last =>
      Disciplined staged area (Dispatch.handler handler command).produces
        last := by
  have consumes : ∀ {run : Session ServerStep},
      Keeps (Consuming staged area []) run →
      Ends run state fun _ last => Disciplined staged area false last :=
    fun keeps => (keeps state before).mono fun _ _ => Consuming.disciplined
  have produces : ∀ {run : Session ServerStep},
      (Ends run state fun _ last => Produced area last) →
      Ends run state fun _ last => Disciplined staged area true last :=
    fun ends => ends.mono fun _ _ => Produced.disciplined
  cases handler with
  | boot => exact consumes (boot_keeps denotes)
  | kexecLoad => exact consumes (kexecLoad_keeps denotes)
  | flash => exact consumes (flash_keeps denotes command)
  | cat => exact produces (cat_ends command before)
  | dmesg => exact produces (dmesg_ends before)
  | shell => exact produces (shell_ends command before)
  | shellStaged => exact produces (shellStaged_ends denotes before)
  | other => exact consumes other_keeps

theorem runLine_ends {staged : Option StagedData} {state : SessionState}
    (request : Dispatch) (denotes : Denotes staged area)
    (before : Consuming staged area [] state) :
    Ends (runLine io request) state fun _ last =>
      Disciplined staged area request.produces last := by
  have packets := @consuming_ignoresPackets staged area []
  have consumes : ∀ {run : Session ServerStep},
      Keeps (Consuming staged area []) run →
      Ends run state fun _ last => Disciplined staged area false last :=
    fun keeps => (keeps state before).mono fun _ _ => Consuming.disciplined
  cases request with
  | notUtf8 =>
      exact consumes ((fail_keeps packets _).bind fun _ => .pure _)
  | leave =>
      refine Ends.attempt_bind (okay_keeps packets [] state before) ?_
      exact fun _ _ kept => kept.disciplined
  | upload =>
      refine (uploadStaged_ends denotes before).seq ?_ ?_
      · rintro _ last ⟨_, kept⟩
        exact kept.disciplined
      · rintro _ last ⟨_, kept⟩
        exact kept.disciplined
  | download command => exact before.disciplined
  | handler handler command =>
      exact handleCommand_ends disciplined_ignoresPackets
        (runHandler_ends handler command denotes before)
  | unsupported =>
      exact consumes ((fail_keeps packets _).bind fun _ => .pure _)

end

/-! ## The fuel of an upload -/

/-- The computation does not run out of fuel. -/
def Settles {α : Type} (run : Session α) : Prop :=
  ∀ state, Ends run state fun outcome _ => outcome ≠ .error .outOfFuel

section

variable {io : CommandIo} {α β : Type}

theorem Settles.pure (item : α) : Settles (Pure.pure item) :=
  fun _ => Ends.pure (by simp)

theorem Settles.fail (error : OsError) :
    Settles (Stateful.fail error : Session α) :=
  fun _ => Ends.fail (by simp)

theorem Settles.bind {run : Session α} {next : α → Session β}
    (first : Settles run) (second : ∀ item, Settles (next item)) :
    Settles (run >>= next) := fun state =>
  (first state).seq (fun item middle _ => second item middle)
    fun _ _ settled exhausted => settled (by cases exhausted; rfl)

theorem Settles.get {next : SessionState → Session β}
    (after : ∀ state, Settles (next state)) : Settles (get >>= next) :=
  fun state => Ends.bind (Ends.get (after state state))

theorem observe_settles (observed : Observed) : Settles (observe observed) :=
  fun _ => Ends.modify (by simp)

theorem check_settles (error : Option OsError) : Settles (check error) := by
  cases error with
  | none => exact .pure ()
  | some error => exact .fail error

theorem writePacket_settles (response : Response) :
    Settles (writePacket io response) := by
  refine .get fun state => ?_
  refine Settles.bind (fun _ => Ends.set (by simp)) fun _ => ?_
  split
  · exact .pure ()
  · exact .fail _

theorem sendPayload_settles (payload : Bytes) :
    Settles (sendPayload io payload) := by
  refine .get fun state => ?_
  split
  · exact Settles.bind (fun _ => Ends.set (by simp)) fun _ =>
      observe_settles _
  · exact Settles.bind (fun _ => Ends.set (by simp)) fun _ =>
      (observe_settles _).bind fun _ => .fail _

/-- Every pass of the loop sends at least one byte. -/
theorem sendPayloadFromReader_settles {fuel remaining : Nat}
    (enough : remaining < fuel) (reader : File) :
    Settles (sendPayloadFromReader io fuel reader remaining) := by
  induction fuel generalizing remaining reader with
  | zero => omega
  | succ fuel induction =>
      unfold sendPayloadFromReader
      have chunk : 0 < transferChunk := by decide
      split
      · refine (check_settles _).bind fun _ => ?_
        cases reader.readExact (min remaining transferChunk) with
        | none => exact .fail _
        | some read =>
            refine Settles.bind (.pure read) fun read => ?_
            refine (sendPayload_settles _).bind fun _ => ?_
            exact induction (by omega) _
      · exact .pure ()

theorem uploadStaged_settles : Settles (uploadStaged io) := by
  have asFile_settles : ∀ data, Settles (asFile io data) := fun data =>
    (check_settles _).bind fun _ =>
      (observe_settles _).bind fun _ => .pure _
  have send_settles : ∀ data, Settles (send io data) := by
    intro data
    unfold send
    split
    · exact sendPayload_settles _
    · exact (asFile_settles data).bind fun file =>
        sendPayloadFromReader_settles (Nat.lt_succ_self _) file
  refine .get fun state => ?_
  split
  · exact (observe_settles _).bind fun _ => writePacket_settles _
  · split
    · exact (observe_settles _).bind fun _ => writePacket_settles _
    · refine (writePacket_settles _).bind fun _ => ?_
      refine (send_settles _).bind fun _ => ?_
      refine .get fun state => ?_
      exact (observe_settles _).bind fun _ => writePacket_settles _

end

end Session

end Pocketboot.Fastboot
