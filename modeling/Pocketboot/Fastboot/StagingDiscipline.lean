import Pocketboot.Fastboot.Staging

/-!
# Staging discipline

Over all runs of the server: what a consumer sees is the payload of the last
producer attempt, or nothing if that attempt staged nothing.
-/

namespace Pocketboot.Fastboot

open Transition Stateful

/-- The file of a download holds what has been read of the payload, and zeros
where the rest goes. -/
structure Receiving (file : File) (size remaining : Nat) (source : Bytes) :
    Prop where
  content : file.content = source ++ List.replicate remaining 0
  position : file.position = source.length
  size : source.length + remaining = size

/-- What a download in progress has staged: nothing. -/
def Device.Staging (attempt : Option Attempt) : Device → Prop
  | preparing _ => attempt = some ⟨[], false⟩
  | receiving file size remaining => ∃ source,
      attempt = some ⟨source, false⟩ ∧ Receiving file size remaining source
  | _ => True

structure Discipline (state : State) : Prop where
  observed : ∀ observation ∈ state.observations,
    Agrees (Attempt.area observation.attempt) observation.observed
  staged : Denotes state.staged (Attempt.area state.attempt)
  device : state.device.Staging state.attempt

/-- The staging area and its history are the same. -/
structure SameStaging (state next : State) : Prop where
  observations : next.observations = state.observations
  staged : next.staged = state.staged
  attempt : next.attempt = state.attempt

theorem Discipline.same {state next : State} (discipline : Discipline state)
    (same : SameStaging state next)
    (device : next.device.Staging next.attempt) : Discipline next where
  observed := by
    rw [same.observations]
    exact discipline.observed
  staged := by
    rw [same.staged, same.attempt]
    exact discipline.staged
  device := device

/-! ## Downloads -/

theorem State.downloadFails_same (state : State) (error : OsError)
    (result : SendResult) (answers : Bool) :
    SameStaging state (state.downloadFails error result answers) := by
  unfold State.downloadFails
  split
  · exact ⟨rfl, rfl, rfl⟩
  · exact ⟨rfl, rfl, rfl⟩

theorem State.downloadFails_staging (state : State) (error : OsError)
    (result : SendResult) (answers : Bool) (attempt : Option Attempt) :
    (state.downloadFails error result answers).device.Staging attempt := by
  unfold State.downloadFails
  split
  · trivial
  · cases result with
    | sent => trivial
    | failed error delivered =>
        simp only
        split <;> trivial

theorem Discipline.downloadFails {state : State} (error : OsError)
    (result : SendResult) (answers : Bool)
    (observed : ∀ observation ∈ state.observations,
      Agrees (Attempt.area observation.attempt) observation.observed)
    (staged : Denotes state.staged (Attempt.area state.attempt)) :
    Discipline (state.downloadFails error result answers) := by
  have same := state.downloadFails_same error result answers
  refine ⟨?_, ?_, state.downloadFails_staging error result answers _⟩
  · rw [same.observations]
    exact observed
  · rw [same.staged, same.attempt]
    exact staged

theorem Discipline.startDownload {state : State} (discipline : Discipline state)
    (result : SendResult) (command : Text) :
    Discipline (state.startDownload result command) := by
  unfold State.startDownload
  split
  · exact ⟨discipline.observed, rfl, rfl⟩
  · exact .downloadFails _ _ _ discipline.observed rfl
  · exact ⟨discipline.observed, rfl, trivial⟩

theorem State.prepareDownload_same (state : State) (size : Nat)
    (create : Option OsError) (announce result : SendResult) :
    SameStaging state (state.prepareDownload size create announce result) := by
  unfold State.prepareDownload
  cases create with
  | some error => exact state.downloadFails_same error result true
  | none =>
      cases announce with
      | sent => exact ⟨rfl, rfl, rfl⟩
      | failed error delivered =>
          obtain ⟨observations, staged, attempt⟩ :=
            State.downloadFails_same
              (state.announceDownload size (.failed error delivered)) error
              result (!delivered)
          exact ⟨observations, staged, attempt⟩

theorem Receiving.start (size : Nat) :
    Receiving (File.empty.setLen size) size size [] := by
  refine ⟨?_, rfl, Nat.zero_add size⟩
  simp [File.setLen, File.empty]

theorem Discipline.prepareDownload {state : State} {size : Nat}
    (discipline : Discipline state) (preparing : state.device = .preparing size)
    (create : Option OsError) (announce result : SendResult) :
    Discipline (state.prepareDownload size create announce result) := by
  have fresh : state.attempt = some ⟨[], false⟩ := by
    have := discipline.device
    rwa [preparing] at this
  unfold State.prepareDownload
  cases create with
  | some error =>
      exact .downloadFails _ _ _ discipline.observed discipline.staged
  | none =>
      cases announce with
      | sent =>
          exact ⟨discipline.observed, discipline.staged, [], fresh,
            Receiving.start size⟩
      | failed error delivered =>
          exact .downloadFails _ _ _ discipline.observed discipline.staged

/-- Reading payload changes only what the attempt has taken. -/
theorem Discipline.take {state : State} {source : Bytes}
    (discipline : Discipline state)
    (attempt : state.attempt = some ⟨source, false⟩) (count : Nat) :
    (state.take count).attempt =
        some ⟨source ++ values (state.rx.flatten.take count), false⟩ ∧
      (∀ observation ∈ (state.take count).observations,
        Agrees (Attempt.area observation.attempt) observation.observed) ∧
      Denotes (state.take count).staged
        (Attempt.area (state.take count).attempt) := by
  have next : (state.take count).attempt =
      some ⟨source ++ values (state.rx.flatten.take count), false⟩ := by
    simp [State.take, attempt]
  refine ⟨next, discipline.observed, ?_⟩
  have staged := discipline.staged
  rw [attempt] at staged
  rw [next]
  exact staged

theorem Discipline.receiveChunk {state : State} {file : File}
    {size remaining : Nat} (discipline : Discipline state)
    (receiving : state.device = .receiving file size remaining)
    (enough : State.chunkLen size remaining ≤ state.rx.flatten.length)
    (write : Option OsError) (result : SendResult) :
    Discipline (state.receiveChunk file size remaining write result) := by
  have device := discipline.device
  rw [receiving] at device
  obtain ⟨source, attempt, holds⟩ := device
  obtain ⟨taken, observed, staged⟩ :=
    discipline.take attempt (State.chunkLen size remaining)
  unfold State.receiveChunk
  cases write with
  | some error => exact .downloadFails _ _ _ observed staged
  | none =>
      refine ⟨observed, staged, _, taken, ?_⟩
      have length : (values (state.rx.flatten.take
          (State.chunkLen size remaining))).length =
          State.chunkLen size remaining := by
        rw [values, List.length_map, List.length_take, min_eq_left enough]
      have fits : State.chunkLen size remaining ≤ remaining := min_le_left _ _
      have same : file = ⟨source ++ List.replicate remaining 0,
          source.length⟩ := by
        rw [← holds.content, ← holds.position]
      rw [same, File.writeAll_zeros, length]
      refine ⟨rfl, rfl, ?_⟩
      have whole := holds.size
      rw [List.length_append, length]
      omega

theorem Discipline.finishDownload {state : State} {file : File} {size : Nat}
    (discipline : Discipline state)
    (receiving : state.device = .receiving file size 0)
    (rewind : Option OsError) (okay result : SendResult) :
    Discipline (state.finishDownload file size rewind okay result) := by
  have device := discipline.device
  rw [receiving] at device
  obtain ⟨source, attempt, holds⟩ := device
  unfold State.finishDownload
  cases rewind with
  | some error =>
      exact .downloadFails _ _ _ discipline.observed discipline.staged
  | none =>
      have next : (state.stageDownload file size okay).attempt =
          some ⟨source, true⟩ := by
        simp [State.stageDownload, attempt]
      have staged : Denotes (state.stageDownload file size okay).staged
          (Attempt.area (state.stageDownload file size okay).attempt) := by
        rw [next]
        refine ⟨_, rfl, ?_, ?_⟩
        · have content := holds.content
          rwa [List.replicate_zero, List.append_nil] at content
        · exact holds.size.symm
      cases okay with
      | sent => exact ⟨discipline.observed, staged, trivial⟩
      | failed error delivered =>
          exact .downloadFails _ _ _ discipline.observed staged

/-! ## Other commands -/

theorem Device.after_staging (outcome : Run OsError ServerStep)
    (attempt : Option Attempt) : (Device.after outcome).Staging attempt := by
  unfold Device.after
  split
  · trivial
  · trivial
  · split <;> trivial
  · trivial

theorem State.session_consuming (state : State) (area : Option Bytes) :
    Session.Consuming state.staged area [] state.session :=
  ⟨rfl, ⟨rfl, rfl⟩, rfl, by simp [State.session]⟩

theorem Discipline.runLine {state : State} (discipline : Discipline state)
    (io : CommandIo) (request : Dispatch) :
    Discipline (state.runLine io request) := by
  have ends : Session.Disciplined state.staged (Attempt.area state.attempt)
      request.produces
      (exec (Session.runLine io request) state.session).2 :=
    Session.runLine_ends request discipline.staged
      (state.session_consuming _)
  refine ⟨?_, ?_, Device.after_staging _ _⟩
  · intro observation member
    rcases List.mem_append.mp member with before | last
    · exact discipline.observed observation before
    · obtain ⟨observed, seen, rfl⟩ := List.mem_map.mp last
      exact ends.observed observed seen
  · cases produces : request.produces with
    | true =>
        have denotes := ends.produced produces
        simp only [State.runLine, produces, if_true]
        exact denotes
    | false =>
        have same := ends.consumed produces
        have staged : (state.runLine io request).staged = state.staged := same
        rw [staged]
        simp only [State.runLine, produces, Bool.false_eq_true, if_false]
        exact discipline.staged

theorem discipline_inductive : server.Inductive Discipline where
  initially := ⟨by simp [server, startState], rfl, trivial⟩
  kept := by
    intro state next action discipline steps
    rw [server_step] at steps
    cases State.steps_of_step steps with
    | hostCommand => exact discipline.same ⟨rfl, rfl, rfl⟩ discipline.device
    | hostPayload => exact discipline.same ⟨rfl, rfl, rfl⟩ discipline.device
    | hostReceive => exact discipline.same ⟨rfl, rfl, rfl⟩ discipline.device
    | readCommand => exact discipline.same ⟨rfl, rfl, rfl⟩ trivial
    | readCommandFails =>
        refine discipline.same ⟨rfl, rfl, rfl⟩ ?_
        unfold State.readCommandFails
        simp only
        split <;> trivial
    | startDownload => exact discipline.startDownload _ _
    | runLine => exact discipline.runLine _ _
    | prepare preparing => exact discipline.prepareDownload preparing _ _ _
    | receive receiving _ enough =>
        exact discipline.receiveChunk receiving enough _ _
    | receiveFails receiving =>
        have device := discipline.device
        rw [receiving] at device
        obtain ⟨source, attempt, _⟩ := device
        obtain ⟨_, observed, staged⟩ := discipline.take attempt _
        exact .downloadFails _ _ _ observed staged
    | finish receiving => exact discipline.finishDownload receiving _ _ _

/-! ## Commands without staged data -/

/-- The command gets as far as the staging area. -/
def Dispatch.ReadsStaged (io : CommandIo) : Dispatch → Prop
  | .upload => True
  | .handler .boot _ => True
  | .handler .kexecLoad _ => True
  | .handler .shellStaged _ => True
  | .handler .flash command => (∃ name, io.flashTarget = .ok name) ∧
      ∃ rest, Text.stripPrefix "flash:".toList command = some rest ∧ rest ≠ []
  | _ => False

/-- The answer of a consumer that finds nothing. -/
def noDataResponse : Response := ⟨.fail, Text.utf8 "no staged data".toList⟩

def emptySession : SessionState :=
  { staged := none, responses := [], packets := 0, parts := 0
    source := [], put := false, uploaded := [], observed := [] }

/-- The session has seen nothing, and said so. -/
def ReportsNoData (io : CommandIo) (last : SessionState) : Prop :=
  last.observed = [.nothing] ∧
    last.responses =
      if (io.respond 0).delivered then [noDataResponse] else []

theorem fail_reports {io : CommandIo} :
    Ends (Session.fail io "no staged data".toList)
      { emptySession with observed := [.nothing] }
      fun _ last => ReportsNoData io last := by
  refine (Session.writePacket_ends _ _).mono ?_
  rintro _ _ rfl
  have message : (Text.utf8 "no staged data".toList).take responsePayloadMax =
      noDataResponse.payload := by decide +kernel
  refine ⟨rfl, ?_⟩
  simp only [message]
  rfl

/-- Every handler stops where it asks for the staged data. -/
theorem runHandler_noData {io : CommandIo} {handler : Handler}
    {command : Text}
    (reads : (Dispatch.handler handler command).ReadsStaged io) :
    exec (Session.runHandler io command handler) emptySession =
      (.error (.error Session.noStagedData),
        { emptySession with observed := [.nothing] }) := by
  cases handler with
  | boot => rfl
  | kexecLoad => rfl
  | shellStaged => rfl
  | flash =>
      obtain ⟨⟨name, target⟩, rest, strips, given⟩ := reads
      simp only [Session.runHandler, Session.flash, Session.parameter, strips,
        if_neg given, target]
      rfl
  | _ => exact reads.elim

theorem runLine_noData {io : CommandIo} {request : Dispatch}
    (reads : request.ReadsStaged io) :
    Ends (Session.runLine io request) emptySession
      fun _ last => ReportsNoData io last := by
  cases request with
  | upload =>
      have reports : Ends (Session.uploadStaged io) emptySession
          fun _ last => ReportsNoData io last :=
        Ends.bind (Ends.get (Ends.bind (Ends.modify fail_reports)))
      exact reports.seq (fun _ _ reported => Ends.pure reported)
        fun _ _ reported => reported
  | handler handler command =>
      have stops : Ends (Session.runHandler io command handler) emptySession
          fun outcome last => outcome = .error (.error Session.noStagedData) ∧
            last = { emptySession with observed := [.nothing] } := by
        rw [Ends, runHandler_noData reads]
        exact ⟨rfl, rfl⟩
      refine Ends.attempt_bind stops ?_
      rintro _ _ ⟨rfl, rfl⟩
      exact fail_reports.seq (fun _ _ reported => Ends.pure reported)
        fun _ _ reported => reported
  | _ => exact reads.elim

/-! ## The discipline -/

/-- The step belongs to a producer. -/
def Produces (state : State) : Action → Prop
  | .runLine _ _ => ∃ line, state.device = .handling line ∧
      ((dispatch (values line)).produces = true ∨
        startsDownload (values line) = true)
  | .receive _ _ => True
  | .receiveFails _ _ _ => True
  | .finish _ _ _ => True
  | _ => False

theorem State.runLine_staged {state : State} {io : CommandIo}
    {request : Dispatch} (discipline : Discipline state)
    (consumes : request.produces = false) :
    (state.runLine io request).staged = state.staged ∧
      (state.runLine io request).attempt = state.attempt := by
  have ends : Session.Disciplined state.staged (Attempt.area state.attempt)
      request.produces
      (exec (Session.runLine io request) state.session).2 :=
    Session.runLine_ends request discipline.staged
      (state.session_consuming _)
  refine ⟨ends.consumed consumes, ?_⟩
  simp [State.runLine, consumes]

theorem Discipline.step_staging {state next : State} {action : Action}
    (discipline : Discipline state) (steps : state.step action = some next)
    (consumes : ¬Produces state action) :
    next.staged = state.staged ∧ next.attempt = state.attempt := by
  cases State.steps_of_step steps with
  | hostCommand => exact ⟨rfl, rfl⟩
  | hostPayload => exact ⟨rfl, rfl⟩
  | hostReceive => exact ⟨rfl, rfl⟩
  | readCommand => exact ⟨rfl, rfl⟩
  | readCommandFails => exact ⟨rfl, rfl⟩
  | startDownload handling request =>
      exact (consumes ⟨_, handling, .inr (by rw [startsDownload, request])⟩).elim
  | runLine handling other =>
      refine State.runLine_staged discipline ?_
      by_contra produces
      exact consumes ⟨_, handling, .inl (by simpa using produces)⟩
  | prepare =>
      exact ⟨(state.prepareDownload_same _ _ _ _).staged,
        (state.prepareDownload_same _ _ _ _).attempt⟩
  | receive => exact (consumes trivial).elim
  | receiveFails => exact (consumes trivial).elim
  | finish => exact (consumes trivial).elim

/-- What a consumer sees is the payload of the last producer attempt, and
nothing if that attempt staged nothing; the staging area holds just that, with
its length; only producers change it; and a consumer that finds nothing says
so. -/
theorem server_stagingDiscipline {state : State}
    (reached : server.Reachable state) :
    (∀ observation ∈ state.observations,
      Agrees (Attempt.area observation.attempt) observation.observed) ∧
    Denotes state.staged (Attempt.area state.attempt) ∧
    (∀ action next, server.step state action = some next →
      ¬Produces state action →
      next.staged = state.staged ∧ next.attempt = state.attempt) ∧
    (∀ io result line next, server.step state (.runLine io result) = some next →
      state.device = .handling line →
      (dispatch (values line)).ReadsStaged io →
      Attempt.area state.attempt = none →
      next.observations =
          state.observations ++ [⟨.nothing, state.attempt⟩] ∧
        next.responses = state.responses ++ sentBy
          (if (io.respond 0).delivered then [noDataResponse] else [])) := by
  have discipline := discipline_inductive.reachable reached
  refine ⟨discipline.observed, discipline.staged, ?_, ?_⟩
  · intro action next steps consumes
    exact discipline.step_staging steps consumes
  · intro io result line next steps handling reads nothing
    have empty : state.staged = none := by
      have denotes := discipline.staged
      rwa [nothing] at denotes
    rw [server_step] at steps
    cases State.steps_of_step steps with
    | startDownload same request =>
        obtain rfl : line = _ := by simpa [handling] using same
        rw [request] at reads
        exact reads.elim
    | runLine same other =>
        obtain rfl : line = _ := by simpa [handling] using same
        have reports := runLine_noData reads
        have session : state.session = emptySession := by
          rw [State.session, empty]
          rfl
        rw [Ends, ← session] at reports
        simp [State.runLine, reports.1, reports.2]

def uploadCommand : Bytes := Text.utf8 "upload".toList

/-- A download that is staged, and then uploaded. -/
def uploadRun : List Action :=
  [.hostCommand smallCommand, .readCommand, .runLine idleIo .sent,
    .prepare none .sent .sent, .hostReceive, .hostPayload rebootBytes,
    .receive none .sent, .finish none .sent .sent,
    .hostCommand uploadCommand, .readCommand, .runLine idleIo .sent]

theorem server_stagingDiscipline_uploadRun :
    ∃ state, server.Reachable state ∧
      (∀ observation ∈ state.observations,
        Agrees (Attempt.area observation.attempt) observation.observed) ∧
      state.observations.map Observation.observed =
        [.opened ⟨rebootBytes, 0⟩, .sent rebootBytes false,
          .sent rebootBytes true] := by
  have seen : (server.runFrom startState uploadRun).map
      (fun state => state.observations.map Observation.observed) =
      some [.opened ⟨rebootBytes, 0⟩, .sent rebootBytes false,
        .sent rebootBytes true] := by
    decide +kernel
  obtain ⟨state, runs, observed⟩ := Option.map_eq_some_iff.mp seen
  exact ⟨state, ⟨uploadRun, runs⟩,
    (server_stagingDiscipline ⟨uploadRun, runs⟩).1, observed⟩

end Pocketboot.Fastboot
