import Pocketboot.Adb.SyncFraming
import Pocketboot.Base.Stages

/-!
# Calls and replies

A host makes calls on a sync stream: `STAT`, `LIST`, `RECV` and whole pushes.
The session answers each call with responses, and the output thread each
response with packets; both in a row answer each call with its reply, or with
the packets of its reply run and the one that ends it.
-/

namespace Pocketboot.Adb

open SyncWorker (SyncContent frame doneFrame)

/-- A push whose target parses. -/
structure SyncPush where
  target : SyncContent
  path : Bytes
  mode : Nat
  parsed : parseSendTarget target.bytes = .ok (path, mode)
  contents : List SyncContent
  mtime : UInt32

inductive SyncCall where
  | stat (path : SyncContent)
  | list (path : SyncContent)
  | recv (path : SyncContent)
  | send (push : SyncPush)

/-- The bytes of some data and the end of a push. -/
def SyncPush.tail (push : SyncPush) (contents : List SyncContent) : Bytes :=
  contents.flatMap (frame "DATA") ++ doneFrame push.mtime

namespace SyncCall

def name : SyncCall → String
  | .stat _ => "STAT"
  | .list _ => "LIST"
  | .recv _ => "RECV"
  | .send _ => "SEND"

def payload : SyncCall → SyncContent
  | .stat path | .list path | .recv path => path
  | .send push => push.target

def request (call : SyncCall) : SyncMessage :=
  .request (syncId call.name) call.payload.bytes

/-- The bytes of a call behind its request. -/
def remainder : SyncCall → Bytes
  | .send push => push.tail push.contents
  | _ => []

def encode (call : SyncCall) : Bytes :=
  frame call.name call.payload ++ call.remainder

theorem request_send (push : SyncPush) :
    (send push).request = .request (syncId "SEND") push.target.bytes := rfl

theorem name_length (call : SyncCall) : (syncId call.name).length = 4 := by
  unfold name
  split <;> decide

end SyncCall

def encodeCalls (calls : List SyncCall) : Bytes := calls.flatMap SyncCall.encode

/-! ## Stages -/

def IsData (packet : Bytes) : Prop := ∃ content, syncDataPacket content = .ok packet

def IsDent (packet : Bytes) : Prop :=
  ∃ stat name, syncDentPacket stat name = .ok packet

def IsFail (packet : Bytes) : Prop := ∃ message, syncFailPacket message = .ok packet

/-- A counted packet begins with its id. -/
private theorem syncCounted_id {id tooLong : String}
    {front content packet : Bytes} (letters : (syncId id).length = 4)
    (counted : syncCounted id tooLong front content = .ok packet) :
    packet.take 4 = syncId id := by
  simp only [syncCounted, Run.bind_eq_ok, Run.pure_eq_ok, Except.ok.injEq]
    at counted
  obtain ⟨_, _, rfl⟩ := counted
  rw [List.append_assoc, List.append_assoc, List.take_left' letters]

theorem IsFail.id {packet : Bytes} (fails : IsFail packet) :
    packet.take 4 = syncId "FAIL" := by
  obtain ⟨message, told⟩ := fails
  exact syncCounted_id (by decide) told

theorem IsData.id {packet : Bytes} (data : IsData packet) :
    packet.take 4 = syncId "DATA" := by
  obtain ⟨content, told⟩ := data
  exact syncCounted_id (by decide) told

theorem IsDent.id {packet : Bytes} (dent : IsDent packet) :
    packet.take 4 = syncId "DENT" := by
  obtain ⟨stat, name, told⟩ := dent
  exact syncCounted_id (by decide) told

/-- The packets of the reply to a call. -/
def replies : Stage SyncCall Bytes where
  continues call packet :=
    match call with
    | .list _ => IsDent packet
    | .recv _ => IsData packet
    | _ => False
  ends call packet :=
    match call with
    | .stat _ => ∃ stat, packet = syncStatPacket stat
    | .list _ => packet = syncListDonePacket ∨ IsFail packet
    | .recv _ => packet = syncStatusPacket "DONE" 0 ∨ IsFail packet
    | .send _ => packet = syncStatusPacket "OKAY" 0 ∨ IsFail packet

/-- A packet that continues a reply does not end it. -/
theorem replies_continues_ne {call : SyncCall} {packet : Bytes}
    (continues : replies.continues call packet) : ¬ replies.ends call packet := by
  cases call with
  | list path =>
      have dent := IsDent.id continues
      rintro (rfl | fails)
      · exact absurd dent (by decide)
      · exact absurd (dent.symm.trans fails.id) (by decide)
  | recv path =>
      have data := IsData.id continues
      rintro (rfl | fails)
      · exact absurd data (by decide)
      · exact absurd (data.symm.trans fails.id) (by decide)
  | _ => exact continues.elim

/-- The responses to a call. -/
def answers : Stage SyncCall SyncResponse where
  continues call response :=
    ∃ packet, response = .packet packet ∧
      match call with
      | .list _ => IsDent packet
      | _ => False
  ends call response :=
    match call with
    | .recv path => response = .file path.bytes
    | call => ∃ packet, response = .packet packet ∧ replies.ends call packet

/-- The packets of a response. -/
def deliveries : Stage SyncResponse Bytes where
  continues response packet :=
    match response with
    | .packet _ => False
    | .file _ => IsData packet
  ends response packet :=
    match response with
    | .packet payload => packet = payload
    | .file _ => packet = syncStatusPacket "DONE" 0 ∨ IsFail packet

theorem deliveries_packet {payload : Bytes} {run : List Bytes} :
    deliveries.Whole (.packet payload) run ↔ run = [payload] := by
  constructor
  · rintro ⟨body, last, rfl, continues, rfl⟩
    cases body with
    | nil => rfl
    | cons packet body => exact (continues packet List.mem_cons_self).elim
  · rintro rfl
    exact ⟨[], payload, rfl, nofun, rfl⟩

theorem deliveries_packet_part {payload : Bytes} {run : List Bytes}
    (part : deliveries.Part (.packet payload) run) : run = [] :=
  List.eq_nil_iff_forall_not_mem.mpr fun packet member => part packet member

/-- A reply run of one packet. -/
private theorem replies_single {call : SyncCall} {packet : Bytes}
    (ends : replies.ends call packet) : replies.Whole call [packet] :=
  ⟨[], packet, rfl, nofun, ends⟩

/-- Only the end of a push is answered with `OKAY`. -/
theorem answers_okay {call : SyncCall} :
    ¬ answers.continues call (.packet (syncStatusPacket "OKAY" 0)) ∧
      (answers.ends call (.packet (syncStatusPacket "OKAY" 0)) →
        ∃ push, call = .send push) := by
  constructor
  · rintro ⟨packet, same, dent⟩
    cases call with
    | list path =>
        rw [← SyncResponse.packet.inj same] at dent
        exact absurd dent.id (by decide)
    | _ => exact dent
  · intro ends
    cases call with
    | send push => exact ⟨push, rfl⟩
    | recv path => cases ends
    | stat path =>
        obtain ⟨packet, same, stat, rfl⟩ := ends
        have letters := congrArg (List.take 4) (SyncResponse.packet.inj same)
        rw [syncStatPacket, List.append_assoc, List.append_assoc,
          List.take_left' (by decide)] at letters
        exact absurd letters (by decide)
    | list path =>
        obtain ⟨packet, same, listed | fails⟩ := ends
        · rw [← SyncResponse.packet.inj same] at listed
          exact absurd listed (by decide)
        · rw [← SyncResponse.packet.inj same] at fails
          exact absurd fails.id (by decide)

/-- The session and the output thread in a row reply to the calls. -/
theorem answers_through : Stage.Through answers deliveries replies where
  continues := by
    rintro call response run ⟨packet, rfl, dent⟩ whole
    obtain rfl := deliveries_packet.mp whole
    intro other member
    obtain rfl := List.mem_singleton.mp member
    cases call with
    | list path => exact dent
    | _ => exact dent.elim
  ends := by
    intro call response run ends whole
    cases call with
    | recv path =>
        obtain rfl : response = .file path.bytes := ends
        exact whole
    | _ =>
        obtain ⟨packet, rfl, ended⟩ := ends
        obtain rfl := deliveries_packet.mp whole
        exact replies_single ended
  part := by
    rintro call response run (⟨packet, rfl, _⟩ | ends) part
    · rw [deliveries_packet_part part]
      exact Stage.Part.nil call
    · cases call with
      | recv path =>
          obtain rfl : response = .file path.bytes := ends
          exact part
      | _ =>
          obtain ⟨packet, rfl, _⟩ := ends
          rw [deliveries_packet_part part]
          exact Stage.Part.nil _

end Pocketboot.Adb
