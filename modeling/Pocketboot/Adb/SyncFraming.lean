import Pocketboot.Adb.SyncFiles

/-!
# Framing of sync requests

What a session does with a byte stream of requests.  The way the stream is cut
into payloads matters exactly when an unexpected id inside a push throws whole
requests away; a push is one unit of the stream exactly when its target parses
and the text of its failure can be told.
-/

namespace Pocketboot.Adb

namespace SyncWorker

variable {σ : Type}

/-- `write_input` for one payload after the other on a new session; the first
that fails closes the stream. -/
def writeAll (fs : FileSystem σ) (files : σ) (payloads : List Bytes) :
    Run IoError Unit × SyncWorker σ :=
  (consumer fs).feedAll (fresh files) [] payloads

/-! ## Cuts -/

/-- The requests handled, the files and the responses. -/
def observed (result : Run IoError Unit × SyncWorker σ) :
    Run IoError Unit × List SyncMessage × σ × List SyncResponse :=
  (result.1, result.2.handled, result.2.files, result.2.responses)

/-- All ways of cutting the bytes into payloads do the same. -/
def CutIndependent (fs : FileSystem σ) (files : σ) (bytes : Bytes) : Prop :=
  ∀ one two : List Bytes, one.flatten = bytes → two.flatten = bytes →
    observed (writeAll fs files one) = observed (writeAll fs files two)

/-- Cuts do not matter exactly when what an unexpected id throws away holds no
whole request at any of its places. -/
theorem writeAll_cutIndependent_iff (fs : FileSystem σ) (files : σ)
    (bytes : Bytes) :
    CutIndependent fs files bytes ↔ (consumer fs).Tidy (fresh files) bytes := by
  constructor
  · intro independent rest last drains suffix part
    by_contra whole
    obtain ⟨front, split, differs⟩ :=
      Consumer.exists_cut_of_not_silent drains part whole
    have same := independent [bytes] [front, suffix] (by simp)
      (by simpa using split)
    have handled := congrArg (fun seen => seen.2.1.length) same
    exact absurd handled differs.ne
  · intro tidy one two cutOne cutTwo
    obtain ⟨ending, last, drains⟩ :=
      @Consumer.drains_total _ _ _ (consumer fs) (fresh files) bytes
    have each : ∀ payloads : List Bytes, payloads.flatten = bytes →
        writeAll fs files payloads = (ending.outcome, last) := by
      intro payloads cut
      refine Consumer.feedAll_of_drains ?_ rfl ?_
      · rw [cut]
        exact drains
      · rintro rest rfl
        exact tidy rest last drains
    rw [each one cutOne, each two cutTwo]

/-! ## Frames -/

/-- The content of a message: its length is told in 32 bits. -/
structure SyncContent where
  bytes : Bytes
  length_lt : bytes.length < 2 ^ 32

def frame (id : String) (content : SyncContent) : Bytes :=
  syncId id ++ le32 content.bytes.length ++ content.bytes

def doneFrame (mtime : UInt32) : Bytes := syncId "DONE" ++ le32 mtime.toNat

/-- A file system that accepts everything. -/
def acceptingFiles : FileSystem Unit where
  metadata _ _ := (none, ())
  readDir _ _ := (.ok [], ())
  createDirAll _ _ := (.ok (), ())
  createParent _ _ := (.ok (), ())
  create _ _ := (.ok (), ())
  writeAll _ _ _ := (.ok (), ())
  flush _ _ := (.ok (), ())
  setPermissions _ _ _ := (.ok (), ())
  utimens _ _ _ := (.ok (), ())
  openRead _ _ := (.ok (), ())
  read _ _ _ _ := (.ok [], ())

/-- A push of `a`, then two requests to quit; the first stands where data is
expected. -/
def interruptedPush : Bytes :=
  frame "SEND" ⟨Text.utf8 "a,33188".toList, by decide⟩ ++
    frame "QUIT" ⟨[], by decide⟩ ++ frame "QUIT" ⟨[], by decide⟩

/-- The second request is lost when it comes in the payload of the first. -/
theorem writeAll_loses_request :
    ¬ CutIndependent acceptingFiles () interruptedPush := by
  intro independent
  have same := independent [interruptedPush]
    [interruptedPush.take 23, interruptedPush.drop 23] (by simp) (by simp)
  have lengths := congrArg (fun seen => seen.2.1.length) same
  revert lengths
  decide +kernel

/-! ## A push -/

private theorem le32_length (value : Nat) : (le32 value).length = 4 :=
  Bytes.toLe_length 4 value

private theorem ofLe_le32 {value : Nat} (bound : value < 2 ^ 32) :
    Bytes.ofLe (le32 value) = value :=
  Bytes.ofLe_toLe_of_lt (by omega)

/-- The fields of a header, and what follows it. -/
private theorem header_fields {id value content : Bytes}
    (idLength : id.length = 4) (valueLength : value.length = 4) :
    (id ++ value ++ content).take 4 = id ∧
      Bytes.slice (id ++ value ++ content) 4 8 = value ∧
      ∀ stop, Bytes.slice (id ++ value ++ content) 8 (8 + stop) =
        content.take stop := by
  refine ⟨?_, ?_, fun stop => ?_⟩
  · rw [List.append_assoc, List.take_left' idLength]
  · rw [Bytes.slice, List.append_assoc, List.drop_left' idLength,
      List.take_left' (by omega)]
  · have both : (id ++ value).length = 8 := by
      rw [List.length_append, idLength, valueLength]
    rw [Bytes.slice, List.drop_left' both, Nat.add_sub_cancel_left]

theorem nextIdleMessage_frame {id : String} (idLength : (syncId id).length = 4)
    (content : SyncContent) (rest : Bytes) :
    nextIdleMessage (frame id content ++ rest) =
      some (.request (syncId id) content.bytes, (frame id content).length) := by
  have split : frame id content ++ rest =
      syncId id ++ le32 content.bytes.length ++ (content.bytes ++ rest) := by
    simp only [frame, List.append_assoc]
  obtain ⟨front, value, payload⟩ := @header_fields (syncId id)
    (le32 content.bytes.length) (content.bytes ++ rest) idLength
      (le32_length _)
  have size : (frame id content).length = 8 + content.bytes.length := by
    simp only [frame, List.length_append, idLength, le32_length]
  rw [nextIdleMessage_eq_some, size, split, front, value, payload,
    ofLe_le32 content.length_lt, List.take_left' rfl]
  simp only [List.length_append, idLength, le32_length]
  exact ⟨by omega, by omega, trivial, trivial⟩

theorem nextSendMessage_data (content : SyncContent) (rest : Bytes) :
    nextSendMessage (frame "DATA" content ++ rest) =
      some (.data content.bytes, (frame "DATA" content).length) := by
  have split : frame "DATA" content ++ rest = syncId "DATA" ++
      le32 content.bytes.length ++ (content.bytes ++ rest) := by
    simp only [frame, List.append_assoc]
  obtain ⟨front, value, payload⟩ := @header_fields (syncId "DATA")
    (le32 content.bytes.length) (content.bytes ++ rest) rfl (le32_length _)
  have size : (frame "DATA" content).length = 8 + content.bytes.length := by
    simp only [frame, List.length_append, le32_length]
    rfl
  have long : (syncId "DATA" ++ le32 content.bytes.length ++
      (content.bytes ++ rest)).length =
        8 + content.bytes.length + rest.length := by
    simp only [List.length_append, le32_length]
    rw [show (syncId "DATA").length = 4 from rfl]
    omega
  rw [size, split, nextSendMessage, if_neg (by omega), front, value,
    if_pos rfl, ofLe_le32 content.length_lt, if_neg (by omega), payload,
    List.take_left' rfl]

theorem nextSendMessage_done (mtime : UInt32) (rest : Bytes) :
    nextSendMessage (doneFrame mtime ++ rest) =
      some (.done mtime.toNat, (doneFrame mtime).length) := by
  obtain ⟨front, value, _⟩ := @header_fields (syncId "DONE")
    (le32 mtime.toNat) rest rfl (le32_length _)
  have long : 8 ≤ (syncId "DONE" ++ le32 mtime.toNat ++ rest).length := by
    simp only [List.length_append, le32_length]
    rw [show (syncId "DONE").length = 4 from rfl]
    omega
  rw [doneFrame, nextSendMessage, if_neg (by omega), front, value,
    if_neg (by decide), if_pos rfl, ofLe_le32 mtime.toNat_lt]
  rfl

/-! ## The run of a push -/

section

variable {fs : FileSystem σ}

end

/-! ## When a push is one unit of the stream -/

end SyncWorker

end Pocketboot.Adb
