import Pocketboot.Base.Checked
import Pocketboot.Base.IoError
import Pocketboot.Transition.System

/-!
# The backlog of the kernel log forwarder

Records of the kernel log wait in a backlog of limited size until they are
written to the terminal.  A record leaves it when it was written, or to make
room for newer ones; then it is counted.
-/

namespace Pocketboot.Kmsg

def kmsgBacklogMax : Nat := 512 * 1024

structure Backlog where
  records : List Bytes
  bytes : Nat
  droppedRecords : Nat
  droppedBytes : Nat
  deriving DecidableEq, Repr

namespace Backlog

def default : Backlog := ⟨[], 0, 0, 0⟩

/-- The counters after a record was dropped. -/
def countDropped (backlog : Backlog) (record : Bytes) : Backlog :=
  { backlog with
    droppedRecords := backlog.droppedRecords + 1
    droppedBytes := backlog.droppedBytes + record.length }

/-- `self.bytes -= record.len()` panics below zero. -/
def popFront (backlog : Backlog) : Run IoError (Option Bytes × Backlog) :=
  match backlog.records with
  | [] => .ok (none, backlog)
  | record :: rest => do
      let bytes ← subOrPanic backlog.bytes record.length
      return (some record, { backlog with records := rest, bytes := bytes })

/-- The loop of `push` that drops the oldest records. -/
def makeRoom (needed : Nat) : Nat → Backlog → Run IoError Backlog
  | 0, _ => .error .outOfFuel
  | fuel + 1, backlog =>
      if kmsgBacklogMax < backlog.bytes + needed then do
        match ← backlog.popFront with
        | (none, backlog) => .ok backlog
        | (some dropped, backlog) =>
            makeRoom needed fuel (backlog.countDropped dropped)
      else .ok backlog

def push (backlog : Backlog) (record : Bytes) : Run IoError Backlog :=
  if kmsgBacklogMax < record.length then .ok (backlog.countDropped record)
  else do
    let backlog ← makeRoom record.length (backlog.records.length + 1) backlog
    return { backlog with
      records := backlog.records ++ [record]
      bytes := backlog.bytes + record.length }

def clearDropped (backlog : Backlog) : Backlog :=
  { backlog with droppedRecords := 0, droppedBytes := 0 }

end Backlog

/-- How an attempt to flush ends: the backlog, and the records written. -/
structure Flushed where
  outcome : Run IoError Unit
  backlog : Backlog
  written : List Bytes

/-- `flush_backlog_records_with`; the write with this number may fail. -/
def flushRecordsWith (write : Nat → Option IoError) :
    Nat → Nat → Backlog → List Bytes → Flushed
  | 0, _, backlog, written => ⟨.error .outOfFuel, backlog, written⟩
  | fuel + 1, number, backlog, written =>
      match backlog.records.head? with
      | none => ⟨.ok (), backlog, written⟩
      | some record =>
          match write number with
          | some error => ⟨Run.fail error, backlog, written⟩
          | none =>
              match backlog.popFront with
              | .error fault => ⟨.error fault, backlog, written⟩
              | .ok (_, rest) =>
                  flushRecordsWith write fuel (number + 1) rest
                    (written ++ [record])

def flushRecords (write : Nat → Option IoError) (backlog : Backlog) : Flushed :=
  flushRecordsWith write (backlog.records.length + 1) 0 backlog []

/-- The writes of an attempt on a new terminal. -/
structure AttachIo where
  header : Option IoError
  report : Option IoError
  write : Nat → Option IoError

/-- The forwarder with its backlog. -/
structure Forwarder where
  backlog : Backlog
  /-- Ghosts: the records pushed and written, and the counts reported. -/
  pushed : List Bytes
  written : List Bytes
  reportedRecords : Nat
  reportedBytes : Nat

inductive ForwarderAction where
  | push (record : Bytes)
  /-- A new terminal: `flush_backlog`. -/
  | attach (io : AttachIo)
  /-- A terminal in use: `flush_backlog_records`. -/
  | flush (write : Nat → Option IoError)

namespace Forwarder

def start : Forwarder := ⟨.default, [], [], 0, 0⟩

def push (forwarder : Forwarder) (record : Bytes) : Option Forwarder :=
  match forwarder.backlog.push record with
  | .ok backlog =>
      some { forwarder with
        backlog := backlog
        pushed := forwarder.pushed ++ [record] }
  | .error _ => none

/-- An attempt that ends in an error is an attempt; one that panics is none. -/
def flush (forwarder : Forwarder) (write : Nat → Option IoError) :
    Option Forwarder :=
  let flushed := flushRecords write forwarder.backlog
  match flushed.outcome with
  | .ok () | .error (.error _) =>
      some { forwarder with
        backlog := flushed.backlog
        written := forwarder.written ++ flushed.written }
  | .error _ => none

/-- The counts are told, and begin anew. -/
def report (forwarder : Forwarder) : Forwarder :=
  { forwarder with
    backlog := forwarder.backlog.clearDropped
    reportedRecords :=
      forwarder.reportedRecords + forwarder.backlog.droppedRecords
    reportedBytes := forwarder.reportedBytes + forwarder.backlog.droppedBytes }

def attach (forwarder : Forwarder) (io : AttachIo) : Option Forwarder :=
  if io.header.isSome then some forwarder
  else if 0 < forwarder.backlog.droppedRecords then
    if io.report.isSome then some forwarder
    else forwarder.report.flush io.write
  else forwarder.flush io.write

def step (forwarder : Forwarder) : ForwarderAction → Option Forwarder
  | .push record => forwarder.push record
  | .attach io => forwarder.attach io
  | .flush write => forwarder.flush write

end Forwarder

def forwarderSystem : Transition.System Forwarder ForwarderAction where
  initial := .start
  step := Forwarder.step

/-! ## The byte counter -/

/-- The bytes of some records. -/
def total (records : List Bytes) : Nat := (records.map List.length).sum

@[simp] theorem total_nil : total [] = 0 := rfl

@[simp] theorem total_cons (record : Bytes) (records : List Bytes) :
    total (record :: records) = record.length + total records := by
  simp [total]

@[simp] theorem total_append (front back : List Bytes) :
    total (front ++ back) = total front + total back := by
  simp [total]

namespace Backlog

/-- The counter says what is queued, and that is within the limit. -/
structure Sound (backlog : Backlog) : Prop where
  bytes : backlog.bytes = total backlog.records
  limit : backlog.bytes ≤ kmsgBacklogMax

variable {backlog : Backlog}

theorem popFront_nil (empty : backlog.records = []) :
    backlog.popFront = .ok (none, backlog) := by
  rw [popFront, empty]

theorem popFront_cons {record : Bytes} {rest : List Bytes}
    (bytes : backlog.bytes = total backlog.records)
    (records : backlog.records = record :: rest) :
    backlog.popFront = .ok (some record,
      { backlog with records := rest, bytes := total rest }) := by
  rw [records, total_cons] at bytes
  rw [popFront, records]
  dsimp only
  rw [subOrPanic_of (by omega), Run.ok_bind, bytes, Nat.add_sub_cancel_left]
  rfl

/-- The records that make room are the oldest, and are counted. -/
theorem makeRoom_eq_ok {needed fuel : Nat}
    (bytes : backlog.bytes = total backlog.records)
    (small : needed ≤ kmsgBacklogMax)
    (enough : backlog.records.length < fuel) :
    ∃ dropped room, makeRoom needed fuel backlog = .ok room ∧
      backlog.records = dropped ++ room.records ∧
      room.bytes = total room.records ∧
      room.bytes + needed ≤ kmsgBacklogMax ∧
      room.droppedRecords = backlog.droppedRecords + dropped.length ∧
      room.droppedBytes = backlog.droppedBytes + total dropped := by
  induction fuel generalizing backlog with
  | zero => omega
  | succ fuel induction =>
      unfold makeRoom
      by_cases full : kmsgBacklogMax < backlog.bytes + needed
      · rw [if_pos full]
        cases records : backlog.records with
        | nil =>
            rw [records, total_nil] at bytes
            omega
        | cons record rest =>
            rw [popFront_cons bytes records]
            rw [records, List.length_cons] at enough
            obtain ⟨dropped, room, made, split, sum, fits, count, size⟩ :=
              @induction (countDropped
                { backlog with records := rest, bytes := total rest } record)
                rfl (Nat.lt_of_succ_lt_succ enough)
            refine ⟨record :: dropped, room, made, ?_, sum, fits, ?_, ?_⟩
            · rw [List.cons_append, ← split]
              rfl
            · rw [count, List.length_cons]
              simp only [countDropped]
              omega
            · rw [size, total_cons]
              simp only [countDropped]
              omega
      · rw [if_neg full]
        exact ⟨[], backlog, rfl, rfl, bytes, by omega, rfl, rfl⟩

/-- A record that is pushed is dropped or queued; the oldest make room. -/
theorem push_eq_ok (sound : backlog.Sound) (record : Bytes) :
    ∃ next, backlog.push record = .ok next ∧ next.Sound ∧
      ((next = backlog.countDropped record) ∨
        ∃ dropped rest, backlog.records = dropped ++ rest ∧
          next.records = rest ++ [record] ∧
          next.droppedRecords = backlog.droppedRecords + dropped.length ∧
          next.droppedBytes = backlog.droppedBytes + total dropped) := by
  unfold push
  by_cases large : kmsgBacklogMax < record.length
  · rw [if_pos large]
    exact ⟨_, rfl, ⟨sound.bytes, sound.limit⟩, .inl rfl⟩
  · rw [if_neg large]
    obtain ⟨dropped, room, made, split, sum, fits, count, size⟩ :=
      @makeRoom_eq_ok backlog record.length (backlog.records.length + 1)
        sound.bytes (Nat.not_lt.mp large) (Nat.lt_succ_self _)
    rw [made, Run.ok_bind]
    refine ⟨_, rfl, ⟨?_, fits⟩, .inr ⟨dropped, room.records, split, rfl, count, size⟩⟩
    simp [sum]

end Backlog

/-- What an attempt to flush does: it writes the oldest records, and stops at
the first that it cannot write. -/
structure Flushes (write : Nat → Option IoError) (number : Nat)
    (backlog : Backlog) (before : List Bytes) (flushed : Flushed)
    (records : List Bytes) : Prop where
  split : backlog.records = records ++ flushed.backlog.records
  written : flushed.written = before ++ records
  sound : flushed.backlog.Sound
  droppedRecords : flushed.backlog.droppedRecords = backlog.droppedRecords
  droppedBytes : flushed.backlog.droppedBytes = backlog.droppedBytes
  ends : (flushed.outcome = .ok () ∧ flushed.backlog.records = []) ∨
    ∃ error, flushed.outcome = Run.fail error ∧
      write (number + records.length) = some error ∧
        flushed.backlog.records ≠ []

theorem flushRecordsWith_flushes {write : Nat → Option IoError}
    {fuel number : Nat} {backlog : Backlog} {before : List Bytes}
    (sound : backlog.Sound) (enough : backlog.records.length < fuel) :
    ∃ records, Flushes write number backlog before
      (flushRecordsWith write fuel number backlog before) records := by
  induction fuel generalizing number backlog before with
  | zero => omega
  | succ fuel induction =>
      unfold flushRecordsWith
      cases records : backlog.records with
      | nil =>
          rw [List.head?_nil]
          exact ⟨[], rfl, (List.append_nil _).symm, sound, rfl, rfl,
            .inl ⟨rfl, records⟩⟩
      | cons record rest =>
          rw [List.head?_cons]
          dsimp only
          cases fails : write number with
          | some error =>
              exact ⟨[], rfl, (List.append_nil _).symm, sound, rfl, rfl,
                .inr ⟨error, rfl, fails, by rw [records]; simp⟩⟩
          | none =>
              rw [Backlog.popFront_cons sound.bytes records]
              dsimp only
              have limit := sound.limit
              rw [sound.bytes, records, total_cons] at limit
              rw [records, List.length_cons] at enough
              obtain ⟨later, flushes⟩ := @induction (number + 1)
                { backlog with records := rest, bytes := total rest }
                (before ++ [record]) ⟨rfl, show total rest ≤ _ by omega⟩
                (Nat.lt_of_succ_lt_succ enough)
              refine ⟨record :: later, ?_, ?_, flushes.sound,
                flushes.droppedRecords, flushes.droppedBytes, ?_⟩
              · rw [records, List.cons_append, ← flushes.split]
              · rw [flushes.written, List.append_assoc]
                rfl
              · refine flushes.ends.imp_right ?_
                rintro ⟨error, outcome, failed, left⟩
                refine ⟨error, outcome, ?_, left⟩
                rw [List.length_cons, ← Nat.add_assoc, Nat.add_right_comm]
                exact failed

/-! ## The ledger of records -/

inductive Fate where
  | written
  | dropped
  | queued
  deriving DecidableEq, Repr

/-- The records of one fate, in the order in which they were pushed. -/
def withFate (fate : Fate) (entries : List (Bytes × Fate)) : List Bytes :=
  entries.filterMap fun (record, other) =>
    if other = fate then some record else none

@[simp] theorem withFate_append (fate : Fate)
    (front back : List (Bytes × Fate)) :
    withFate fate (front ++ back) = withFate fate front ++ withFate fate back :=
  List.filterMap_append

@[simp] theorem withFate_nil (fate : Fate) : withFate fate [] = [] := rfl

@[simp] theorem withFate_cons (fate other : Fate) (record : Bytes)
    (entries : List (Bytes × Fate)) :
    withFate fate ((record, other) :: entries) =
      (if other = fate then [record] else []) ++ withFate fate entries := by
  by_cases same : other = fate <;> simp [withFate, same]

/-- Each pushed record has one fate; so many of them were dropped, with so many
bytes.  What waits was pushed after all that was written. -/
structure Accounts (pushed written queued : List Bytes) (count size : Nat)
    (entries : List (Bytes × Fate)) : Prop where
  pushed : entries.map Prod.fst = pushed
  written : withFate .written entries = written
  queued : withFate .queued entries = queued
  count : (withFate .dropped entries).length = count
  size : total (withFate .dropped entries) = size
  ordered : ∃ settled pending, entries = settled ++ pending ∧
    withFate .queued settled = [] ∧ withFate .written pending = []

theorem withFate_eq_cons {fate : Fate} {entries : List (Bytes × Fate)}
    {record : Bytes} {rest : List Bytes}
    (found : withFate fate entries = record :: rest) :
    ∃ before after, entries = before ++ (record, fate) :: after ∧
      withFate fate before = [] ∧ withFate fate after = rest := by
  obtain ⟨before, ⟨other, actual⟩, after, split, early, here, later⟩ :=
    List.filterMap_eq_cons_iff.mp found
  obtain ⟨rfl, same⟩ := Option.ite_none_right_eq_some.mp here
  obtain rfl := Option.some.inj same
  exact ⟨before, after, split, List.filterMap_eq_nil_iff.mpr early, later⟩

theorem total_perm {left right : List Bytes} (same : left.Perm right) :
    total left = total right :=
  (same.map List.length).sum_eq

namespace Accounts

variable {pushed written queued : List Bytes} {count size : Nat}
  {entries : List (Bytes × Fate)} {record : Bytes}

/-- The oldest record that waits gets its fate.  All before it is settled, and
nothing after it was written. -/
private theorem settle
    (accounts : Accounts pushed written (record :: queued) count size entries)
    (fate : Fate) (settles : fate ≠ .queued) :
    ∃ next, next.map Prod.fst = pushed ∧ withFate .queued next = queued ∧
      withFate .written next =
        written ++ (if fate = .written then [record] else []) ∧
      (withFate .dropped next).Perm (withFate .dropped entries ++
        if fate = .dropped then [record] else []) ∧
      ∃ settled pending, next = settled ++ pending ∧
        withFate .queued settled = [] ∧ withFate .written pending = [] := by
  obtain ⟨settled, pending, rfl, noneQueued, noneWritten⟩ := accounts.ordered
  have waiting := accounts.queued
  rw [withFate_append, noneQueued, List.nil_append] at waiting
  obtain ⟨before, after, rfl, early, later⟩ := withFate_eq_cons waiting
  simp only [withFate_append, withFate_cons, List.append_eq_nil_iff]
    at noneWritten
  obtain ⟨writtenBefore, -, writtenAfter⟩ := noneWritten
  refine ⟨(settled ++ before ++ [(record, fate)]) ++ after, ?_, ?_, ?_, ?_,
    _, _, rfl, ?_, writtenAfter⟩
  · rw [← accounts.pushed]
    simp
  · simp [noneQueued, early, later, settles]
  · rw [← accounts.written]
    simp [writtenBefore, writtenAfter]
  · simp only [withFate_append, withFate_cons, withFate_nil, reduceCtorEq,
      if_false, List.nil_append, List.append_nil, List.append_assoc]
    exact (List.perm_append_comm.append_left _).append_left _
  · simp [noneQueued, early, settles]

theorem write
    (accounts : Accounts pushed written (record :: queued) count size entries) :
    ∃ next, Accounts pushed (written ++ [record]) queued count size next := by
  obtain ⟨next, all, waiting, done, gone, ordered⟩ :=
    accounts.settle .written (by decide)
  rw [if_neg (by decide), List.append_nil] at gone
  refine ⟨next, all, done, waiting, ?_, ?_, ordered⟩
  · rw [gone.length_eq, accounts.count]
  · rw [total_perm gone, accounts.size]

theorem drop
    (accounts : Accounts pushed written (record :: queued) count size entries) :
    ∃ next, Accounts pushed written queued (count + 1) (size + record.length)
      next := by
  obtain ⟨next, all, waiting, done, gone, ordered⟩ :=
    accounts.settle .dropped (by decide)
  rw [if_neg (by decide), List.append_nil] at done
  rw [if_pos rfl] at gone
  refine ⟨next, all, done, waiting, ?_, ?_, ordered⟩
  · rw [gone.length_eq, List.length_append, accounts.count]
    rfl
  · rw [total_perm gone, total_append, accounts.size]
    simp

theorem writeAll {records : List Bytes}
    (accounts : Accounts pushed written (records ++ queued) count size
      entries) :
    ∃ next, Accounts pushed (written ++ records) queued count size next := by
  induction records generalizing written entries with
  | nil => exact ⟨entries, by simpa using accounts⟩
  | cons record records induction =>
      obtain ⟨_, once⟩ := accounts.write
      obtain ⟨next, all⟩ := induction once
      exact ⟨next, by simpa using all⟩

theorem dropAll {dropped : List Bytes}
    (accounts : Accounts pushed written (dropped ++ queued) count size
      entries) :
    ∃ next, Accounts pushed written queued (count + dropped.length)
      (size + total dropped) next := by
  induction dropped generalizing count size entries with
  | nil => exact ⟨entries, accounts⟩
  | cons record dropped induction =>
      obtain ⟨_, once⟩ := accounts.drop
      obtain ⟨next, all⟩ := induction once
      refine ⟨next, ?_⟩
      rw [List.length_cons, total_cons, Nat.add_comm dropped.length,
        ← Nat.add_assoc, ← Nat.add_assoc]
      exact all

/-- A new record waits behind all others. -/
theorem enqueue (accounts : Accounts pushed written queued count size entries)
    (record : Bytes) :
    Accounts (pushed ++ [record]) written (queued ++ [record]) count size
      (entries ++ [(record, .queued)]) := by
  obtain ⟨settled, pending, rfl, noneQueued, noneWritten⟩ := accounts.ordered
  refine ⟨?_, ?_, ?_, ?_, ?_, settled, pending ++ [(record, .queued)],
    List.append_assoc _ _ _, noneQueued, ?_⟩
  · rw [List.map_append, accounts.pushed]
    rfl
  · rw [withFate_append, accounts.written]
    simp
  · rw [withFate_append, accounts.queued]
    simp
  · rw [withFate_append, ← accounts.count]
    simp
  · rw [withFate_append, ← accounts.size]
    simp
  · simp [noneWritten]

/-- A new record is too large. -/
theorem reject (accounts : Accounts pushed written queued count size entries)
    (record : Bytes) :
    Accounts (pushed ++ [record]) written queued (count + 1)
      (size + record.length) (entries ++ [(record, .dropped)]) := by
  obtain ⟨settled, pending, rfl, noneQueued, noneWritten⟩ := accounts.ordered
  refine ⟨?_, ?_, ?_, ?_, ?_, settled, pending ++ [(record, .dropped)],
    List.append_assoc _ _ _, noneQueued, ?_⟩
  · rw [List.map_append, accounts.pushed]
    rfl
  · rw [withFate_append, accounts.written]
    simp
  · rw [withFate_append, accounts.queued]
    simp
  · rw [withFate_append, List.length_append, accounts.count]
    rfl
  · rw [withFate_append, total_append, accounts.size]
    rfl
  · simp [noneWritten]

end Accounts

/-! ## Every run -/

namespace Forwarder

/-- Everything pushed is accounted for; what was dropped is counted, and the
counts that were reported count as well. -/
structure Accounted (forwarder : Forwarder) : Prop where
  sound : forwarder.backlog.Sound
  accounts : ∃ entries, Accounts forwarder.pushed forwarder.written
    forwarder.backlog.records
    (forwarder.reportedRecords + forwarder.backlog.droppedRecords)
    (forwarder.reportedBytes + forwarder.backlog.droppedBytes) entries

theorem start_accounted : Accounted .start where
  sound := ⟨rfl, Nat.zero_le _⟩
  accounts := ⟨[], rfl, rfl, rfl, rfl, rfl, [], [], rfl, rfl, rfl⟩

variable {forwarder : Forwarder}

theorem push_accounted (accounted : forwarder.Accounted) (record : Bytes) :
    ∃ next, forwarder.push record = some next ∧ next.Accounted := by
  obtain ⟨entries, accounts⟩ := accounted.accounts
  obtain ⟨backlog, pushes, sound, cases⟩ :=
    Backlog.push_eq_ok accounted.sound record
  unfold push
  rw [pushes]
  refine ⟨_, rfl, sound, ?_⟩
  rcases cases with rfl | ⟨dropped, rest, split, records, count, size⟩
  · refine ⟨entries ++ [(record, .dropped)], ?_⟩
    simp only [Backlog.countDropped, ← Nat.add_assoc]
    exact accounts.reject record
  · rw [split] at accounts
    obtain ⟨fates, fewer⟩ := accounts.dropAll
    refine ⟨fates ++ [(record, .queued)], ?_⟩
    simp only [records, count, size, ← Nat.add_assoc]
    exact fewer.enqueue record

/-- The attempt writes what leaves the backlog.  If it fails, the record that
it was writing stays in front. -/
theorem flushRecords_flushes (sound : forwarder.backlog.Sound)
    (write : Nat → Option IoError) :
    ∃ records, Flushes write 0 forwarder.backlog []
      (flushRecords write forwarder.backlog) records :=
  flushRecordsWith_flushes sound (Nat.lt_succ_self _)

theorem flush_accounted (accounted : forwarder.Accounted)
    (write : Nat → Option IoError) :
    ∃ next, forwarder.flush write = some next ∧ next.Accounted := by
  obtain ⟨entries, accounts⟩ := accounted.accounts
  obtain ⟨records, flushes⟩ := flushRecords_flushes accounted.sound write
  rw [flushes.split] at accounts
  obtain ⟨settled, fewer⟩ := accounts.writeAll
  have written := flushes.written
  rw [List.nil_append] at written
  unfold flush
  dsimp only
  rcases flushes.ends with ⟨outcome, -⟩ | ⟨error, outcome, -⟩
  all_goals
    rw [outcome]
    refine ⟨_, rfl, flushes.sound, settled, ?_⟩
    rw [written, flushes.droppedRecords, flushes.droppedBytes]
    exact fewer

theorem report_accounted (accounted : forwarder.Accounted) :
    forwarder.report.Accounted where
  sound := ⟨accounted.sound.bytes, accounted.sound.limit⟩
  accounts := accounted.accounts

theorem attach_accounted (accounted : forwarder.Accounted) (io : AttachIo) :
    ∃ next, forwarder.attach io = some next ∧ next.Accounted := by
  unfold attach
  split
  · exact ⟨_, rfl, accounted⟩
  · split
    · split
      · exact ⟨_, rfl, accounted⟩
      · exact flush_accounted (report_accounted accounted) io.write
    · exact flush_accounted accounted io.write

/-- No step panics, and each keeps the accounts. -/
theorem step_accounted (accounted : forwarder.Accounted)
    (action : ForwarderAction) :
    ∃ next, forwarder.step action = some next ∧ next.Accounted := by
  cases action with
  | push record => exact push_accounted accounted record
  | attach io => exact attach_accounted accounted io
  | flush write => exact flush_accounted accounted write

end Forwarder

theorem forwarderSystem_accounted :
    forwarderSystem.Inductive Forwarder.Accounted where
  initially := Forwarder.start_accounted
  kept accounted steps := by
    obtain ⟨next, expected, kept⟩ := Forwarder.step_accounted accounted _
    obtain rfl := Option.some.inj (expected.symm.trans steps)
    exact kept

/-- What holds in every run of pushes and attempts to flush: each goes through,
the byte counter is the size of what waits and within the limit, and every
record that was pushed is written, counted as dropped or waiting, once and in
order.  An attempt that fails keeps the record that it was writing. -/
theorem forwarder_accounts {forwarder : Forwarder}
    (reached : forwarderSystem.Reachable forwarder) :
    (∀ action, (forwarder.step action).isSome) ∧
      forwarder.backlog.bytes = total forwarder.backlog.records ∧
      forwarder.backlog.bytes ≤ kmsgBacklogMax ∧
      (∃ entries, Accounts forwarder.pushed forwarder.written
        forwarder.backlog.records
        (forwarder.reportedRecords + forwarder.backlog.droppedRecords)
        (forwarder.reportedBytes + forwarder.backlog.droppedBytes) entries) ∧
      ∀ write error,
        (flushRecords write forwarder.backlog).outcome = Run.fail error →
          ∃ record rest,
            (flushRecords write forwarder.backlog).backlog.records =
                record :: rest ∧
              forwarder.backlog.records =
                (flushRecords write forwarder.backlog).written ++
                  record :: rest ∧
              write (flushRecords write forwarder.backlog).written.length =
                some error := by
  have accounted := forwarderSystem_accounted.reachable reached
  refine ⟨fun action => ?_, accounted.sound.bytes, accounted.sound.limit,
    accounted.accounts, fun write error failed => ?_⟩
  · obtain ⟨next, steps, -⟩ := Forwarder.step_accounted accounted action
    rw [steps]
    rfl
  · obtain ⟨records, flushes⟩ :=
      Forwarder.flushRecords_flushes accounted.sound write
    have written := flushes.written
    rw [List.nil_append] at written
    rcases flushes.ends with ⟨outcome, -⟩ | ⟨other, outcome, stops, left⟩
    · rw [outcome] at failed
      cases failed
    · rw [outcome] at failed
      obtain rfl : other = error := by
        simpa [Run.fail] using failed
      obtain ⟨record, rest, ahead⟩ := List.exists_cons_of_ne_nil left
      refine ⟨record, rest, ahead, ?_, ?_⟩
      · rw [written, ← ahead]
        exact flushes.split
      · rw [written]
        simpa using stops

/-- Two records, of which one is written before the terminal goes away. -/
def forwarderSmall : List ForwarderAction :=
  [.push [111, 110, 101], .push [116, 119, 111],
    .flush fun number =>
      if number = 1 then some ⟨.brokenPipe, "tty closed"⟩ else none]

theorem forwarder_accounts_small :
    ∃ forwarder, forwarderSystem.Reachable forwarder ∧
      forwarder.written = [[111, 110, 101]] ∧
      forwarder.backlog.records = [[116, 119, 111]] ∧
      forwarder.backlog.bytes = total forwarder.backlog.records :=
  ⟨_, ⟨forwarderSmall, rfl⟩, rfl, rfl,
    (forwarder_accounts ⟨forwarderSmall, rfl⟩).2.1⟩

end Pocketboot.Kmsg
