import Pocketboot.SpinTable.Protocol

/-!
# Parked secondaries

What a secondary may be doing depends on what the primary is doing.  `CpuOk`
gives, for each phase of the primary, the places and slot words a secondary may
have; every step keeps it, and a verification that reads an acknowledgement
equal to the epoch leaves a single possibility.
-/

namespace Pocketboot.SpinTable

/-- The phases of the primary that bound what a secondary may do. -/
inductive Phase where
  | cold
  | running
  | stopping
  | handedOver
  | stopped
  deriving DecidableEq, Repr

def PrimaryPc.phase : PrimaryPc → Phase
  | .coldBoot _ | .coldWait _ _ | .coldEntryEl _ _ | .coldCoherency _ _ => .cold
  | .kernel | .preparing _ | .preparingOnline _ _ => .running
  | .killing _ | .killAck _ _ | .killCompare _ _ _ | .verifying _
  | .verifyAck _ _ | .verifyCompare _ _ _ => .stopping
  | .verified | .validateShared _ | .validating _ _ | .validateSlot _ _ _ _
  | .validated _ => .handedOver
  | .stopped => .stopped

/-- In the wait loop of the epoch the kernel of `generation` has written, with
the acknowledgement of that generation and release word 0. -/
structure Parked (generation : Nat) (cpu : Cpu) : Prop where
  waiting : ∃ ectlr, cpu.pc = .wait cpu.epoch ectlr
  request : cpu.request = cpu.epoch
  ack : cpu.ack = cpu.epoch
  release : cpu.release = 0
  fresh : cpu.ackGeneration = generation
  written : cpu.epoch ≠ 0
  bounded : cpu.epoch ≤ u64Max

/-- During the cold boot every request word is 1. -/
def ColdOk (cpu : Cpu) : Prop :=
  cpu.request = 1 ∧ cpu.release = 0 ∧
    match cpu.pc with
    | .reset | .entry | .checked | .halted => cpu.ack = 0
    | .gotRequest token | .publishedEl token
    | .publishedDiagnostics token _ => token = 1 ∧ cpu.ack = 0
    | .wait token _ => token = 1 ∧ cpu.ack = 1
    | _ => False

/-- A kernel runs: a secondary is still parked, on its way out, or in the text
of this kernel, and only the latter is online. -/
def RunningOk (generation : Nat) (cpu : Cpu) : Prop :=
  cpu.request ≤ u64Max ∧ cpu.epoch = 0 ∧
    match cpu.pc with
    | .wait token _ =>
        token = cpu.request ∧ cpu.ack = cpu.request ∧ cpu.online = false
    | .leaving _ _ => cpu.ack = cpu.request ∧ cpu.online = false
    | .halted => cpu.online = false
    | .kernel own => own = generation ∧ cpu.ack = cpu.request
    | .panicked _ => True
    | _ => False

/-- The kernel shuts down: the acknowledgement trails the epoch until the
secondary has parked. -/
def StoppingOk (generation : Nat) (cpu : Cpu) : Prop :=
  cpu.online = true ∧ cpu.request ≤ u64Max ∧
    match cpu.pc with
    | .kernel own =>
        own = generation ∧ cpu.epoch = 0 ∧ cpu.ack = cpu.request
    | .disabling own epoch => own = generation ∧ cpu.epoch = 0 ∧
        cpu.ack = epoch ∧ cpu.request = epoch ∧ epoch < u64Max
    | .epochWritten own epoch => own = generation ∧
        cpu.epoch = epoch + 1 ∧ cpu.ack = epoch ∧ cpu.request = epoch ∧
        epoch < u64Max
    | .releaseCleared own epoch => own = generation ∧
        cpu.epoch = epoch + 1 ∧ cpu.ack = epoch ∧ epoch < u64Max ∧
        cpu.release = 0
    | .disabled own => own = generation ∧ cpu.epoch = cpu.request ∧
        cpu.ack < cpu.request ∧ cpu.release = 0
    | .entry | .checked | .halted => cpu.epoch = cpu.request ∧
        cpu.ack < cpu.request ∧ cpu.release = 0
    | .gotRequest token | .publishedEl token
    | .publishedDiagnostics token _ => token = cpu.request ∧
        cpu.epoch = cpu.request ∧ cpu.ack < cpu.request ∧ cpu.release = 0
    | .wait _ _ => Parked generation cpu
    | .panicked _ => cpu.epoch = 0
    | _ => False

/-- What a secondary may be doing in each phase of the primary. -/
def CpuOk : Phase → Nat → Cpu → Prop
  | .cold, _, cpu => ColdOk cpu
  | .running, generation, cpu => RunningOk generation cpu
  | .stopping, generation, cpu => StoppingOk generation cpu
  | .handedOver, generation, cpu => Parked generation cpu
  | .stopped, _, _ => True

/-- The flag `pb_shutting_down` in each phase. -/
def FlagOk : Phase → Bool → Prop
  | .cold, flag | .running, flag => flag = false
  | .stopping, flag => flag = true
  | .handedOver, _ | .stopped, _ => True

def Waiting (cpu : Cpu) : Prop := ∃ token ectlr, cpu.pc = .wait token ectlr

/-- What the primary's loops have established about the CPUs already done. -/
def Progress (generation : Nat) (cpu : Secondary → Cpu) : PrimaryPc → Prop
  | .coldBoot rest | .coldEntryEl _ rest | .coldCoherency _ rest =>
      rest.Nodup ∧ (∀ index ∈ rest, (cpu index).pc = .reset) ∧
        ∀ index, index ∉ rest → Waiting (cpu index)
  | .coldWait current rest =>
      (current :: rest).Nodup ∧ (∀ index ∈ rest, (cpu index).pc = .reset) ∧
        ∀ index, index ∉ current :: rest → Waiting (cpu index)
  | .preparing rest => ∀ index, index ∉ rest → (cpu index).online = true
  | .preparingOnline current rest =>
      ∀ index, index ∉ current :: rest → (cpu index).online = true
  | .killAck current _ => (cpu current).epoch ≠ 0
  | .killCompare current ack _ =>
      (cpu current).epoch ≠ 0 ∧ ack ≤ (cpu current).ack
  | .verifying rest => ∀ index, index ∉ rest → Parked generation (cpu index)
  | .verifyAck current rest =>
      (cpu current).epoch ≠ 0 ∧
        ∀ index, index ∉ current :: rest → Parked generation (cpu index)
  | .verifyCompare current ack rest =>
      (cpu current).epoch ≠ 0 ∧ ack ≤ (cpu current).ack ∧
        ∀ index, index ∉ current :: rest → Parked generation (cpu index)
  | _ => True

/-- The invariant of the protocol. -/
structure Inv (state : State) : Prop where
  cpus : ∀ index,
    CpuOk state.primary.phase state.generation (state.cpu index)
  flag : FlagOk state.primary.phase state.shuttingDown
  progress : Progress state.generation state.cpu state.primary

/-! ### Steps of a secondary -/

/-- What one step of a secondary can do. -/
inductive CpuMove (generation : Nat) (shuttingDown : Bool) (cpu : Cpu) :
    Cpu → Prop where
  | halt (pc : cpu.pc = .entry ∨ cpu.pc = .checked ∧ cpu.request = 0) :
      CpuMove generation shuttingDown cpu { cpu with pc := .halted }
  | pass (pc : cpu.pc = .entry) :
      CpuMove generation shuttingDown cpu { cpu with pc := .checked }
  | take (pc : cpu.pc = .checked) (nonzero : cpu.request ≠ 0) :
      CpuMove generation shuttingDown cpu
        { cpu with pc := .gotRequest cpu.request }
  | publishEl {token : Nat} (pc : cpu.pc = .gotRequest token)
      (currentEl : Nat) :
      CpuMove generation shuttingDown cpu
        { cpu with pc := .publishedEl token, entryEl := currentEl }
  | publishDiagnostics {token : Nat} (pc : cpu.pc = .publishedEl token)
      (ectlr : Nat) :
      CpuMove generation shuttingDown cpu
        { cpu with pc := .publishedDiagnostics token ectlr, ectlr := ectlr }
  | acknowledge {token ectlr : Nat}
      (pc : cpu.pc = .publishedDiagnostics token ectlr) :
      CpuMove generation shuttingDown cpu
        { cpu with pc := .wait token ectlr
                   ack := token
                   ackGeneration := generation }
  | keepWaiting {token ectlr : Nat} (pc : cpu.pc = .wait token ectlr)
      (unreleased : cpu.release = 0) :
      CpuMove generation shuttingDown cpu cpu
  | leave {token ectlr : Nat} (pc : cpu.pc = .wait token ectlr)
      (released : cpu.release ≠ 0) :
      CpuMove generation shuttingDown cpu
        { cpu with pc := .leaving cpu.release ectlr }
  | refuse {target ectlr : Nat} (pc : cpu.pc = .leaving target ectlr) :
      CpuMove generation shuttingDown cpu { cpu with pc := .halted }
  | enterKernel {target ectlr : Nat} (pc : cpu.pc = .leaving target ectlr) :
      CpuMove generation shuttingDown cpu
        { cpu with pc := .kernel generation }
  | comeOnline {own : Nat} (pc : cpu.pc = .kernel own) :
      CpuMove generation shuttingDown cpu { cpu with online := true }
  | refuseDisable {own : Nat} (pc : cpu.pc = .kernel own) :
      CpuMove generation shuttingDown cpu cpu
  | disable {own : Nat} (pc : cpu.pc = .kernel own)
      (shutdown : shuttingDown = true) (room : cpu.request ≠ u64Max) :
      CpuMove generation shuttingDown cpu
        { cpu with pc := .disabling own cpu.request }
  | writeEpoch {own epoch : Nat} (pc : cpu.pc = .disabling own epoch) :
      CpuMove generation shuttingDown cpu
        { cpu with pc := .epochWritten own epoch
                   epoch := (epoch + 1) % 2 ^ 64 }
  | clearRelease {own epoch : Nat} (pc : cpu.pc = .epochWritten own epoch) :
      CpuMove generation shuttingDown cpu
        { cpu with pc := .releaseCleared own epoch, release := 0 }
  | writeRequest {own epoch : Nat} (pc : cpu.pc = .releaseCleared own epoch) :
      CpuMove generation shuttingDown cpu
        { cpu with pc := .disabled own, request := (epoch + 1) % 2 ^ 64 }
  | die {own : Nat} (pc : cpu.pc = .disabled own ∨ cpu.pc = .kernel own)
      (prepared : cpu.epoch ≠ 0 ∧ shuttingDown = true) :
      CpuMove generation shuttingDown cpu { cpu with pc := .entry }
  | panic {own : Nat} (pc : cpu.pc = .disabled own ∨ cpu.pc = .kernel own)
      (unprepared : cpu.epoch = 0 ∨ shuttingDown = false) :
      CpuMove generation shuttingDown cpu { cpu with pc := .panicked own }

section Secondary

variable {generation : Nat} {shuttingDown : Bool} {cpu next : Cpu}
  {action : CpuAction}

theorem Cpu.step_moves
    (steps : cpu.step generation shuttingDown action = some next) :
    CpuMove generation shuttingDown cpu next := by
  unfold Cpu.step at steps
  split at steps
  case h_1 passes pc =>
    obtain rfl := Option.some.inj steps
    cases passes
    · exact .halt (.inl pc)
    · exact .pass pc
  case h_2 pc =>
    obtain rfl := Option.some.inj steps
    split
    · rename_i zero
      exact .halt (.inr ⟨pc, zero⟩)
    · rename_i nonzero
      exact .take pc nonzero
  case h_3 pc => exact Option.some.inj steps ▸ .publishEl pc _
  case h_4 pc => exact Option.some.inj steps ▸ .publishDiagnostics pc _
  case h_5 pc => exact Option.some.inj steps ▸ .acknowledge pc
  case h_6 pc =>
    obtain rfl := Option.some.inj steps
    split
    · rename_i unreleased
      rw [← pc]
      exact .keepWaiting pc unreleased
    · rename_i released
      exact .leave pc released
  case h_7 pc =>
    obtain rfl := Option.some.inj steps
    split
    · exact .enterKernel pc
    · exact .refuse pc
  case h_8 pc => exact Option.some.inj steps ▸ .comeOnline pc
  case h_9 pc =>
    split at steps
    · exact Option.some.inj steps ▸ .refuseDisable pc
    · rename_i allowed
      obtain ⟨shutdown, room⟩ := not_or.mp allowed
      exact Option.some.inj steps ▸
        .disable pc (Bool.eq_true_of_not_eq_false shutdown) room
  case h_10 pc => exact Option.some.inj steps ▸ .writeEpoch pc
  case h_11 pc => exact Option.some.inj steps ▸ .clearRelease pc
  case h_12 pc => exact Option.some.inj steps ▸ .writeRequest pc
  case h_13 pc =>
    obtain rfl := Option.some.inj steps
    split
    · rename_i unprepared
      exact .panic (.inl pc) unprepared
    · rename_i prepared
      obtain ⟨epoch, shutdown⟩ := not_or.mp prepared
      exact .die (.inl pc) ⟨epoch, Bool.eq_true_of_not_eq_false shutdown⟩
  case h_14 pc =>
    obtain rfl := Option.some.inj steps
    split
    · rename_i unprepared
      exact .panic (.inr pc) unprepared
    · rename_i prepared
      obtain ⟨epoch, shutdown⟩ := not_or.mp prepared
      exact .die (.inr pc) ⟨epoch, Bool.eq_true_of_not_eq_false shutdown⟩
  case h_15 => simp at steps

theorem CpuMove.not_reset
    (moves : CpuMove generation shuttingDown cpu next) : cpu.pc ≠ .reset := by
  intro reset
  cases moves <;> simp_all

/-- Steps during the cold boot. -/
theorem CpuMove.cold (ok : ColdOk cpu)
    (moves : CpuMove generation false cpu next) :
    ColdOk next ∧ (Waiting cpu → Waiting next) := by
  obtain ⟨request, release, place⟩ := ok
  unfold Waiting ColdOk
  cases moves with
  | halt pc =>
      rcases pc with pc | ⟨pc, _⟩ <;> simp_all
  | pass pc => simp_all
  | take pc nonzero => simp_all
  | publishEl pc currentEl => simp_all
  | publishDiagnostics pc ectlr => simp_all
  | acknowledge pc => simp_all
  | keepWaiting pc unreleased => simp_all
  | leave pc released => exact absurd release released
  | refuse pc => simp [pc] at place
  | enterKernel pc => simp [pc] at place
  | comeOnline pc => simp [pc] at place
  | refuseDisable pc => simp [pc] at place
  | disable pc shutdown room => simp [pc] at place
  | writeEpoch pc => simp [pc] at place
  | clearRelease pc => simp [pc] at place
  | writeRequest pc => simp [pc] at place
  | die pc prepared => rcases pc with pc | pc <;> simp [pc] at place
  | panic pc unprepared => rcases pc with pc | pc <;> simp [pc] at place

/-- Steps while a kernel runs. -/
theorem CpuMove.running (ok : RunningOk generation cpu)
    (moves : CpuMove generation false cpu next) :
    RunningOk generation next ∧ (cpu.online = true → next.online = true) := by
  obtain ⟨bounded, epoch, place⟩ := ok
  unfold RunningOk
  cases moves with
  | halt pc =>
      rcases pc with pc | ⟨pc, _⟩ <;> simp [pc] at place
  | pass pc => simp [pc] at place
  | take pc nonzero => simp [pc] at place
  | publishEl pc currentEl => simp [pc] at place
  | publishDiagnostics pc ectlr => simp [pc] at place
  | acknowledge pc => simp [pc] at place
  | keepWaiting pc unreleased => simp_all
  | leave pc released => simp_all
  | refuse pc => simp_all
  | enterKernel pc => simp_all
  | comeOnline pc => simp_all
  | refuseDisable pc => simp_all
  | disable pc shutdown room => simp at shutdown
  | writeEpoch pc => simp [pc] at place
  | clearRelease pc => simp [pc] at place
  | writeRequest pc => simp [pc] at place
  | die pc prepared => simp at prepared
  | panic pc unprepared => rcases pc with pc | pc <;> simp_all

theorem Parked.pc_eq (parked : Parked generation cpu) {pc : CpuPc}
    (place : cpu.pc = pc) : ∃ ectlr, pc = .wait cpu.epoch ectlr := by
  obtain ⟨ectlr, waits⟩ := parked.waiting
  exact ⟨ectlr, place.symm.trans waits⟩

/-- Steps while the kernel shuts down: the acknowledgement never falls, a
written epoch stays written, and a parked secondary stays parked. -/
theorem CpuMove.stopping (ok : StoppingOk generation cpu)
    (moves : CpuMove generation true cpu next) :
    StoppingOk generation next ∧ cpu.ack ≤ next.ack ∧
      (cpu.epoch ≠ 0 → next.epoch ≠ 0) := by
  obtain ⟨online, bounded, place⟩ := ok
  unfold StoppingOk
  cases moves with
  | halt pc => rcases pc with pc | ⟨pc, _⟩ <;> simp_all
  | pass pc => simp_all
  | take pc nonzero => simp_all
  | publishEl pc currentEl => simp_all
  | publishDiagnostics pc ectlr => simp_all
  | @acknowledge token ectlr pc =>
      simp only [pc] at place
      obtain ⟨rfl, epoch, behind, release⟩ := place
      have written : cpu.epoch ≠ 0 := by omega
      refine ⟨⟨online, bounded, ?_⟩, behind.le, id⟩
      exact ⟨⟨ectlr, by simp [epoch]⟩, epoch.symm, epoch.symm, release, rfl,
        written, epoch ▸ bounded⟩
  | keepWaiting pc unreleased =>
      exact ⟨⟨online, bounded, place⟩, le_refl _, id⟩
  | leave pc released =>
      simp only [pc] at place
      exact absurd place.release released
  | refuse pc => simp [pc] at place
  | enterKernel pc => simp [pc] at place
  | comeOnline pc => simp_all
  | refuseDisable pc => exact ⟨⟨online, bounded, place⟩, le_refl _, id⟩
  | disable pc shutdown room =>
      simp only [pc] at place
      obtain ⟨own, epoch, ack⟩ := place
      exact ⟨⟨online, bounded, own, epoch, ack, rfl, by omega⟩, le_refl _, id⟩
  | @writeEpoch own epoch pc =>
      simp only [pc] at place
      obtain ⟨same, _, ack, request, room⟩ := place
      have small : epoch + 1 < 2 ^ 64 := by
        unfold u64Max at room
        omega
      rw [Nat.mod_eq_of_lt small]
      exact ⟨⟨online, bounded, same, rfl, ack, request, room⟩, le_refl _,
        fun _ => Nat.succ_ne_zero epoch⟩
  | clearRelease pc =>
      simp only [pc] at place
      obtain ⟨same, epoch, ack, _, room⟩ := place
      exact ⟨⟨online, bounded, same, epoch, ack, room, rfl⟩, le_refl _, id⟩
  | @writeRequest own epoch pc =>
      simp only [pc] at place
      obtain ⟨same, written, ack, room, release⟩ := place
      have small : epoch + 1 < 2 ^ 64 := by
        unfold u64Max at room
        omega
      rw [Nat.mod_eq_of_lt small]
      exact ⟨⟨online, room, same, written, ack ▸ Nat.lt_succ_self epoch,
        release⟩, le_refl _, id⟩
  | die pc prepared =>
      obtain ⟨written, _⟩ := prepared
      rcases pc with pc | pc
      · simp only [pc] at place
        exact ⟨⟨online, bounded, place.2⟩, le_refl _, id⟩
      · simp only [pc] at place
        exact absurd place.2.1 written
  | panic pc unprepared =>
      have unwritten : cpu.epoch = 0 := by simpa using unprepared
      exact ⟨⟨online, bounded, unwritten⟩, le_refl _, id⟩

/-- A parked secondary stays parked, whatever it does. -/
theorem CpuMove.parked (ok : Parked generation cpu)
    (moves : CpuMove generation shuttingDown cpu next) :
    Parked generation next := by
  have place := @Parked.pc_eq generation cpu ok
  cases moves with
  | keepWaiting pc unreleased => exact ok
  | leave pc released => exact absurd ok.release released
  | halt pc =>
      rcases pc with pc | ⟨pc, _⟩ <;> simpa using place pc
  | die pc prepared => rcases pc with pc | pc <;> simpa using place pc
  | panic pc unprepared => rcases pc with pc | pc <;> simpa using place pc
  | refuseDisable pc => exact ok
  | pass pc => simpa using place pc
  | take pc nonzero => simpa using place pc
  | publishEl pc currentEl => simpa using place pc
  | publishDiagnostics pc ectlr => simpa using place pc
  | acknowledge pc => simpa using place pc
  | refuse pc => simpa using place pc
  | enterKernel pc => simpa using place pc
  | comeOnline pc => simpa using place pc
  | disable pc shutdown room => simpa using place pc
  | writeEpoch pc => simpa using place pc
  | clearRelease pc => simpa using place pc
  | writeRequest pc => simpa using place pc

/-- The verification: an acknowledgement read from a secondary that has a
written epoch equals the epoch only when the secondary is parked. -/
theorem StoppingOk.parked_of_ack {ack : Nat}
    (ok : StoppingOk generation cpu) (written : cpu.epoch ≠ 0)
    (read : ack ≤ cpu.ack) (equal : ack = cpu.epoch) :
    Parked generation cpu := by
  obtain ⟨_, _, place⟩ := ok
  cases pc : cpu.pc <;> simp only [pc] at place <;>
    first
    | exact place
    | exfalso; omega

/-- What the loops of the primary rely on when a secondary moves. -/
structure Kept (phase : Phase) (generation : Nat) (cpu next : Cpu) :
    Prop where
  ok : CpuOk phase generation next
  reset : cpu.pc = .reset → next.pc = .reset
  waiting : phase = .cold → Waiting cpu → Waiting next
  online : phase = .running → cpu.online = true → next.online = true
  parked : Parked generation cpu → Parked generation next
  ack : phase = .stopping → cpu.ack ≤ next.ack
  epoch : phase = .stopping → cpu.epoch ≠ 0 → next.epoch ≠ 0

theorem Kept.refl {phase : Phase} (ok : CpuOk phase generation cpu) :
    Kept phase generation cpu cpu :=
  ⟨ok, id, fun _ => id, fun _ => id, id, fun _ => le_refl _, fun _ => id⟩

theorem CpuMove.kept {phase : Phase} (ok : CpuOk phase generation cpu)
    (flag : FlagOk phase shuttingDown)
    (moves : CpuMove generation shuttingDown cpu next) :
    Kept phase generation cpu next := by
  have reset : cpu.pc = .reset → next.pc = .reset := fun place =>
    absurd place moves.not_reset
  have parked : Parked generation cpu → Parked generation next := fun ok =>
    CpuMove.parked ok moves
  cases phase with
  | cold =>
      obtain rfl : shuttingDown = false := flag
      obtain ⟨nextOk, waiting⟩ := CpuMove.cold ok moves
      exact ⟨nextOk, reset, fun _ => waiting, nofun, parked, nofun, nofun⟩
  | running =>
      obtain rfl : shuttingDown = false := flag
      obtain ⟨nextOk, online⟩ := CpuMove.running ok moves
      exact ⟨nextOk, reset, nofun, fun _ => online, parked, nofun, nofun⟩
  | stopping =>
      obtain rfl : shuttingDown = true := flag
      obtain ⟨nextOk, ack, epoch⟩ := CpuMove.stopping ok moves
      exact ⟨nextOk, reset, nofun, nofun, parked, fun _ => ack,
        fun _ => epoch⟩
  | handedOver => exact ⟨parked ok, reset, nofun, nofun, parked, nofun, nofun⟩
  | stopped => exact ⟨trivial, reset, nofun, nofun, parked, nofun, nofun⟩

end Secondary

/-- The progress of the primary survives steps of the secondaries. -/
theorem Progress.kept {generation : Nat} {cpu next : Secondary → Cpu}
    {primary : PrimaryPc} (progress : Progress generation cpu primary)
    (kept : ∀ index, Kept primary.phase generation (cpu index) (next index)) :
    Progress generation next primary := by
  cases primary with
  | coldBoot rest | coldWait current rest | coldEntryEl current rest
  | coldCoherency current rest =>
      obtain ⟨distinct, reset, waiting⟩ := progress
      exact ⟨distinct,
        fun index listed => (kept index).reset (reset index listed),
        fun index done => (kept index).waiting rfl (waiting index done)⟩
  | preparing rest | preparingOnline current rest =>
      exact fun index done => (kept index).online rfl (progress index done)
  | killAck current rest => exact (kept current).epoch rfl progress
  | killCompare current ack rest =>
      exact ⟨(kept current).epoch rfl progress.1,
        progress.2.trans ((kept current).ack rfl)⟩
  | verifying rest =>
      exact fun index done => (kept index).parked (progress index done)
  | verifyAck current rest =>
      obtain ⟨written, parked⟩ := progress
      exact ⟨(kept current).epoch rfl written,
        fun index done => (kept index).parked (parked index done)⟩
  | verifyCompare current ack rest =>
      obtain ⟨written, read, parked⟩ := progress
      exact ⟨(kept current).epoch rfl written,
        read.trans ((kept current).ack rfl),
        fun index done => (kept index).parked (parked index done)⟩
  | _ => trivial

/-- A step of one secondary keeps the invariant. -/
theorem Inv.secondary {state : State} (inv : Inv state) {index : Secondary}
    {cpu : Cpu} (moves : CpuMove state.generation state.shuttingDown
      (state.cpu index) cpu) : Inv (state.setCpu index cpu) := by
  have kept : ∀ other, Kept state.primary.phase state.generation
      (state.cpu other) (Function.update state.cpu index cpu other) := by
    intro other
    by_cases same : other = index
    · subst same
      rw [Function.update_self]
      exact moves.kept (inv.cpus other) inv.flag
    · rw [Function.update_of_ne same]
      exact Kept.refl (inv.cpus other)
  exact ⟨fun other => (kept other).ok, inv.flag, inv.progress.kept kept⟩

/-! ### Steps of the primary -/

theorem Inv.stopped (state : State) : Inv (state.setPrimary .stopped) :=
  ⟨fun _ => trivial, trivial, trivial⟩

/-- A step of the primary that stays in its phase and writes nothing. -/
theorem Inv.setPrimary {state : State} (inv : Inv state)
    {current primary : PrimaryPc} (pc : state.primary = current)
    (same : current.phase = primary.phase)
    (progress : Progress state.generation state.cpu primary) :
    Inv (state.setPrimary primary) := by
  obtain ⟨cpus, flag, _⟩ := inv
  rw [pc, same] at cpus flag
  exact ⟨cpus, flag, progress⟩

theorem State.continueIf_eq_some {state next : State} {condition : Prop}
    [Decidable condition] {primary : PrimaryPc} :
    state.continueIf condition primary = some next ↔
      (condition ∧ state.setPrimary primary = next) ∨
        (¬condition ∧ state.setPrimary .stopped = next) := by
  unfold continueIf
  by_cases holds : condition <;> simp [holds]

/-- A kernel starts with every secondary waiting at its request. -/
theorem Inv.bootKernel {state : State}
    (waiting : ∀ index, ∃ ectlr,
      (state.cpu index).pc = .wait (state.cpu index).request ectlr)
    (acked : ∀ index, (state.cpu index).ack = (state.cpu index).request)
    (bounded : ∀ index, (state.cpu index).request ≤ u64Max) :
    Inv state.bootKernel := by
  refine ⟨?_, rfl, trivial⟩
  intro index
  obtain ⟨ectlr, pc⟩ := waiting index
  refine ⟨bounded index, rfl, ?_⟩
  simp [State.bootKernel, pc, acked index]

theorem Parked.bounds {generation : Nat} {cpu : Cpu}
    (parked : Parked generation cpu) :
    (∃ ectlr, cpu.pc = .wait cpu.request ectlr) ∧
      cpu.ack = cpu.request ∧ cpu.request ≤ u64Max :=
  ⟨parked.request ▸ parked.waiting, parked.ack.trans parked.request.symm,
    parked.request ▸ parked.bounded⟩

/-- The next kernel or pocketpreboot finds every secondary parked. -/
theorem Inv.bootKernel_of_parked {state : State}
    (parked : ∀ index, Parked state.generation (state.cpu index)) :
    Inv state.bootKernel :=
  Inv.bootKernel (fun index => (parked index).bounds.1)
    (fun index => (parked index).bounds.2.1)
    (fun index => (parked index).bounds.2.2)

/-- A check of the primary, in one phase. -/
theorem Inv.continueIf {state next : State} (inv : Inv state)
    {condition : Prop} [Decidable condition] {current primary : PrimaryPc}
    (steps : state.continueIf condition primary = some next)
    (pc : state.primary = current) (same : current.phase = primary.phase)
    (progress : condition →
      Progress state.generation state.cpu primary) : Inv next := by
  rcases State.continueIf_eq_some.mp steps with ⟨holds, rfl⟩ | ⟨_, rfl⟩
  · exact inv.setPrimary pc same (progress holds)
  · exact Inv.stopped state

/-- Starting a secondary of the cold boot. -/
private theorem Inv.startCpu {state : State} (inv : Inv state)
    {index : Secondary} {rest : List Secondary}
    (pc : state.primary = .coldBoot (index :: rest)) :
    Inv ((state.setCpu index { state.cpu index with
      pc := .entry }).setPrimary (.coldWait index rest)) := by
  obtain ⟨cpus, flag, progress⟩ := inv
  rw [pc] at cpus flag progress
  obtain ⟨distinct, reset, waiting⟩ := progress
  have other : ∀ cpu, cpu ≠ index → Function.update state.cpu index
      { state.cpu index with pc := .entry } cpu = state.cpu cpu :=
    fun cpu different => Function.update_of_ne different _ _
  refine ⟨fun cpu => ?_, flag, distinct, fun cpu listed => ?_,
    fun cpu done => ?_⟩
  · change ColdOk (Function.update state.cpu index _ cpu)
    by_cases same : cpu = index
    · subst same
      obtain ⟨request, release, place⟩ := cpus cpu
      simp only [reset cpu List.mem_cons_self] at place
      rw [Function.update_self]
      exact ⟨request, release, place⟩
    · rw [other cpu same]
      exact cpus cpu
  · have different : cpu ≠ index := by
      rintro rfl
      exact (List.nodup_cons.mp distinct).1 listed
    change (Function.update state.cpu index _ cpu).pc = .reset
    rw [other cpu different]
    exact reset cpu (List.mem_cons_of_mem _ listed)
  · have different : cpu ≠ index := fun same =>
      done (same ▸ List.mem_cons_self)
    change Waiting (Function.update state.cpu index _ cpu)
    rw [other cpu different]
    exact waiting cpu done

/-- A kernel releases a secondary. -/
private theorem Inv.cpuPrepare {state : State} (inv : Inv state)
    (pc : state.primary = .kernel) (index : Secondary) (entry : Nat) :
    Inv (state.setCpu index { state.cpu index with release := entry }) := by
  obtain ⟨cpus, flag, progress⟩ := inv
  rw [pc] at cpus flag progress
  refine ⟨fun cpu => ?_, ?_, ?_⟩
  · change CpuOk state.primary.phase state.generation
      (Function.update state.cpu index _ cpu)
    rw [pc]
    by_cases same : cpu = index
    · subst same
      rw [Function.update_self]
      exact cpus cpu
    · rw [Function.update_of_ne same]
      exact cpus cpu
  · change FlagOk state.primary.phase state.shuttingDown
    rw [pc]
    exact flag
  · change Progress _ _ state.primary
    rw [pc]
    trivial

/-- Acknowledged in the cold boot, a secondary waits. -/
private theorem ColdOk.waiting_of_ack {cpu : Cpu} (ok : ColdOk cpu)
    (ack : cpu.ack = 1) : Waiting cpu := by
  obtain ⟨_, _, place⟩ := ok
  cases pc : cpu.pc <;> simp_all [Waiting]

private theorem ColdOk.bounds {cpu : Cpu} (ok : ColdOk cpu)
    (waiting : Waiting cpu) :
    (∃ ectlr, cpu.pc = .wait cpu.request ectlr) ∧
      cpu.ack = cpu.request ∧ cpu.request ≤ u64Max := by
  obtain ⟨request, _, place⟩ := ok
  obtain ⟨token, ectlr, pc⟩ := waiting
  simp only [pc] at place
  rw [request, pc, place.1]
  exact ⟨⟨ectlr, rfl⟩, place.2, by decide⟩

/-- An online secondary of a running kernel has not begun to park. -/
private theorem RunningOk.stopping {generation : Nat} {cpu : Cpu}
    (ok : RunningOk generation cpu) (online : cpu.online = true) :
    StoppingOk generation cpu := by
  obtain ⟨bounded, epoch, place⟩ := ok
  refine ⟨online, bounded, ?_⟩
  cases pc : cpu.pc with
  | kernel own =>
      simp only [pc] at place
      exact ⟨place.1, epoch, place.2⟩
  | panicked own => exact epoch
  | _ => simp_all

theorem mem_allSecondaries (index : Secondary) : index ∈ allSecondaries := by
  revert index
  decide

/-- A step of the primary keeps the invariant. -/
theorem Inv.primary {state next : State} (inv : Inv state)
    {action : PrimaryAction}
    (steps : state.primaryStep action = some next) : Inv next := by
  obtain ⟨cpus, flag, progress⟩ := id inv
  unfold State.primaryStep at steps
  split at steps <;> rename_i pc
  all_goals try rw [pc] at cpus flag progress
  case h_1 index rest =>
    exact Option.some.inj steps ▸ inv.startCpu pc
  case h_2 index rest =>
    obtain rfl := Option.some.inj steps
    split
    · rename_i acked
      refine inv.setPrimary pc rfl ?_
      obtain ⟨distinct, reset, waiting⟩ := progress
      refine ⟨(List.nodup_cons.mp distinct).2, reset, fun cpu done => ?_⟩
      by_cases same : cpu = index
      · subst same
        exact ColdOk.waiting_of_ack (cpus cpu) acked
      · exact waiting cpu (by simp [same, done])
    · exact inv.setPrimary pc rfl progress
  case h_3 => exact Option.some.inj steps ▸ Inv.stopped state
  case h_4 => exact inv.continueIf steps pc rfl fun _ => progress
  case h_5 => exact inv.continueIf steps pc rfl fun _ => progress
  case h_6 =>
    obtain rfl := Option.some.inj steps
    have bounds := fun index => ColdOk.bounds (cpus index)
      (progress.2.2 index List.not_mem_nil)
    exact Inv.bootKernel (fun index => (bounds index).1)
      (fun index => (bounds index).2.1) (fun index => (bounds index).2.2)
  case h_7 index entry =>
    split at steps
    · simp at steps
    · exact Option.some.inj steps ▸ inv.cpuPrepare pc index entry
  case h_8 =>
    obtain rfl := Option.some.inj steps
    exact inv.setPrimary pc rfl fun index unlisted =>
      absurd (mem_allSecondaries index) unlisted
  case h_9 => exact inv.continueIf steps pc rfl fun _ => progress
  case h_10 current rest =>
    refine inv.continueIf steps pc rfl fun checked index done => ?_
    by_cases same : index = current
    · exact same ▸ checked.1
    · exact progress index (by simp [same, done])
  case h_11 =>
    obtain rfl := Option.some.inj steps
    exact ⟨fun index =>
      RunningOk.stopping (cpus index) (progress index List.not_mem_nil),
      rfl, trivial⟩
  case h_12 =>
    obtain rfl := Option.some.inj steps
    split
    · exact inv.setPrimary pc rfl trivial
    · rename_i written
      exact inv.setPrimary pc rfl written
  case h_13 => exact Option.some.inj steps ▸ Inv.stopped state
  case h_14 =>
    exact Option.some.inj steps ▸ inv.setPrimary pc rfl
      ⟨progress, le_refl _⟩
  case h_15 =>
    obtain rfl := Option.some.inj steps
    split <;> exact inv.setPrimary pc rfl trivial
  case h_16 =>
    exact inv.continueIf steps pc rfl fun _ index unlisted =>
      absurd (mem_allSecondaries index) unlisted
  case h_17 =>
    exact inv.continueIf steps pc rfl fun written =>
      ⟨written, progress⟩
  case h_18 =>
    exact Option.some.inj steps ▸ inv.setPrimary pc rfl
      ⟨progress.1, le_refl _, progress.2⟩
  case h_19 current ack rest =>
    obtain ⟨written, read, parked⟩ := progress
    refine inv.continueIf steps pc rfl fun equal index done => ?_
    by_cases same : index = current
    · subst same
      exact StoppingOk.parked_of_ack (cpus index) written read equal
    · exact parked index (by simp [same, done])
  case h_20 =>
    obtain rfl := Option.some.inj steps
    exact ⟨fun index => progress index List.not_mem_nil, trivial, trivial⟩
  case h_21 => exact Option.some.inj steps ▸ Inv.bootKernel_of_parked cpus
  case h_22 => exact inv.continueIf steps pc rfl fun _ => trivial
  case h_23 => exact inv.continueIf steps pc rfl fun _ => trivial
  case h_24 =>
    exact Option.some.inj steps ▸ inv.setPrimary pc rfl trivial
  case h_25 entryEl check index rest =>
    dsimp only at steps
    generalize (check.next entryEl (state.cpu index)).2 = following at steps
    cases following with
    | none => exact inv.continueIf steps pc rfl fun _ => trivial
    | some check =>
        exact inv.continueIf steps pc rfl fun _ => trivial
  case h_26 =>
    exact Option.some.inj steps ▸ inv.setPrimary pc rfl trivial
  case h_27 => exact Option.some.inj steps ▸ Inv.bootKernel_of_parked cpus
  case h_28 => simp at steps

theorem inv_inductive : protocol.Inductive Inv where
  initially := by
    refine ⟨fun index => ⟨rfl, rfl, rfl⟩, rfl, by decide, fun _ _ => rfl,
      fun index unlisted => absurd (mem_allSecondaries index) unlisted⟩
  kept := by
    intro state next action inv steps
    cases action with
    | primary action => exact inv.primary steps
    | secondary index action =>
        obtain ⟨cpu, moves, rfl⟩ := Option.map_eq_some_iff.mp steps
        exact inv.secondary (Cpu.step_moves moves)

/-- When the verification has succeeded, and again when
`validate_parked_slots` has returned `Ok`, every secondary waits in the
resident loop of its current epoch with release word 0; and an acknowledgement
that `cpu_kill` or the verification accepts was stored under the kernel that is
shutting down. -/
theorem parking_safe {state : State} (reached : protocol.Reachable state) :
    (state.primary = .verified ∨
        (∃ entryEl, state.primary = .validated entryEl) →
      ∀ index, Parked state.generation (state.cpu index)) ∧
    ∀ index ack rest,
      state.primary = .killCompare index ack rest ∨
        state.primary = .verifyCompare index ack rest →
      ack = (state.cpu index).epoch →
      Parked state.generation (state.cpu index) := by
  obtain ⟨cpus, _, progress⟩ := inv_inductive.reachable reached
  refine ⟨fun done index => ?_, fun index ack rest compares equal => ?_⟩
  · have ok := cpus index
    rcases done with verified | ⟨entryEl, validated⟩
    · rwa [verified] at ok
    · rwa [validated] at ok
  · have ok := cpus index
    rcases compares with kills | verifies
    · rw [kills] at ok progress
      exact StoppingOk.parked_of_ack ok progress.1 progress.2 equal
    · rw [verifies] at ok progress
      exact StoppingOk.parked_of_ack ok progress.1 progress.2.1 equal

/-! ### A run through one kernel generation -/

/-- The steps of a secondary through the resident code, at EL1. -/
def residentSteps (index : Secondary) : List Action :=
  [.checkEntry true, .loadRequest, .storeEntryEl 4, .storeDiagnostics 64,
    .storeAck].map (.secondary index)

def advances (count : Nat) : List Action :=
  List.replicate count (.primary .advance)

/-- Cold boot, a kernel that brings every secondary online, its shutdown, and
the check of the parked slots by the next pocketpreboot. -/
def oneGeneration : List Action :=
  allSecondaries.flatMap (fun index =>
    .primary .startCpu :: residentSteps index ++
      [.primary .poll, .primary (.check 4), .primary .advance]) ++
  [.primary .bootKernel] ++
  allSecondaries.flatMap (fun index =>
    .primary (.cpuPrepare index 0x80000000) ::
      [CpuAction.pollRelease, .branch, .comeOnline].map (.secondary index)) ++
  [.primary .shutdown] ++ advances 7 ++
  allSecondaries.flatMap (fun index =>
    [CpuAction.cpuDisable, .writeEpoch, .clearRelease, .writeRequest,
      .cpuDie].map (.secondary index) ++ residentSteps index) ++
  advances 20 ++ [.primary (.enterPreboot 4)] ++ advances 23

/-- The state after that run. -/
def oneGenerationLater : State :=
  (protocol.runFrom coldState oneGeneration).getD coldState

theorem oneGeneration_runs :
    protocol.runFrom coldState oneGeneration = some oneGenerationLater ∧
      oneGenerationLater.primary = .validated 4 := by
  have completes : (protocol.runFrom coldState oneGeneration).map
      State.primary = some (.validated 4) := by
    decide +kernel
  obtain ⟨last, runs, validated⟩ := Option.map_eq_some_iff.mp completes
  have later : oneGenerationLater = last := by
    rw [oneGenerationLater, runs, Option.getD_some]
  exact ⟨later ▸ runs, later ▸ validated⟩

/-- After one generation the first secondary is parked. -/
theorem parking_safe_oneGeneration :
    Parked oneGenerationLater.generation (oneGenerationLater.cpu 0) :=
  (parking_safe ⟨oneGeneration, oneGeneration_runs.1⟩).1
    (.inr ⟨4, oneGeneration_runs.2⟩) 0

end Pocketboot.SpinTable
