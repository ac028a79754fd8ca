import Pocketboot.Transition.System

/-!
# The spin-table parking protocol

One primary and three secondaries share a parking page.  The primary runs
pocketpreboot's cold boot, then kernels and, between them, pocketpreboot's
check of the parked CPUs; a secondary runs the resident code and kernel text.
Every step below is one aligned load or store, or a step that touches no
shared word.  Words are 64-bit values.
-/

namespace Pocketboot.SpinTable

/-- The secondaries, by MPIDR minus one. -/
abbrev Secondary : Type := Fin 3

def allSecondaries : List Secondary := [0, 1, 2]

def u64Max : Nat := 2 ^ 64 - 1

/-- `CPUECTLR_EL1.SMPEN`. -/
def smpEnabled (ectlr : Nat) : Bool := ectlr.testBit 6

/-- Where a secondary is. -/
inductive CpuPc where
  /-- held in reset, before the cold boot -/
  | reset
  /-- at `.Lpark_entry` -/
  | entry
  /-- past the exception level, MMU, cache and MPIDR checks -/
  | checked
  /-- the request word was read -/
  | gotRequest (token : Nat)
  | publishedEl (token : Nat)
  | publishedDiagnostics (token ectlr : Nat)
  /-- in `.Lwait`, after publishing the acknowledgement -/
  | wait (token ectlr : Nat)
  /-- at `.Lrelease` with the release word read -/
  | leaving (target ectlr : Nat)
  /-- in `.Lhalt` -/
  | halted
  /-- in the text of a kernel, outside the hotplug path -/
  | kernel (generation : Nat)
  /-- in `cpu_disable`, the request word read -/
  | disabling (generation epoch : Nat)
  /-- `pb_epoch` written -/
  | epochWritten (generation epoch : Nat)
  /-- the release word cleared -/
  | releaseCleared (generation epoch : Nat)
  /-- the request word bumped -/
  | disabled (generation : Nat)
  | panicked (generation : Nat)
  deriving DecidableEq, Repr

/-- A secondary with the words of its slot, its entries in the variables of
the running kernel, and the generation in which it last acknowledged. -/
structure Cpu where
  pc : CpuPc
  release : Nat
  request : Nat
  ack : Nat
  entryEl : Nat
  ectlr : Nat
  /-- `pb_epoch[cpu]` -/
  epoch : Nat
  /-- `cpu_online(cpu)` -/
  online : Bool
  ackGeneration : Nat
  deriving DecidableEq, Repr

/-- What a secondary does next, with the values it reads from its own
registers. -/
inductive CpuAction where
  /-- the checks from `.Lpark_entry` to the request, and their outcome -/
  | checkEntry (passes : Bool)
  | loadRequest
  | storeEntryEl (currentEl : Nat)
  | storeDiagnostics (ectlr : Nat)
  | storeAck
  | pollRelease
  /-- the branch at `.Lrelease` -/
  | branch
  | comeOnline
  /-- enter `cpu_disable` up to its load of the request word -/
  | cpuDisable
  | writeEpoch
  | clearRelease
  | writeRequest
  | cpuDie
  deriving DecidableEq, Repr

/-- One step of a secondary while the kernel of the given generation runs. -/
def Cpu.step (generation : Nat) (shuttingDown : Bool) (cpu : Cpu)
    (action : CpuAction) : Option Cpu :=
  match cpu.pc, action with
  | .entry, .checkEntry passes =>
      some { cpu with pc := if passes then .checked else .halted }
  | .checked, .loadRequest =>
      some { cpu with
        pc := if cpu.request = 0 then .halted else .gotRequest cpu.request }
  | .gotRequest token, .storeEntryEl currentEl =>
      some { cpu with pc := .publishedEl token, entryEl := currentEl }
  | .publishedEl token, .storeDiagnostics ectlr =>
      some { cpu with pc := .publishedDiagnostics token ectlr
                      ectlr := ectlr }
  | .publishedDiagnostics token ectlr, .storeAck =>
      some { cpu with pc := .wait token ectlr
                      ack := token
                      ackGeneration := generation }
  | .wait token ectlr, .pollRelease =>
      some { cpu with
        pc := if cpu.release = 0 then .wait token ectlr
              else .leaving cpu.release ectlr }
  | .leaving _ ectlr, .branch =>
      some { cpu with
        pc := if smpEnabled ectlr then .kernel generation else .halted }
  | .kernel _, .comeOnline => some { cpu with online := true }
  | .kernel own, .cpuDisable =>
      -- -EOPNOTSUPP outside a shutdown and -EOVERFLOW at the last token
      if shuttingDown = false ∨ cpu.request = u64Max then some cpu
      else some { cpu with pc := .disabling own cpu.request }
  | .disabling own epoch, .writeEpoch =>
      some { cpu with pc := .epochWritten own epoch
                      epoch := (epoch + 1) % 2 ^ 64 }
  | .epochWritten own epoch, .clearRelease =>
      some { cpu with pc := .releaseCleared own epoch, release := 0 }
  | .releaseCleared own epoch, .writeRequest =>
      some { cpu with pc := .disabled own
                      request := (epoch + 1) % 2 ^ 64 }
  | .disabled own, .cpuDie | .kernel own, .cpuDie =>
      some { cpu with
        pc := if cpu.epoch = 0 ∨ shuttingDown = false then .panicked own
              else .entry }
  | _, _ => none

/-- The loads of `validate_parked_slots` for one slot, in order. -/
inductive SlotCheck where
  | readRequest
  | readRelease (request : Nat)
  | readAck (request : Nat)
  | readEntryEl (request : Nat)
  | rereadRequest (request : Nat)
  | rereadRelease (request : Nat)
  deriving DecidableEq, Repr

/-- Where the primary is; a list holds the CPUs its loop has not done yet. -/
inductive PrimaryPc where
  /-- the cold boot loop of pocketpreboot -/
  | coldBoot (rest : List Secondary)
  | coldWait (cpu : Secondary) (rest : List Secondary)
  | coldEntryEl (cpu : Secondary) (rest : List Secondary)
  | coldCoherency (cpu : Secondary) (rest : List Secondary)
  /-- a running kernel -/
  | kernel
  /-- `smp_spin_table_kexec_prepare`, called by the shutdown -/
  | preparing (rest : List Secondary)
  | preparingOnline (cpu : Secondary) (rest : List Secondary)
  /-- `cpu_kill` of one CPU after the other -/
  | killing (rest : List Secondary)
  | killAck (cpu : Secondary) (rest : List Secondary)
  | killCompare (cpu : Secondary) (ack : Nat) (rest : List Secondary)
  /-- `smp_spin_table_kexec_verify` -/
  | verifying (rest : List Secondary)
  | verifyAck (cpu : Secondary) (rest : List Secondary)
  | verifyCompare (cpu : Secondary) (ack : Nat) (rest : List Secondary)
  /-- the verification has succeeded -/
  | verified
  /-- `validate_parked_slots` of the next pocketpreboot -/
  | validateShared (entryEl : Nat)
  | validating (entryEl : Nat) (rest : List Secondary)
  | validateSlot (entryEl : Nat) (check : SlotCheck) (cpu : Secondary)
      (rest : List Secondary)
  /-- `validate_parked_slots` has returned `Ok` -/
  | validated (entryEl : Nat)
  /-- a panic, or an error that ends the boot -/
  | stopped
  deriving DecidableEq, Repr

structure State where
  primary : PrimaryPc
  /-- the number of kernels started so far -/
  generation : Nat
  /-- `pb_shutting_down` -/
  shuttingDown : Bool
  /-- the release word of CPU 0 -/
  release0 : Nat
  cpu : Secondary → Cpu

/-- What the primary does next, with the values it reads from its own
registers. -/
inductive PrimaryAction where
  | startCpu
  | poll
  | timeOut
  | check (currentEl : Nat)
  | bootKernel
  /-- `cpu_prepare`: write the release word of a CPU -/
  | cpuPrepare (cpu : Secondary) (entry : Nat)
  | shutdown
  | advance
  | enterPreboot (currentEl : Nat)
  deriving DecidableEq, Repr

def State.setCpu (state : State) (index : Secondary) (cpu : Cpu) : State :=
  { state with cpu := Function.update state.cpu index cpu }

def State.setPrimary (state : State) (primary : PrimaryPc) : State :=
  { state with primary := primary }

/-- Continue when a check of the primary holds, else stop. -/
def State.continueIf (state : State) (condition : Prop) [Decidable condition]
    (primary : PrimaryPc) : Option State :=
  some (state.setPrimary (if condition then primary else .stopped))

/-- The next load of `validate_parked_slots`, `none` when the slot is done,
and whether the value just loaded passes. -/
def SlotCheck.next (entryEl : Nat) (cpu : Cpu) :
    SlotCheck → Bool × Option SlotCheck
  | .readRequest => (cpu.request ≠ 0, some (.readRelease cpu.request))
  | .readRelease request => (cpu.release = 0, some (.readAck request))
  | .readAck request => (cpu.ack = request, some (.readEntryEl request))
  | .readEntryEl request =>
      (cpu.entryEl = entryEl, some (.rereadRequest request))
  | .rereadRequest request =>
      (cpu.request = request, some (.rereadRelease request))
  | .rereadRelease _ => (cpu.release = 0, none)

/-- A kernel starts: the variables of its text are its initial ones. -/
def State.bootKernel (state : State) : State where
  primary := .kernel
  generation := state.generation + 1
  shuttingDown := false
  release0 := state.release0
  cpu := fun index => { state.cpu index with epoch := 0, online := false }

/-- One step of the primary. -/
def State.primaryStep (state : State) (action : PrimaryAction) :
    Option State :=
  match state.primary, action with
  | .coldBoot (index :: rest), .startCpu =>
      some ((state.setCpu index { state.cpu index with
        pc := .entry }).setPrimary (.coldWait index rest))
  | .coldWait index rest, .poll =>
      some (state.setPrimary (if (state.cpu index).ack = 1
        then .coldEntryEl index rest else .coldWait index rest))
  | .coldWait _ _, .timeOut => some (state.setPrimary .stopped)
  | .coldEntryEl index rest, .check currentEl =>
      state.continueIf ((state.cpu index).entryEl = currentEl)
        (.coldCoherency index rest)
  | .coldCoherency index rest, .advance =>
      state.continueIf (smpEnabled (state.cpu index).ectlr = true)
        (.coldBoot rest)
  | .coldBoot [], .bootKernel => some state.bootKernel
  | .kernel, .cpuPrepare index entry =>
      if entry = 0 then none
      else some (state.setCpu index { state.cpu index with release := entry })
  | .kernel, .shutdown => some (state.setPrimary (.preparing allSecondaries))
  | .preparing (index :: rest), .advance =>
      state.continueIf ((state.cpu index).entryEl = 4)
        (.preparingOnline index rest)
  | .preparingOnline index rest, .advance =>
      state.continueIf ((state.cpu index).online = true ∧
        (state.cpu index).request ≠ u64Max) (.preparing rest)
  | .preparing [], .advance =>
      some ({ state with shuttingDown := true }.setPrimary
        (.killing allSecondaries))
  | .killing (index :: rest), .advance =>
      some (state.setPrimary (if (state.cpu index).epoch = 0
        then .killing (index :: rest) else .killAck index rest))
  | .killing (_ :: _), .timeOut => some (state.setPrimary .stopped)
  | .killAck index rest, .advance =>
      some (state.setPrimary
        (.killCompare index (state.cpu index).ack rest))
  | .killCompare index ack rest, .advance =>
      some (state.setPrimary (if ack = (state.cpu index).epoch
        then .killing rest else .killing (index :: rest)))
  | .killing [], .advance =>
      state.continueIf (state.shuttingDown = true) (.verifying allSecondaries)
  | .verifying (index :: rest), .advance =>
      state.continueIf ((state.cpu index).epoch ≠ 0) (.verifyAck index rest)
  | .verifyAck index rest, .advance =>
      some (state.setPrimary
        (.verifyCompare index (state.cpu index).ack rest))
  | .verifyCompare index ack rest, .advance =>
      state.continueIf (ack = (state.cpu index).epoch) (.verifying rest)
  | .verifying [], .advance => some (state.setPrimary .verified)
  | .verified, .bootKernel => some state.bootKernel
  | .verified, .enterPreboot currentEl =>
      state.continueIf (currentEl = 4 ∨ currentEl = 8)
        (.validateShared currentEl)
  | .validateShared entryEl, .advance =>
      state.continueIf (state.release0 = 0) (.validating entryEl allSecondaries)
  | .validating entryEl (index :: rest), .advance =>
      some (state.setPrimary (.validateSlot entryEl .readRequest index rest))
  | .validateSlot entryEl check index rest, .advance =>
      let (passes, next) := check.next entryEl (state.cpu index)
      state.continueIf (passes = true)
        (match next with
          | some check => .validateSlot entryEl check index rest
          | none => .validating entryEl rest)
  | .validating entryEl [], .advance =>
      some (state.setPrimary (.validated entryEl))
  | .validated _, .bootKernel => some state.bootKernel
  | _, _ => none

/-- A step of the machine: of the primary or of one secondary. -/
inductive Action where
  | primary (action : PrimaryAction)
  | secondary (index : Secondary) (action : CpuAction)
  deriving DecidableEq, Repr

def State.step (state : State) : Action → Option State
  | .primary action => state.primaryStep action
  | .secondary index action =>
      ((state.cpu index).step state.generation state.shuttingDown action).map
        (state.setCpu index)

/-- The page after `init_spin_table`: zero but for the request words, all
secondaries held in reset. -/
def coldState : State where
  primary := .coldBoot allSecondaries
  generation := 0
  shuttingDown := false
  release0 := 0
  cpu := fun _ =>
    { pc := .reset, release := 0, request := 1, ack := 0, entryEl := 0,
      ectlr := 0, epoch := 0, online := false, ackGeneration := 0 }

def protocol : Transition.System State Action where
  initial := coldState
  step := State.step

end Pocketboot.SpinTable
