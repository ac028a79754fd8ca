import Mathlib

/-!
# Transition systems

A system of partial steps on a state.  A schedule is a list of actions in any
order; an action that is not enabled ends the run.
-/

namespace Pocketboot.Transition

/-- An initial state and the effect of each action, `none` where the action is
not enabled. -/
structure System (σ α : Type) where
  initial : σ
  step : σ → α → Option σ

namespace System

variable {σ α : Type} (system : System σ α)

/-- The state after a schedule. -/
def runFrom (state : σ) (schedule : List α) : Option σ :=
  schedule.foldlM system.step state

def Reachable (state : σ) : Prop :=
  ∃ schedule, system.runFrom system.initial schedule = some state

theorem Reachable.next {system : System σ α} {state next : σ} {action : α}
    (reached : system.Reachable state)
    (steps : system.step state action = some next) : system.Reachable next := by
  obtain ⟨schedule, runs⟩ := reached
  refine ⟨schedule ++ [action], ?_⟩
  rw [runFrom, List.foldlM_append]
  change (system.runFrom system.initial schedule).bind _ = some next
  rw [runs]
  simpa using steps

/-- A predicate that holds initially and is kept by every step. -/
structure Inductive (holds : σ → Prop) : Prop where
  initially : holds system.initial
  kept : ∀ {state next : σ} {action : α}, holds state →
    system.step state action = some next → holds next

variable {system}

@[simp] theorem runFrom_nil (state : σ) :
    system.runFrom state [] = some state := rfl

theorem runFrom_cons_eq_some {state last : σ} {action : α}
    {rest : List α} :
    system.runFrom state (action :: rest) = some last ↔
      ∃ next, system.step state action = some next ∧
        system.runFrom next rest = some last := by
  simp [runFrom, List.foldlM_cons, Option.bind_eq_some_iff]

/-- What every step keeps holds after every schedule. -/
theorem Inductive.runFrom {holds : σ → Prop}
    (inductive' : system.Inductive holds) {schedule : List α}
    {state last : σ} (start : holds state)
    (runs : system.runFrom state schedule = some last) : holds last := by
  induction schedule generalizing state with
  | nil =>
      obtain rfl := Option.some.inj runs
      exact start
  | cons action rest induction =>
      obtain ⟨next, steps, runs⟩ := runFrom_cons_eq_some.mp runs
      exact induction (inductive'.kept start steps) runs

theorem Inductive.reachable {holds : σ → Prop}
    (inductive' : system.Inductive holds) {state : σ}
    (reached : system.Reachable state) : holds state := by
  obtain ⟨schedule, runs⟩ := reached
  exact inductive'.runFrom inductive'.initially runs

/-- The system whose steps also meet a condition. -/
def restrict (system : System σ α) (allowed : σ → α → Prop)
    [∀ state action, Decidable (allowed state action)] : System σ α where
  initial := system.initial
  step state action :=
    if allowed state action then system.step state action else none

theorem restrict_step_eq_some {allowed : σ → α → Prop}
    [∀ state action, Decidable (allowed state action)] {state next : σ}
    {action : α} :
    (system.restrict allowed).step state action = some next ↔
      allowed state action ∧ system.step state action = some next := by
  simp [restrict]

/-- What every step keeps is kept when fewer steps are allowed. -/
theorem Inductive.restrict {holds : σ → Prop} (inductive' : system.Inductive holds)
    (allowed : σ → α → Prop) [∀ state action, Decidable (allowed state action)] :
    (system.restrict allowed).Inductive holds where
  initially := inductive'.initially
  kept start steps := inductive'.kept start (restrict_step_eq_some.mp steps).2

end System

end Pocketboot.Transition
