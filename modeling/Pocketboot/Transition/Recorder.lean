import Pocketboot.Transition.System

/-!
# Recorders

A system with a recorder: a value that the steps change and that no step
looks at.  And what holds of every step of a run.
-/

namespace Pocketboot.Transition

namespace System

variable {σ α γ : Type}

/-- The system with a value that each of its steps changes. -/
def recorded (system : System σ α) (start : γ) (change : σ → α → γ → γ) :
    System (σ × γ) α where
  initial := (system.initial, start)
  step state action :=
    (system.step state.1 action).map fun next =>
      (next, change state.1 action state.2)

/-- Every step of the run meets a condition; an action that is not enabled
ends the run. -/
def Always (system : System σ α) (holds : σ → α → σ → Prop) :
    σ → List α → Prop
  | _, [] => True
  | state, action :: rest =>
      ∀ next, system.step state action = some next →
        holds state action next ∧ system.Always holds next rest

variable {system : System σ α} {start : γ} {change : σ → α → γ → γ}

theorem recorded_step_eq_some {state next : σ × γ} {action : α} :
    (system.recorded start change).step state action = some next ↔
      system.step state.1 action = some next.1 ∧
        next.2 = change state.1 action state.2 := by
  simp only [recorded, Option.map_eq_some_iff]
  constructor
  · rintro ⟨last, steps, rfl⟩
    exact ⟨steps, rfl⟩
  · rintro ⟨steps, records⟩
    exact ⟨next.1, steps, by rw [← records]⟩

theorem runFrom_append {state middle : σ} {first : List α}
    (runs : system.runFrom state first = some middle) (second : List α) :
    system.runFrom state (first ++ second) = system.runFrom middle second := by
  rw [runFrom, List.foldlM_append]
  change (system.runFrom state first).bind _ = _
  rw [runs]
  rfl

/-- What holds of every step of a run holds of those after its first part. -/
theorem Always.after {holds : σ → α → σ → Prop} {state middle : σ}
    {first second : List α}
    (always : system.Always holds state (first ++ second))
    (runs : system.runFrom state first = some middle) :
    system.Always holds middle second := by
  induction first generalizing state with
  | nil =>
      obtain rfl := Option.some.inj runs
      exact always
  | cons action rest induction =>
      obtain ⟨next, steps, runs⟩ := runFrom_cons_eq_some.mp runs
      exact induction (always next steps).2 runs

/-- Nothing that the system does depends on the recorder. -/
theorem always_recorded {holds : σ → α → σ → Prop} {state : σ × γ}
    (schedule : List α) :
    (system.recorded start change).Always
        (fun state action next => holds state.1 action next.1) state schedule ↔
      system.Always holds state.1 schedule := by
  induction schedule generalizing state with
  | nil => exact Iff.rfl
  | cons action rest induction =>
      constructor
      · intro always next steps
        have recorded : (system.recorded start change).step state action =
            some (next, change state.1 action state.2) :=
          recorded_step_eq_some.mpr ⟨steps, rfl⟩
        obtain ⟨meets, further⟩ := always _ recorded
        exact ⟨meets, induction.mp further⟩
      · intro always next steps
        obtain ⟨meets, further⟩ :=
          always next.1 (recorded_step_eq_some.mp steps).1
        exact ⟨meets, induction.mpr further⟩

/-- Two conditions that agree on the steps from states that a first one
reaches agree on whole runs. -/
theorem always_congr {holds : σ → Prop} {first second : σ → α → σ → Prop}
    (same : ∀ {state next action}, holds state →
      system.step state action = some next →
      (first state action next ↔ second state action next))
    (kept : ∀ {state next action}, holds state →
      system.step state action = some next → first state action next →
      holds next)
    {state : σ} (begins : holds state) (schedule : List α) :
    system.Always first state schedule ↔
      system.Always second state schedule := by
  induction schedule generalizing state with
  | nil => exact Iff.rfl
  | cons action rest induction =>
      refine forall_congr' fun next => imp_congr_right fun steps => ?_
      have agree := same begins steps
      constructor
      · rintro ⟨meets, further⟩
        exact ⟨agree.mp meets, (induction (kept begins steps meets)).mp further⟩
      · rintro ⟨meets, further⟩
        have meets := agree.mpr meets
        exact ⟨meets, (induction (kept begins steps meets)).mpr further⟩

end System

end Pocketboot.Transition
