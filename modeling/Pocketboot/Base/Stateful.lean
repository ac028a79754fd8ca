import Pocketboot.Base.Outcome

/-!
# Fallible computations on a state

Computations that read and change a state and may end in a fault; the changes
made before a fault stay.  `exec` runs one, and its lemmas say when a
composed computation returns a value.
-/

namespace Pocketboot

/-- A computation on a state; what it did before an error stays. -/
abbrev Stateful (σ ε α : Type) : Type := ExceptT (Fault ε) (StateM σ) α

namespace Stateful

variable {σ ε α β : Type}

def fail (value : ε) : Stateful σ ε α := throw (.error value)

def ensure (condition : Prop) [Decidable condition] (value : ε) :
    Stateful σ ε Unit :=
  if condition then pure () else fail value

def ofOption (value : ε) : Option α → Stateful σ ε α
  | some item => pure item
  | none => fail value

/-- Run a computation and go on with its outcome, an error included. -/
def attempt (run : Stateful σ ε α) : Stateful σ ε (Run ε α) :=
  ExceptT.lift (ExceptT.run run)

def ofRun : Run ε α → Stateful σ ε α
  | .ok item => pure item
  | .error fault => throw fault

/-- The result and the final state of a computation. -/
def exec (run : Stateful σ ε α) (state : σ) : Run ε α × σ :=
  StateT.run (ExceptT.run run) state

theorem exec_bind (run : Stateful σ ε α) (next : α → Stateful σ ε β)
    (state : σ) :
    exec (run >>= next) state =
      match exec run state with
      | (.ok item, state) => exec (next item) state
      | (.error fault, state) => (.error fault, state) := by
  unfold exec
  simp only [ExceptT.run_bind, StateT.run_bind]
  cases result : StateT.run (ExceptT.run run) state with
  | mk outcome after => cases outcome <;> rfl

theorem exec_bind_ok {run : Stateful σ ε α} {next : α → Stateful σ ε β}
    {state last : σ} {item : β} :
    exec (run >>= next) state = (.ok item, last) ↔
      ∃ first middle, exec run state = (.ok first, middle) ∧
        exec (next first) middle = (.ok item, last) := by
  rw [exec_bind]
  cases result : exec run state with
  | mk outcome after => cases outcome <;> simp

@[simp] theorem exec_pure_ok {item item' : α} {state last : σ} :
    exec (pure item : Stateful σ ε α) state = (.ok item', last) ↔
      item = item' ∧ state = last := by
  rw [show exec (pure item : Stateful σ ε α) state = (.ok item, state)
    from rfl]
  simp

@[simp] theorem exec_fail_ok {value : ε} {item : α} {state last : σ} :
    ¬ exec (fail value : Stateful σ ε α) state = (.ok item, last) := by
  rw [show exec (fail value : Stateful σ ε α) state =
    (.error (.error value), state) from rfl]
  simp

@[simp] theorem exec_ensure_ok {condition : Prop} [Decidable condition]
    {value : ε} {done : Unit} {state last : σ} :
    exec (ensure condition value) state = (.ok done, last) ↔
      condition ∧ state = last := by
  unfold ensure
  split
  · rename_i holds
    simp [holds]
  · rename_i fails
    simp [fails]

@[simp] theorem exec_ofOption_ok {value : ε} {option : Option α}
    {item : α} {state last : σ} :
    exec (ofOption value option) state = (.ok item, last) ↔
      option = some item ∧ state = last := by
  cases option <;> simp [ofOption]

@[simp] theorem exec_get_ok {state item last : σ} :
    exec (get : Stateful σ ε σ) state = (.ok item, last) ↔
      state = item ∧ state = last := by
  rw [show exec (get : Stateful σ ε σ) state = (.ok state, state) from rfl]
  simp

@[simp] theorem exec_set_ok {state next last : σ} {done : PUnit} :
    exec (set next : Stateful σ ε PUnit) state = (.ok done, last) ↔
      next = last := by
  rw [show exec (set next : Stateful σ ε PUnit) state =
    (.ok PUnit.unit, next) from rfl]
  simp

@[simp] theorem exec_modify_ok {change : σ → σ} {state last : σ}
    {done : PUnit} :
    exec (modify change : Stateful σ ε PUnit) state = (.ok done, last) ↔
      change state = last := by
  rw [show exec (modify change : Stateful σ ε PUnit) state =
    (.ok PUnit.unit, change state) from rfl]
  simp

theorem exec_map_ok {change : α → β} {run : Stateful σ ε α}
    {state last : σ} {item : β} :
    exec (change <$> run) state = (.ok item, last) ↔
      ∃ first, exec run state = (.ok first, last) ∧ change first = item := by
  rw [map_eq_pure_bind, exec_bind_ok]
  constructor
  · rintro ⟨first, middle, ran, done⟩
    obtain ⟨same, rfl⟩ := exec_pure_ok.mp done
    exact ⟨first, ran, same⟩
  · rintro ⟨first, ran, same⟩
    exact ⟨first, last, ran, exec_pure_ok.mpr ⟨same, rfl⟩⟩

/-! ## What holds whatever a computation returns -/

/-- The outcome and the final state of a computation satisfy a condition. -/
def Ends (run : Stateful σ ε α) (state : σ)
    (holds : Run ε α → σ → Prop) : Prop :=
  holds (exec run state).1 (exec run state).2

theorem Ends.bind {run : Stateful σ ε α} {next : α → Stateful σ ε β}
    {state : σ} {holds : Run ε β → σ → Prop}
    (first : Ends run state fun outcome middle =>
      match outcome with
      | .ok item => Ends (next item) middle holds
      | .error fault => holds (.error fault) middle) :
    Ends (run >>= next) state holds := by
  unfold Ends at *
  rw [exec_bind]
  cases result : exec run state with
  | mk outcome middle =>
      rw [result] at first
      cases outcome with
      | error fault => exact first
      | ok item => exact first

theorem Ends.pure {item : α} {state : σ} {holds : Run ε α → σ → Prop}
    (done : holds (.ok item) state) :
    Ends (pure item : Stateful σ ε α) state holds := done

theorem Ends.fail {value : ε} {state : σ} {holds : Run ε α → σ → Prop}
    (done : holds (.error (.error value)) state) :
    Ends (fail value : Stateful σ ε α) state holds := done

theorem Ends.modify {change : σ → σ} {state : σ}
    {holds : Run ε PUnit → σ → Prop}
    (done : holds (.ok PUnit.unit) (change state)) :
    Ends (modify change : Stateful σ ε PUnit) state holds := done

theorem Ends.get {state : σ} {holds : Run ε σ → σ → Prop}
    (done : holds (.ok state) state) :
    Ends (get : Stateful σ ε σ) state holds := done

theorem Ends.mono {run : Stateful σ ε α} {state : σ}
    {first second : Run ε α → σ → Prop} (ends : Ends run state first)
    (weaker : ∀ outcome last, first outcome last → second outcome last) :
    Ends run state second := weaker _ _ ends

theorem Ends.throw {fault : Fault ε} {state : σ}
    {holds : Run ε α → σ → Prop} (done : holds (.error fault) state) :
    Ends (throw fault : Stateful σ ε α) state holds := done

theorem Ends.set {next state : σ} {holds : Run ε PUnit → σ → Prop}
    (done : holds (.ok PUnit.unit) next) :
    Ends (set next : Stateful σ ε PUnit) state holds := done

/-- A computation that goes on with the outcome of another one. -/
theorem Ends.attempt_bind {run : Stateful σ ε α}
    {next : Run ε α → Stateful σ ε β} {state : σ}
    {mid : Run ε α → σ → Prop} {post : Run ε β → σ → Prop}
    (first : Ends run state mid)
    (after : ∀ outcome middle, mid outcome middle →
      Ends (next outcome) middle post) :
    Ends (attempt run >>= next) state post :=
  Ends.bind (after _ _ first)

theorem Ends.seq {run : Stateful σ ε α} {next : α → Stateful σ ε β}
    {state : σ} {mid : Run ε α → σ → Prop} {post : Run ε β → σ → Prop}
    (first : Ends run state mid)
    (after : ∀ item middle, mid (.ok item) middle →
      Ends (next item) middle post)
    (faulty : ∀ fault middle, mid (.error fault) middle →
      post (.error fault) middle) :
    Ends (run >>= next) state post := by
  refine Ends.bind (first.mono ?_)
  intro outcome middle reached
  cases outcome with
  | ok item => exact after item middle reached
  | error fault => exact faulty fault middle reached

/-- The predicate holds after a computation, an error included, if it holds
before. -/
def Keeps (holds : σ → Prop) (run : Stateful σ ε α) : Prop :=
  ∀ state, holds state → Ends run state fun _ last => holds last

variable {holds : σ → Prop}

theorem Keeps.pure (item : α) :
    Keeps holds (pure item : Stateful σ ε α) := fun _ before => before

theorem Keeps.fail (value : ε) :
    Keeps holds (fail value : Stateful σ ε α) := fun _ before => before

theorem Keeps.throw (fault : Fault ε) :
    Keeps holds (throw fault : Stateful σ ε α) := fun _ before => before

theorem Keeps.modify {change : σ → σ}
    (kept : ∀ state, holds state → holds (change state)) :
    Keeps holds (modify change : Stateful σ ε PUnit) := kept

theorem Keeps.ofRun (run : Run ε α) :
    Keeps holds (ofRun run : Stateful σ ε α) := by
  cases run with
  | ok item => exact .pure item
  | error fault => exact .throw fault

theorem Keeps.ofOption (value : ε) (option : Option α) :
    Keeps holds (ofOption value option : Stateful σ ε α) := by
  cases option with
  | none => exact .fail value
  | some item => exact .pure item

theorem Keeps.ensure (condition : Prop) [Decidable condition] (value : ε) :
    Keeps holds (ensure condition value : Stateful σ ε Unit) := by
  unfold Stateful.ensure
  split
  · exact .pure ()
  · exact .fail value

/-- A step that keeps a predicate, before a computation that needs it. -/
theorem Keeps.ends {run : Stateful σ ε α} {next : α → Stateful σ ε β}
    {state : σ} {post : Run ε β → σ → Prop} (keeps : Keeps holds run)
    (before : holds state)
    (after : ∀ item middle, holds middle → Ends (next item) middle post)
    (faulty : ∀ fault middle, holds middle → post (.error fault) middle) :
    Ends (run >>= next) state post :=
  (keeps state before).seq after faulty

theorem Keeps.bind {run : Stateful σ ε α} {next : α → Stateful σ ε β}
    (first : Keeps holds run) (second : ∀ item, Keeps holds (next item)) :
    Keeps holds (run >>= next) := fun _ before =>
  first.ends before (fun item middle kept => second item middle kept)
    fun _ _ kept => kept

theorem Keeps.map {change : α → β} {run : Stateful σ ε α}
    (keeps : Keeps holds run) : Keeps holds (change <$> run) := by
  rw [map_eq_pure_bind]
  exact keeps.bind fun item => .pure (change item)

/-- A computation that reads the state it runs on. -/
theorem Keeps.get {next : σ → Stateful σ ε α}
    (after : ∀ state, holds state →
      Ends (next state) state fun _ last => holds last) :
    Keeps holds (get >>= next) := fun state before =>
  Ends.bind (Ends.get (after state before))

end Stateful

end Pocketboot
