import Mathlib

/-!
# Outcomes of partial computations

A run of a fallible function ends in a value, in an error value that the
function returns, or in a fault the language raises for it (an index out of
range, an overflowing addition).  The third outcome is kept apart from the
second so that "returns `Ok` or `Err`" can be stated at all.
-/

namespace Pocketboot

/-- How a run fails. -/
inductive Fault (ε : Type) where
  | error (value : ε)
  | panic
  | outOfFuel
  deriving DecidableEq, Repr

/-- A run that ends in a value or in a fault. -/
abbrev Run (ε α : Type) : Type := Except (Fault ε) α

namespace Run

variable {ε α β : Type}

/-- The run returns the error value `value`. -/
def fail (value : ε) : Run ε α := .error (.error value)

/-- Continue only when the condition holds, else return the error value. -/
def ensure (condition : Prop) [Decidable condition] (value : ε) :
    Run ε Unit :=
  if condition then .ok () else fail value

/-- An optional value, with the error value for its absence. -/
def ofOption (value : ε) : Option α → Run ε α
  | some item => .ok item
  | none => fail value

/-- The error value is replaced; panics stay panics. -/
def mapError {δ : Type} (convert : ε → δ) : Run ε α → Run δ α
  | .ok item => .ok item
  | .error (.error value) => .error (.error (convert value))
  | .error .panic => .error .panic
  | .error .outOfFuel => .error .outOfFuel

/-- The value of a run, when there is one. -/
def toOption : Run ε α → Option α
  | .ok item => some item
  | .error _ => none

theorem bind_eq_ok {run : Run ε α} {next : α → Run ε β} {result : β} :
    (run >>= next) = .ok result ↔
      ∃ item, run = .ok item ∧ next item = .ok result := by
  cases run with
  | error fault => simp [bind, Except.bind]
  | ok item => simp [bind, Except.bind]

@[simp] theorem ok_bind (item : α) (next : α → Run ε β) :
    ((Except.ok item : Run ε α) >>= next) = next item := rfl

@[simp] theorem error_bind (fault : Fault ε) (next : α → Run ε β) :
    ((Except.error fault : Run ε α) >>= next) = .error fault := rfl

@[simp] theorem pure_eq_ok (item : α) : (pure item : Run ε α) = .ok item := rfl

@[simp] theorem fail_ne_ok (value : ε) (item : α) :
    (fail value : Run ε α) ≠ .ok item := by
  simp [fail]

@[simp] theorem ensure_eq_ok {condition : Prop} [Decidable condition]
    {value : ε} {item : Unit} :
    ensure condition value = .ok item ↔ condition := by
  by_cases holds : condition <;> simp [ensure, holds]

@[simp] theorem ok_ne_fail (value : ε) (item : α) :
    (Except.ok item : Run ε α) ≠ fail value := by
  simp [fail]

theorem ensure_of {condition : Prop} [Decidable condition]
    (holds : condition) (value : ε) : ensure condition value = .ok () := by
  simp [ensure, holds]

@[simp] theorem ofOption_eq_ok {value : ε} {option : Option α} {item : α} :
    ofOption value option = .ok item ↔ option = some item := by
  cases option <;> simp [ofOption]

@[simp] theorem mapError_eq_ok {δ : Type} {convert : ε → δ}
    {run : Run ε α} {item : α} :
    mapError convert run = .ok item ↔ run = .ok item := by
  rcases run with (_ | _ | _) | _ <;> simp [mapError]

theorem map_eq_ok {run : Run ε α} {change : α → β} {result : β} :
    (change <$> run) = .ok result ↔
      ∃ item, run = .ok item ∧ change item = result := by
  cases run <;> simp [Functor.map, Except.map]

@[simp] theorem map_eq_fail {run : Run ε α} {change : α → β} {value : ε} :
    (change <$> run) = fail value ↔ run = fail value := by
  cases run <;> simp [Functor.map, Except.map, fail]

end Run

end Pocketboot
