import Pocketboot.Base.Align

/-!
# Operations that can panic

Slices, additions and subtractions panic when their result does not exist.
Each is an operation of `Run` here, and `Run.Returns` says of a run that none
of its operations did: it ends in a value or in an error value.
-/

namespace Pocketboot

variable {ε α β : Type}

namespace Run

/-- The run ends in a value or in an error value of its own. -/
def Returns (run : Run ε α) : Prop :=
  ∀ fault, run = .error fault → ∃ value, fault = .error value

theorem returns_iff {run : Run ε α} :
    run.Returns ↔ run ≠ .error .panic ∧ run ≠ .error .outOfFuel := by
  rcases run with (_ | _ | _) | _ <;> simp [Returns]

@[simp] theorem returns_ok (item : α) : Returns (.ok item : Run ε α) := by
  rintro _ ⟨⟩

@[simp] theorem returns_pure (item : α) : Returns (pure item : Run ε α) := by
  rintro _ ⟨⟩

@[simp] theorem returns_fail (value : ε) :
    Returns (fail value : Run ε α) := by
  rintro _ ⟨⟩
  exact ⟨value, rfl⟩

@[simp] theorem returns_ensure (condition : Prop) [Decidable condition]
    (value : ε) : Returns (ensure condition value) := by
  unfold ensure
  split
  · exact returns_ok ()
  · exact returns_fail value

theorem ensure_of_not {condition : Prop} [Decidable condition]
    (fails : ¬ condition) (value : ε) : ensure condition value = fail value :=
  if_neg fails

@[simp] theorem returns_ofOption (value : ε) (option : Option α) :
    Returns (ofOption value option) := by
  cases option with
  | none => exact returns_fail value
  | some item => exact returns_ok item

theorem Returns.error {run : Run ε α} {fault : Fault ε}
    (returns : run.Returns) (stopped : run = .error fault) :
    Returns (.error fault : Run ε β) := by
  rintro _ ⟨⟩
  exact returns fault stopped

theorem Returns.bind {run : Run ε α} {next : α → Run ε β}
    (first : run.Returns) (later : ∀ item, run = .ok item → (next item).Returns) :
    (run >>= next).Returns := by
  cases run with
  | error fault =>
      rintro _ ⟨⟩
      exact first fault rfl
  | ok item => exact later item rfl

theorem Returns.map {run : Run ε α} (returns : run.Returns) (change : α → β) :
    (change <$> run).Returns := by
  rw [← bind_pure_comp]
  exact returns.bind fun item _ => returns_pure _

theorem Returns.mapError {δ : Type} {run : Run ε α} (returns : run.Returns)
    (convert : ε → δ) : (Run.mapError convert run).Returns := by
  rcases run with (value | _ | _) | item
  · exact returns_fail _
  · exact absurd (returns .panic rfl) (by simp)
  · exact absurd (returns .outOfFuel rfl) (by simp)
  · exact returns_ok item

theorem Returns.mapM {next : α → Run ε β} :
    ∀ {items : List α}, (∀ item ∈ items, (next item).Returns) →
      (items.mapM next).Returns
  | [], _ => by
      rw [List.mapM_nil]
      exact returns_pure _
  | first :: items, each => by
      rw [List.mapM_cons]
      refine (each first List.mem_cons_self).bind fun _ _ => ?_
      exact (mapM fun item member => each item
        (List.mem_cons_of_mem _ member)).bind fun _ _ => returns_pure _

theorem Returns.foldlM {next : β → α → Run ε β} (invariant : β → Prop)
    (each : ∀ state item, invariant state → (next state item).Returns)
    (keeps : ∀ state item state', invariant state →
      next state item = .ok state' → invariant state') :
    ∀ {items : List α} {state : β}, invariant state →
      (items.foldlM next state).Returns
  | [], state, _ => by
      rw [List.foldlM_nil]
      exact returns_pure _
  | first :: items, state, holds => by
      rw [List.foldlM_cons]
      exact (each state first holds).bind fun state' step =>
        foldlM invariant each keeps (keeps _ _ _ holds step)

end Run

/-- `data[start..stop]`. -/
def sliceOrPanic (data : Bytes) (start stop : Nat) : Run ε Bytes :=
  if start ≤ stop ∧ stop ≤ data.length then .ok (Bytes.slice data start stop)
  else .error .panic

/-- `left + right` on words with `size` values. -/
def addOrPanic (size left right : Nat) : Run ε Nat :=
  if left + right < size then .ok (left + right) else .error .panic

/-- `left * right` on words with `size` values. -/
def mulOrPanic (size left right : Nat) : Run ε Nat :=
  if left * right < size then .ok (left * right) else .error .panic

/-- `left - right`. -/
def subOrPanic (left right : Nat) : Run ε Nat :=
  if right ≤ left then .ok (left - right) else .error .panic

/-- `left.checked_sub(right)`. -/
def checkedSub (left right : Nat) : Option Nat :=
  if right ≤ left then some (left - right) else none

@[simp] theorem checkedSub_eq_some {left right difference : Nat} :
    checkedSub left right = some difference ↔
      right ≤ left ∧ left - right = difference := by
  simp [checkedSub]

/-- `items[index]`. -/
def indexOrPanic (items : List α) (index : Nat) : Run ε α :=
  match items[index]? with
  | some item => .ok item
  | none => .error .panic

/-- `option.unwrap()`. -/
def unwrapOrPanic : Option α → Run ε α
  | some item => .ok item
  | none => .error .panic

theorem sliceOrPanic_of {data : Bytes} {start stop : Nat}
    (ordered : start ≤ stop) (inside : stop ≤ data.length) :
    (sliceOrPanic data start stop : Run ε Bytes) =
      .ok (Bytes.slice data start stop) :=
  if_pos ⟨ordered, inside⟩

theorem sliceOrPanic_eq_ok {data piece : Bytes} {start stop : Nat} :
    (sliceOrPanic data start stop : Run ε Bytes) = .ok piece ↔
      start ≤ stop ∧ stop ≤ data.length ∧
        piece = Bytes.slice data start stop := by
  unfold sliceOrPanic
  split
  · rename_i inside
    simp [inside, eq_comm]
  · rename_i outside
    constructor
    · intro absurd
      cases absurd
    · rintro ⟨ordered, inside, _⟩
      exact absurd ⟨ordered, inside⟩ outside

theorem addOrPanic_of {size left right : Nat} (small : left + right < size) :
    (addOrPanic size left right : Run ε Nat) = .ok (left + right) :=
  if_pos small

theorem addOrPanic_eq_ok {size left right sum : Nat} :
    (addOrPanic size left right : Run ε Nat) = .ok sum ↔
      left + right < size ∧ sum = left + right := by
  unfold addOrPanic
  split
  · rename_i small
    simp [small, eq_comm]
  · rename_i large
    simp [large]

theorem mulOrPanic_of {size left right : Nat} (small : left * right < size) :
    (mulOrPanic size left right : Run ε Nat) = .ok (left * right) :=
  if_pos small

theorem subOrPanic_of {left right : Nat} (ordered : right ≤ left) :
    (subOrPanic left right : Run ε Nat) = .ok (left - right) :=
  if_pos ordered

/-- A byte string literal of ASCII letters. -/
def byteString (literal : String) : Bytes :=
  literal.toList.map fun letter => UInt8.ofNat letter.toNat

/-- A string slice of the language: its length is a signed word. -/
structure Str where
  bytes : Bytes
  length_lt : bytes.length < 2 ^ 63

end Pocketboot
