import Pocketboot.Base.Checked
import Pocketboot.Base.Utf8

/-!
# Slices of strings

A string is sliced at offsets in its bytes.  A slice at an offset inside a
character panics.
-/

namespace Pocketboot.Text

/-- The characters behind some bytes, if these end between characters. -/
def dropBytes : Nat → Text → Option Text
  | 0, text => some text
  | _ + 1, [] => none
  | count + 1, letter :: text =>
      if letter.utf8Size ≤ count + 1 then
        dropBytes (count + 1 - letter.utf8Size) text
      else none

/-- The characters of some bytes, if these end between characters. -/
def takeBytes : Nat → Text → Option Text
  | 0, _ => some []
  | _ + 1, [] => none
  | count + 1, letter :: text =>
      if letter.utf8Size ≤ count + 1 then
        (takeBytes (count + 1 - letter.utf8Size) text).map (letter :: ·)
      else none

/-- `value[start..stop]`. -/
def strSlice {ε : Type} (value : Text) (start stop : Nat) : Run ε Text :=
  if start ≤ stop then
    unwrapOrPanic ((dropBytes start value).bind (takeBytes (stop - start)))
  else .error .panic

/-- `value[start..]`. -/
def strFrom {ε : Type} (value : Text) (start : Nat) : Run ε Text :=
  unwrapOrPanic (dropBytes start value)

/-- `value.char_indices()`, of a part that starts at an offset. -/
def charIndices : Nat → Text → List (Nat × Char)
  | _, [] => []
  | offset, letter :: text =>
      (offset, letter) :: charIndices (offset + letter.utf8Size) text

/-- The number of its bytes. -/
def size (text : Text) : Nat := (text.map Char.utf8Size).sum

@[simp] theorem size_nil : size [] = 0 := rfl

@[simp] theorem size_cons (letter : Char) (text : Text) :
    size (letter :: text) = letter.utf8Size + size text := by
  simp [size]

@[simp] theorem size_append (front back : Text) :
    size (front ++ back) = size front + size back := by
  simp [size]

@[simp] theorem charIndices_length (offset : Nat) (text : Text) :
    (charIndices offset text).length = text.length := by
  induction text generalizing offset with
  | nil => rfl
  | cons letter text induction => simp [charIndices, induction]

theorem dropBytes_append (front back : Text) :
    dropBytes (size front) (front ++ back) = some back := by
  induction front with
  | nil => cases back <;> rfl
  | cons letter front induction =>
      have positive := letter.utf8Size_pos
      obtain ⟨count, total⟩ : ∃ count,
          letter.utf8Size + size front = count + 1 :=
        ⟨letter.utf8Size + size front - 1, by omega⟩
      rw [size_cons, total, List.cons_append, dropBytes, if_pos (by omega)]
      rw [show count + 1 - letter.utf8Size = size front by omega]
      exact induction

theorem takeBytes_append (front back : Text) :
    takeBytes (size front) (front ++ back) = some front := by
  induction front with
  | nil => cases back <;> rfl
  | cons letter front induction =>
      have positive := letter.utf8Size_pos
      obtain ⟨count, total⟩ : ∃ count,
          letter.utf8Size + size front = count + 1 :=
        ⟨letter.utf8Size + size front - 1, by omega⟩
      rw [size_cons, total, List.cons_append, takeBytes, if_pos (by omega)]
      rw [show count + 1 - letter.utf8Size = size front by omega, induction]
      rfl

theorem strSlice_append {ε : Type} {front middle back : Text}
    {start stop : Nat} (starts : start = size front)
    (stops : stop = start + size middle) :
    (strSlice (front ++ (middle ++ back)) start stop : Run ε Text) =
      .ok middle := by
  subst starts stops
  rw [strSlice, if_pos (Nat.le_add_right _ _), dropBytes_append,
    Option.bind_some, Nat.add_sub_cancel_left, takeBytes_append]
  rfl

theorem strFrom_append {ε : Type} {front back : Text} {start : Nat}
    (starts : start = size front) :
    (strFrom (front ++ back) start : Run ε Text) = .ok back := by
  subst starts
  rw [strFrom, dropBytes_append]
  rfl

end Pocketboot.Text
