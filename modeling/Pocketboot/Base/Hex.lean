import Pocketboot.Base.Utf8

/-!
# Hexadecimal numerals

The digits that the library reads, the number that they encode, and numerals of
a least width.
-/

namespace Pocketboot.Text

def IsHexDigit (letter : Char) : Prop := (toDigit 16 letter).isSome

def hexValue (letter : Char) : Nat := (toDigit 16 letter).getD 0

/-- The number that digits encode behind others. -/
def hexNumber (high : Nat) (letters : Text) : Nat :=
  letters.foldl (fun value letter => value * 16 + hexValue letter) high

theorem isHexDigit_cases {letter : Char} (digit : IsHexDigit letter) :
    toDigit 16 letter = some (hexValue letter) ∧ hexValue letter < 16 ∧
      Nat.digitChar (hexValue letter) = letter.toLower ∧
        letter.toNat < 0x80 ∧ letter ≠ '+' := by
  have named : letter = Char.ofNat letter.toNat := (Char.ofNat_toNat letter).symm
  have range : (48 ≤ letter.toNat ∧ letter.toNat ≤ 57) ∨
      (97 ≤ letter.toNat ∧ letter.toNat ≤ 102) ∨
        (65 ≤ letter.toNat ∧ letter.toNat ≤ 70) := by
    obtain ⟨value, found⟩ := Option.isSome_iff_exists.mp digit
    unfold toDigit at found
    dsimp only at found
    rw [Option.filter_eq_some_iff] at found
    obtain ⟨found, small⟩ := found
    split at found
    · exact .inl ‹_›
    · split at found
      · obtain rfl := Option.some.inj found
        rename_i letters
        refine .inr (.inl ⟨letters.1, ?_⟩)
        have := of_decide_eq_true small
        omega
      · split at found
        · obtain rfl := Option.some.inj found
          rename_i letters
          refine .inr (.inr ⟨letters.1, ?_⟩)
          have := of_decide_eq_true small
          omega
        · cases found
  generalize letter.toNat = code at named range
  subst named
  rcases range with ⟨low, high⟩ | ⟨low, high⟩ | ⟨low, high⟩ <;>
    interval_cases code <;> decide

/-- What the digits say is read, if it is no more than a word. -/
theorem digitsFrom_eq_some {letters : Text} {high : Nat}
    (bound : (high + 1) * 16 ^ letters.length ≤ wordSize) {value : Nat} :
    digitsFrom 16 high letters = some value ↔
      (∀ letter ∈ letters, IsHexDigit letter) ∧
        value = hexNumber high letters := by
  induction letters generalizing high with
  | nil => simp [digitsFrom, hexNumber, eq_comm]
  | cons letter letters induction =>
      by_cases digit : IsHexDigit letter
      · obtain ⟨found, small, _⟩ := isHexDigit_cases digit
        rw [List.length_cons, pow_succ'] at bound
        have grows : (high * 16 + hexValue letter + 1) * 16 ^ letters.length ≤
            wordSize := by
          refine le_trans (Nat.mul_le_mul_right _ ?_) (by rwa [← mul_assoc] at bound)
          omega
        have positive : 0 < 16 ^ letters.length := by positivity
        have word : high * 16 + hexValue letter < wordSize := by
          calc high * 16 + hexValue letter
              < high * 16 + hexValue letter + 1 := Nat.lt_succ_self _
            _ ≤ (high * 16 + hexValue letter + 1) * 16 ^ letters.length :=
                Nat.le_mul_of_pos_right _ positive
            _ ≤ wordSize := grows
        have shifted : checkedMul high 16 = some (high * 16) := by
          rw [checkedMul, if_pos (by omega)]
        have added : checkedAdd (high * 16) (hexValue letter) =
            some (high * 16 + hexValue letter) := by
          rw [checkedAdd, if_pos word]
        simp only [digitsFrom, found, shifted, added, Option.bind_eq_bind,
          Option.bind_some, induction grows, List.forall_mem_cons, digit,
          true_and]
        rfl
      · have none : toDigit 16 letter = none := by
          simpa [IsHexDigit] using digit
        simp [digitsFrom, none, digit]

theorem hexNumber_lt {letters : Text} (high : Nat)
    (digits : ∀ letter ∈ letters, IsHexDigit letter) :
    hexNumber high letters < (high + 1) * 16 ^ letters.length := by
  induction letters generalizing high with
  | nil => simp [hexNumber]
  | cons letter letters induction =>
      obtain ⟨digit, digits⟩ := List.forall_mem_cons.mp digits
      obtain ⟨_, small, _⟩ := isHexDigit_cases digit
      calc hexNumber high (letter :: letters)
          = hexNumber (high * 16 + hexValue letter) letters := rfl
        _ < (high * 16 + hexValue letter + 1) * 16 ^ letters.length :=
            induction _ digits
        _ ≤ (high + 1) * 16 * 16 ^ letters.length :=
            Nat.mul_le_mul_right _ (by omega)
        _ = (high + 1) * 16 ^ (letter :: letters).length := by
            rw [List.length_cons, pow_succ', mul_assoc]

/-- Writing a number that was read writes its digits in lower case. -/
theorem hexDigits_hexNumber {letters : Text} (high : Nat)
    (digits : ∀ letter ∈ letters, IsHexDigit letter) :
    hexDigits letters.length (hexNumber high letters) =
      letters.map Char.toLower := by
  induction letters using List.reverseRecOn with
  | nil => rfl
  | append_singleton letters letter induction =>
      obtain ⟨_, small, lower, _⟩ := isHexDigit_cases (digits letter (by simp))
      have before := induction fun other member =>
        digits other (List.mem_append_left _ member)
      have split : hexNumber high (letters ++ [letter]) =
          hexNumber high letters * 16 + hexValue letter := by
        simp [hexNumber]
      rw [List.length_append, List.length_singleton, hexDigits, split,
        show (hexNumber high letters * 16 + hexValue letter) / 16 =
          hexNumber high letters by omega,
        show (hexNumber high letters * 16 + hexValue letter) % 16 =
          hexValue letter by omega, before, lower]
      simp

/-- `{value:08x}` and the like: lower-case digits, with zeros in front of
numerals that are shorter than the width. -/
def hexAtLeast (width value : Nat) : Text :=
  if value < 16 ^ width then hexDigits width value
  else hexDigits (Nat.log 16 value + 1) value

theorem hexDigits_ascii {width value : Nat} :
    ∀ letter ∈ hexDigits width value, letter.toNat < 0x80 := by
  induction width generalizing value with
  | zero => simp [hexDigits]
  | succ width induction =>
      intro letter member
      rw [hexDigits, List.mem_append, List.mem_singleton] at member
      rcases member with front | rfl
      · exact induction letter front
      · have small := Nat.mod_lt value (show 0 < 16 by decide)
        interval_cases value % 16 <;> decide

theorem hexAtLeast_ascii {width value : Nat} :
    ∀ letter ∈ hexAtLeast width value, letter.toNat < 0x80 := by
  unfold hexAtLeast
  split <;> exact hexDigits_ascii

end Pocketboot.Text
