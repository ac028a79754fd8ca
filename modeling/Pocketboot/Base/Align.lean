import Pocketboot.Base.IoError

/-!
# Alignment by masks

`value & !(align - 1)` on 64-bit words, for alignments that are powers of two.
-/

namespace Pocketboot

/-- `value & !(align - 1)` on 64-bit words. -/
def maskDown (value align : Nat) : Nat :=
  value &&& (wordSize - 1 - (align - 1))

theorem maskDown_two_pow {value exponent : Nat} (bound : value < wordSize)
    (small : exponent ≤ 64) :
    maskDown value (2 ^ exponent) = value / 2 ^ exponent * 2 ^ exponent := by
  have powers : 2 ^ exponent ≤ 2 ^ 64 := Nat.pow_le_pow_right (by omega) small
  have positive : 0 < 2 ^ exponent := by positivity
  have mask : wordSize - 1 - (2 ^ exponent - 1) =
      2 ^ 64 - ((2 ^ exponent - 1) + 1) := by
    unfold wordSize
    omega
  apply Nat.eq_of_testBit_eq
  intro index
  rw [maskDown, mask, Nat.testBit_and,
    Nat.testBit_two_pow_sub_succ (by omega), Nat.testBit_two_pow_sub_one,
    Nat.testBit_mul_two_pow, Nat.testBit_div_two_pow]
  by_cases low : index < exponent
  · simp [low]
  · have high : exponent ≤ index := by omega
    by_cases inside : index < 64
    · simp [low, high, inside]
    · have zero : value.testBit index = false :=
        Nat.testBit_lt_two_pow (lt_of_lt_of_le bound
          (Nat.pow_le_pow_right (by omega) (by omega)))
      simp [inside, high, zero]

/-- Round up to a multiple of four. -/
def align4 (value : Nat) : Nat := (value + 3) / 4 * 4

theorem maskDown_four {value : Nat} (bound : value < wordSize) :
    maskDown value 4 = value / 4 * 4 :=
  maskDown_two_pow bound (show 2 ≤ 64 by omega)

end Pocketboot
