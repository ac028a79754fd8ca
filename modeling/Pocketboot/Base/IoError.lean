import Pocketboot.Base.Bytes

/-!
# I/O errors and 64-bit arithmetic

The error values of the client code, and the checked arithmetic it performs
on `u64` and `usize` values of a 64-bit target.
-/

namespace Pocketboot

/-- The kinds of `io::Error` the code constructs or passes on. -/
inductive ErrorKind where
  | notFound
  | invalidInput
  | invalidData
  | unexpectedEof
  | writeZero
  | unsupported
  | timedOut
  | brokenPipe
  | connectionAborted
  | connectionReset
  | notConnected
  | other
  deriving DecidableEq, Repr

/-- An `io::Error`. -/
structure IoError where
  kind : ErrorKind
  message : String
  deriving DecidableEq, Repr

def invalidData (message : String) : IoError := ⟨.invalidData, message⟩

def invalidInput (message : String) : IoError := ⟨.invalidInput, message⟩

/-- The number of values of a `u64` or a 64-bit `usize`. -/
def wordSize : Nat := 2 ^ 64

def checkedAdd (left right : Nat) : Option Nat :=
  if left + right < wordSize then some (left + right) else none

def checkedMul (left right : Nat) : Option Nat :=
  if left * right < wordSize then some (left * right) else none

def saturatingAdd (left right : Nat) : Nat := min (left + right) (wordSize - 1)

@[simp] theorem checkedAdd_eq_some {left right sum : Nat} :
    checkedAdd left right = some sum ↔
      left + right < wordSize ∧ left + right = sum := by
  simp [checkedAdd]

@[simp] theorem checkedMul_eq_some {left right product : Nat} :
    checkedMul left right = some product ↔
      left * right < wordSize ∧ left * right = product := by
  simp [checkedMul]

end Pocketboot
