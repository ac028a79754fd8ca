import Pocketboot.Base.Checked
import Pocketboot.Base.Utf8

/-!
# Escapes in kernel messages

The kernel writes a byte that is not printable, and the backslash, as `\xNN`.
The scanner of the forwarder undoes that.
-/

namespace Pocketboot.Kmsg

def hex (byte : UInt8) : Option UInt8 :=
  if 48 ≤ byte ∧ byte ≤ 57 then some (byte - 48)
  else if 97 ≤ byte ∧ byte ≤ 102 then some (byte - 97 + 10)
  else if 65 ≤ byte ∧ byte ≤ 70 then some (byte - 65 + 10)
  else none

/-- The condition of the scanner at an index: the byte that an escape there
stands for. -/
def escapeAt (input : Bytes) (index : Nat) : Run Empty (Option UInt8) := do
  if (← indexOrPanic input index) = 92 ∧ index + 3 < input.length then
    if (← indexOrPanic input (index + 1)) = 120 then
      match hex (← indexOrPanic input (index + 2)),
        hex (← indexOrPanic input (index + 3)) with
      | some high, some low => return some (high <<< 4 ||| low)
      | _, _ => return none
    else return none
  else return none

/-- The loop of `decode_kmsg_text`. -/
def decodeKmsgFrom (input : Bytes) : Nat → Nat → Bytes → Run Empty Bytes
  | 0, _, _ => .error .outOfFuel
  | fuel + 1, index, output =>
      if index < input.length then do
        match ← escapeAt input index with
        | some byte => decodeKmsgFrom input fuel (index + 4) (output ++ [byte])
        | none =>
            let byte ← indexOrPanic input index
            decodeKmsgFrom input fuel (index + 1) (output ++ [byte])
      else .ok output

def decodeKmsgText (input : Bytes) : Run Empty Text := do
  let output ← decodeKmsgFrom input (input.length + 1) 0 []
  return Text.ofUtf8Lossy output

/-! ## What the kernel writes -/

/-- A lower-case hexadecimal digit. -/
def hexDigit (value : Nat) : UInt8 :=
  UInt8.ofNat (if value < 10 then 48 + value else 87 + value)

def escapeByte (byte : UInt8) : Bytes :=
  if byte < 0x20 ∨ 0x7f ≤ byte ∨ byte = 92 then
    [92, 120, hexDigit (byte.toNat / 16), hexDigit (byte.toNat % 16)]
  else [byte]

def escape (text : Bytes) : Bytes := text.flatMap escapeByte

/-! ## The scanner reads one escape at a time -/

/-- What the scanner makes of the bytes that are left. -/
def unescape : Bytes → Bytes
  | 92 :: 120 :: high :: low :: rest =>
      match hex high, hex low with
      | some high, some low => (high <<< 4 ||| low) :: unescape rest
      | _, _ => 92 :: unescape (120 :: high :: low :: rest)
  | byte :: rest => byte :: unescape rest
  | [] => []

theorem indexOrPanic_append {ε α : Type} (before rest : List α)
    (index : Nat) :
    (indexOrPanic (before ++ rest) (before.length + index) : Run ε α) =
      indexOrPanic rest index := by
  rw [indexOrPanic, List.getElem?_append_right (Nat.le_add_right _ _),
    Nat.add_sub_cancel_left]
  rfl

theorem escapeAt_append (before rest : Bytes) :
    escapeAt (before ++ rest) before.length = escapeAt rest 0 := by
  have here : (indexOrPanic (before ++ rest) before.length : Run Empty UInt8) =
      indexOrPanic rest 0 := indexOrPanic_append before rest 0
  have inside : before.length + 3 < (before ++ rest).length ↔
      0 + 3 < rest.length := by
    rw [List.length_append]
    omega
  simp only [escapeAt, here, indexOrPanic_append, inside, Nat.zero_add]

/-- Only a whole escape is taken as one. -/
theorem escapeAt_none {byte : UInt8} {rest : Bytes}
    (other : ∀ high low later, byte = 92 → rest ≠ 120 :: high :: low :: later) :
    escapeAt (byte :: rest) 0 = .ok none := by
  unfold escapeAt
  rw [show indexOrPanic (byte :: rest) 0 = .ok byte from rfl, Run.ok_bind]
  by_cases starts : byte = 92 ∧ 0 + 3 < (byte :: rest).length
  · rw [if_pos starts]
    obtain ⟨rfl, enough⟩ := starts
    obtain ⟨mark, high, low, later, rfl⟩ : ∃ mark high low later,
        rest = mark :: high :: low :: later := by
      match rest, enough with
      | mark :: high :: low :: later, _ => exact ⟨mark, high, low, later, rfl⟩
    have unmarked : mark ≠ 120 := by
      rintro rfl
      exact other high low later rfl rfl
    change (if mark = 120 then _ else _) = _
    rw [if_neg unmarked]
    rfl
  · rw [if_neg starts]
    rfl

section

variable {before rest output : Bytes} {byte : UInt8} {fuel : Nat}

theorem decodeKmsgFrom_escape {value : UInt8}
    (escape : escapeAt (byte :: rest) 0 = .ok (some value)) :
    decodeKmsgFrom (before ++ byte :: rest) (fuel + 1) before.length output =
      decodeKmsgFrom (before ++ byte :: rest) fuel (before.length + 4)
        (output ++ [value]) := by
  rw [decodeKmsgFrom, if_pos (by simp), escapeAt_append, escape, Run.ok_bind]

theorem decodeKmsgFrom_copy (copies : escapeAt (byte :: rest) 0 = .ok none) :
    decodeKmsgFrom (before ++ byte :: rest) (fuel + 1) before.length output =
      decodeKmsgFrom (before ++ byte :: rest) fuel (before.length + 1)
        (output ++ [byte]) := by
  have here : (indexOrPanic (before ++ byte :: rest) before.length :
      Run Empty UInt8) = .ok byte := indexOrPanic_append before (byte :: rest) 0
  rw [decodeKmsgFrom, if_pos (by simp), escapeAt_append, copies, Run.ok_bind]
  dsimp only
  rw [here, Run.ok_bind]

private theorem decodeKmsgFrom_next {result : Bytes}
    (copies : escapeAt (byte :: rest) 0 = .ok none)
    (fits : (byte :: rest).length ≤ fuel)
    (later : ∀ (before output : Bytes) (fuel : Nat), rest.length < fuel + 1 →
      rest.length ≤ fuel →
        decodeKmsgFrom (before ++ rest) (fuel + 1) before.length output =
          .ok (output ++ result)) :
    decodeKmsgFrom (before ++ byte :: rest) (fuel + 1) before.length output =
      .ok (output ++ byte :: result) := by
  rw [List.length_cons] at fits
  obtain ⟨fuel, rfl⟩ : ∃ less, fuel = less + 1 := ⟨fuel - 1, by omega⟩
  have behind : before ++ byte :: rest = (before ++ [byte]) ++ rest := by simp
  have length : before.length + 1 = (before ++ [byte]).length := by simp
  rw [decodeKmsgFrom_copy copies, behind, length,
    later _ _ fuel (by omega) (by omega), List.append_assoc]
  rfl

/-- The scanner from an index on, by induction along what is left there. -/
theorem decodeKmsgFrom_eq (enough : rest.length < fuel) :
    decodeKmsgFrom (before ++ rest) fuel before.length output =
      .ok (output ++ unescape rest) := by
  obtain ⟨fuel, rfl⟩ := Nat.exists_eq_succ_of_ne_zero (Nat.ne_zero_of_lt enough)
  have fits := Nat.le_of_lt_succ enough
  induction rest using unescape.induct generalizing before fuel output with
  | case1 high low rest top bottom highDigit lowDigit induction =>
      have found : escapeAt (92 :: 120 :: high :: low :: rest) 0 =
          .ok (some (top <<< 4 ||| bottom)) := by
        simp [escapeAt, indexOrPanic, highDigit, lowDigit]
      have behind : before ++ 92 :: 120 :: high :: low :: rest =
          (before ++ [92, 120, high, low]) ++ rest := by simp
      have length : before.length + 4 =
          (before ++ [92, 120, high, low]).length := by simp
      rw [decodeKmsgFrom_escape found, behind, length]
      simp only [List.length_cons] at fits
      obtain ⟨fuel, rfl⟩ : ∃ less, fuel = less + 1 := ⟨fuel - 1, by omega⟩
      rw [induction fuel (by omega) (by omega), unescape, highDigit, lowDigit]
      simp
  | case2 high low rest noDigits induction =>
      have copies : escapeAt (92 :: 120 :: high :: low :: rest) 0 =
          .ok none := by
        simp only [escapeAt, indexOrPanic]
        cases top : hex high with
        | none => simp [top]
        | some highDigit =>
            cases bottom : hex low with
            | none => simp [bottom]
            | some lowDigit => exact (noDigits _ _ top bottom).elim
      have result : unescape (92 :: 120 :: high :: low :: rest) =
          92 :: unescape (120 :: high :: low :: rest) := by
        rw [unescape]
        split
        · exact (noDigits _ _ ‹_› ‹_›).elim
        · rfl
      rw [result]
      exact decodeKmsgFrom_next copies fits fun before output fuel =>
        induction fuel
  | case3 byte rest other induction =>
      have copies : escapeAt (byte :: rest) 0 = .ok none :=
        escapeAt_none fun high low later first =>
          other high low later first
      rw [unescape.eq_2 _ _ other]
      exact decodeKmsgFrom_next copies fits fun before output fuel =>
        induction fuel
  | case4 =>
      rw [decodeKmsgFrom, if_neg (by simp), unescape, List.append_nil]

end

/-! ## The round trip -/

theorem hex_hexDigit {value : Nat} (small : value < 16) :
    hex (hexDigit value) = some (UInt8.ofNat value) := by
  interval_cases value <;> decide

/-- Two digits are the halves of a byte. -/
theorem halves_eq (byte : UInt8) :
    UInt8.ofNat (byte.toNat / 16) <<< 4 ||| UInt8.ofNat (byte.toNat % 16) =
      byte := by
  have every : ∀ code < 256,
      UInt8.ofNat (code / 16) <<< 4 ||| UInt8.ofNat (code % 16) =
        UInt8.ofNat code := by
    decide +kernel
  have same := every byte.toNat byte.toNat_lt
  rwa [UInt8.ofNat_toNat] at same

theorem unescape_escapeByte (byte : UInt8) (rest : Bytes) :
    unescape (escapeByte byte ++ rest) = byte :: unescape rest := by
  unfold escapeByte
  split
  · have high := byte.toNat_lt
    have top := @hex_hexDigit (byte.toNat / 16) (by omega)
    have bottom := @hex_hexDigit (byte.toNat % 16) (by omega)
    simp only [List.cons_append, List.nil_append]
    rw [unescape, top, bottom]
    dsimp only
    rw [halves_eq]
  · rename_i plain
    have letter : byte ≠ 92 := fun same => plain (.inr (.inr same))
    rw [List.singleton_append]
    exact unescape.eq_2 _ _ fun _ _ _ backslash => (letter backslash).elim

theorem unescape_escape (text : Bytes) : unescape (escape text) = text := by
  induction text with
  | nil => rw [escape, List.flatMap_nil, unescape]
  | cons byte text induction =>
      rw [escape, List.flatMap_cons, unescape_escapeByte]
      exact congrArg (byte :: ·) induction

/-- What the kernel escaped is read as it was. -/
theorem decodeKmsgText_escape {bytes : Bytes} {text : Text}
    (valid : Text.ofUtf8 bytes = some text) :
    decodeKmsgText (escape bytes) = .ok text := by
  have scanned : decodeKmsgFrom (escape bytes) ((escape bytes).length + 1) 0 [] =
      .ok bytes := by
    have whole := @decodeKmsgFrom_eq [] (escape bytes) []
      ((escape bytes).length + 1) (Nat.lt_succ_self _)
    rwa [List.nil_append, List.nil_append, unescape_escape] at whole
  rw [decodeKmsgText, scanned, Run.ok_bind, ← Text.utf8_of_ofUtf8 valid,
    Text.ofUtf8Lossy_utf8]
  rfl

theorem decodeKmsgText_escape_letters :
    Text.ofUtf8 [92, 120, 52, 49, 10, 195, 169] = some "\\x41\né".toList ∧
      decodeKmsgText (escape [92, 120, 52, 49, 10, 195, 169]) =
        .ok "\\x41\né".toList :=
  have valid : Text.ofUtf8 [92, 120, 52, 49, 10, 195, 169] =
      some "\\x41\né".toList := by decide +kernel
  ⟨valid, decodeKmsgText_escape valid⟩

end Pocketboot.Kmsg
