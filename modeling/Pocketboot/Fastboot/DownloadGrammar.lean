import Pocketboot.Base.Hex
import Pocketboot.Fastboot.Server

/-!
# The grammar of the download command

The size of a download is read with the integer parser of the library, which
takes a sign where the command has none.  Apart from that, exactly eight
hexadecimal digits are accepted, and the `DATA` response says them again.
-/

namespace Pocketboot

namespace Fastboot

open Text (IsHexDigit hexNumber)

/-- Eight hexadecimal digits, and the size they encode. -/
def EncodesSize (rest : Text) (size : Nat) : Prop :=
  rest.length = 8 ∧ (∀ letter ∈ rest, IsHexDigit letter) ∧
    size = hexNumber 0 rest

/-- The command accepts exactly the sizes of eight digits, and its `DATA`
response carries them in lower case. -/
structure DownloadGrammar (rest : Text) : Prop where
  accepts : ∀ size, parseDownloadCommand (downloadPrefix ++ rest) =
    .ok (some size) ↔ EncodesSize rest size
  data : ∀ size, parseDownloadCommand (downloadPrefix ++ rest) =
      .ok (some size) → size ≤ maxDownloadSize →
    ∀ (state : State) (result : SendResult),
      (state.prepareDownload size none .sent result).responses =
        state.responses ++ [⟨⟨.data, Text.utf8 (rest.map Char.toLower)⟩, true⟩]

/-- A sign and seven digits. -/
def Signed (rest : Text) : Prop :=
  ∃ digits, rest = '+' :: digits ∧ digits.length = 7 ∧
    ∀ letter ∈ digits, IsHexDigit letter

theorem parseDownloadCommand_eq_ok {rest : Text} {size : Nat} :
    parseDownloadCommand (downloadPrefix ++ rest) = .ok (some size) ↔
      rest.utf8.length = 8 ∧ Text.parseU32 16 rest = some size := by
  have stripped : Text.stripPrefix downloadPrefix (downloadPrefix ++ rest) =
      some rest := by
    rw [Text.stripPrefix, if_pos (by simp), List.drop_left]
  unfold parseDownloadCommand
  rw [stripped]
  dsimp only
  by_cases eight : rest.utf8.length = 8
  · rw [if_neg (by simpa using eight)]
    cases parsed : Text.parseU32 16 rest <;> simp [Run.fail, eight]
  · rw [if_pos eight]
    simp [Run.fail, eight]

/-- Behind an optional sign, the parser of the library reads digits. -/
private theorem parseU32_digits {letters : Text} (short : letters.length ≤ 8)
    {value : Nat} :
    ((Text.digitsFrom 16 0 letters).filter (· < 2 ^ 32)) = some value ↔
      (∀ letter ∈ letters, IsHexDigit letter) ∧ value = hexNumber 0 letters := by
  have power : 16 ^ letters.length ≤ 16 ^ 8 :=
    Nat.pow_le_pow_right (by decide) short
  have word : (16 : Nat) ^ 8 = 2 ^ 32 := by decide
  have bound : (0 + 1) * 16 ^ letters.length ≤ wordSize := by
    have : (2 : Nat) ^ 32 ≤ wordSize := by decide
    omega
  rw [Option.filter_eq_some_iff, Text.digitsFrom_eq_some bound]
  constructor
  · exact And.left
  · rintro ⟨digits, rfl⟩
    refine ⟨⟨digits, rfl⟩, ?_⟩
    have small := Text.hexNumber_lt 0 digits
    simp only [decide_eq_true_eq]
    omega

private theorem utf8_length_of_hex {letters : Text}
    (digits : ∀ letter ∈ letters, IsHexDigit letter) :
    letters.utf8.length = letters.length :=
  Text.utf8_length_of_ascii fun letter member =>
    (Text.isHexDigit_cases (digits letter member)).2.2.2.1

private theorem parseU32_sign {digits : Text} (filled : digits ≠ []) :
    Text.parseU32 16 ('+' :: digits) =
      (Text.digitsFrom 16 0 digits).filter (· < 2 ^ 32) := by
  unfold Text.parseU32 Text.parseU64
  cases digits with
  | nil => exact absurd rfl filled
  | cons letter digits => rfl

private theorem parseU32_unsigned {letter : Char} {digits : Text}
    (unsigned : letter ≠ '+') :
    Text.parseU32 16 (letter :: digits) =
      (Text.digitsFrom 16 0 (letter :: digits)).filter (· < 2 ^ 32) := by
  unfold Text.parseU32 Text.parseU64
  split <;> simp_all

/-- Apart from the sign, the command is read as its grammar says. -/
private theorem accepts_unsigned {rest : Text} (unsigned : ¬ Signed rest)
    (size : Nat) :
    parseDownloadCommand (downloadPrefix ++ rest) = .ok (some size) ↔
      EncodesSize rest size := by
  rw [parseDownloadCommand_eq_ok, EncodesSize]
  have long := Text.length_le_utf8 rest
  constructor
  · rintro ⟨eight, parsed⟩
    cases rest with
    | nil => simp at eight
    | cons letter digits =>
        by_cases sign : letter = '+'
        · subst sign
          rw [List.length_cons] at long
          cases digits with
          | nil => simp [Text.parseU32, Text.parseU64] at parsed
          | cons digit digits =>
              rw [parseU32_sign (List.cons_ne_nil _ _),
                parseU32_digits (by omega)] at parsed
              have length := utf8_length_of_hex parsed.1
              rw [Text.utf8_length_cons, length,
                show '+'.utf8Size = 1 from rfl] at eight
              exact absurd ⟨digit :: digits, rfl, by omega, parsed.1⟩ unsigned
        · rw [parseU32_unsigned sign, parseU32_digits (by omega)] at parsed
          exact ⟨(utf8_length_of_hex parsed.1).symm.trans eight, parsed⟩
  · rintro ⟨eight, digits, value⟩
    refine ⟨(utf8_length_of_hex digits).trans eight, ?_⟩
    cases rest with
    | nil => cases eight
    | cons letter rest =>
        have sign := (Text.isHexDigit_cases
          (digits letter List.mem_cons_self)).2.2.2.2
        rw [parseU32_unsigned sign, parseU32_digits eight.le]
        exact ⟨digits, value⟩

/-- The download command is read as its grammar says exactly when its size has
no sign. -/
theorem downloadGrammar_iff (rest : Text) :
    DownloadGrammar rest ↔ ¬ Signed rest := by
  constructor
  · rintro grammar ⟨digits, rfl, seven, hex⟩
    have filled : digits ≠ [] := by
      rintro rfl
      cases seven
    have parsed : parseDownloadCommand (downloadPrefix ++ '+' :: digits) =
        .ok (some (hexNumber 0 digits)) := by
      rw [parseDownloadCommand_eq_ok, Text.utf8_length_cons,
        utf8_length_of_hex hex, seven, parseU32_sign filled,
        parseU32_digits (by omega)]
      exact ⟨rfl, hex, rfl⟩
    obtain ⟨_, all, _⟩ := (grammar.accepts _).mp parsed
    exact (Text.isHexDigit_cases (all '+' List.mem_cons_self)).2.2.2.2 rfl
  · intro unsigned
    refine ⟨accepts_unsigned unsigned, fun size parsed small state result => ?_⟩
    obtain ⟨eight, digits, rfl⟩ := (accepts_unsigned unsigned size).mp parsed
    have lower := Text.hexDigits_hexNumber 0 digits
    rw [eight] at lower
    rw [← lower]
    rfl

/-- A sign is read as if it were a digit. -/
theorem downloadGrammar_fails_signed :
    ¬ DownloadGrammar "+1234567".toList := by
  intro grammar
  have parsed : parseDownloadCommand
      (downloadPrefix ++ "+1234567".toList) = .ok (some 0x1234567) := by
    decide +kernel
  obtain ⟨_, digits, _⟩ := (grammar.accepts _).mp parsed
  exact absurd (digits '+' (by decide)) (by unfold Text.IsHexDigit; decide)

end Fastboot

end Pocketboot
