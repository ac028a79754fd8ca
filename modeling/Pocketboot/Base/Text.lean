import Pocketboot.Base.IoError

/-!
# Text

The string functions the client code uses, on the list of a string's
characters.
-/

namespace Pocketboot

/-- The characters of a string. -/
abbrev Text : Type := List Char

instance text_lawfulBEq : LawfulBEq Text := inferInstance

namespace Text

/-- The string with these bytes, if they are UTF-8. -/
def ofUtf8 (bytes : Bytes) : Option Text :=
  (String.fromUTF8? ⟨bytes.toArray⟩).map String.toList

/-- The bytes of a string. -/
def utf8 (text : Text) : Bytes := (String.ofList text).toUTF8.data.toList

/-- `char::is_whitespace`. -/
def isWhitespace (letter : Char) : Bool :=
  let code := letter.toNat
  (9 ≤ code && code ≤ 13) || code == 32 || code == 0x85 || code == 0xa0 ||
    code == 0x1680 || (0x2000 ≤ code && code ≤ 0x200a) || code == 0x2028 ||
    code == 0x2029 || code == 0x202f || code == 0x205f || code == 0x3000

def trimStart (text : Text) : Text := text.dropWhile isWhitespace

def trimEnd (text : Text) : Text := (trimStart text.reverse).reverse

def trim (text : Text) : Text := trimEnd (trimStart text)

/-- A line without the carriage return before its line feed. -/
def stripCarriageReturn (line : Text) : Text :=
  if line.getLast? = some '\r' then line.dropLast else line

/-- `lines`, after the characters `read` of the current line (reversed). -/
def linesFrom : Text → Text → List Text
  | [], [] => []
  | read, [] => [read.reverse]
  | read, letter :: rest =>
      if letter = '\n' then
        stripCarriageReturn read.reverse :: linesFrom [] rest
      else linesFrom (letter :: read) rest

def lines (text : Text) : List Text := linesFrom [] text

/-- `split_once` at a character. -/
def splitOnce (separator : Char) : Text → Option (Text × Text)
  | [] => none
  | letter :: rest =>
      if letter = separator then some ([], rest)
      else (splitOnce separator rest).map fun (before, after) =>
        (letter :: before, after)

/-- `split_whitespace`, after the characters `read` of the current word
(reversed). -/
def wordsFrom : Text → Text → List Text
  | [], [] => []
  | read, [] => [read.reverse]
  | read, letter :: rest =>
      if isWhitespace letter then
        if read = [] then wordsFrom [] rest
        else read.reverse :: wordsFrom [] rest
      else wordsFrom (letter :: read) rest

def splitWhitespace (text : Text) : List Text := wordsFrom [] text

def stripPrefix (start text : Text) : Option Text :=
  if start.isPrefixOf text then some (text.drop start.length) else none

def stripSuffix (ending text : Text) : Option Text :=
  if ending.isSuffixOf text then
    some (text.take (text.length - ending.length))
  else none

/-- `char::to_digit`, for radix 10 and 16. -/
def toDigit (radix : Nat) (letter : Char) : Option Nat :=
  let code := letter.toNat
  let value :=
    if 48 ≤ code ∧ code ≤ 57 then some (code - 48)
    else if 97 ≤ code ∧ code ≤ 122 then some (code - 87)
    else if 65 ≤ code ∧ code ≤ 90 then some (code - 55)
    else none
  value.filter (· < radix)

/-- The value of digits after those of value `high`; `none` on overflow. -/
def digitsFrom (radix : Nat) : Nat → Text → Option Nat
  | high, [] => some high
  | high, letter :: rest => do
      let digit ← toDigit radix letter
      let shifted ← checkedMul high radix
      let value ← checkedAdd shifted digit
      digitsFrom radix value rest

/-- `u64::from_str_radix`. -/
def parseU64 (radix : Nat) : Text → Option Nat
  | [] => none
  | ['+'] => none
  | '+' :: digits => digitsFrom radix 0 digits
  | digits => digitsFrom radix 0 digits

/-- `u32::from_str_radix`. -/
def parseU32 (radix : Nat) (text : Text) : Option Nat :=
  (parseU64 radix text).filter (· < 2 ^ 32)

/-- So many lower-case hexadecimal digits of a number. -/
def hexDigits : Nat → Nat → Text
  | 0, _ => []
  | width + 1, value =>
      hexDigits width (value / 16) ++ [Nat.digitChar (value % 16)]

example : parseU64 16 "80000000".toList = some 0x80000000 := by
  decide +kernel

/-- The number of bytes that follow the first one of a character of several
bytes, and the range of the second one. -/
def utf8Tail (first : Nat) : Option (Nat × Nat × Nat) :=
  if 0xc2 ≤ first ∧ first ≤ 0xdf then some (1, 0x80, 0xbf)
  else if first = 0xe0 then some (2, 0xa0, 0xbf)
  else if first = 0xed then some (2, 0x80, 0x9f)
  else if 0xe1 ≤ first ∧ first ≤ 0xef then some (2, 0x80, 0xbf)
  else if first = 0xf0 then some (3, 0x90, 0xbf)
  else if 0xf1 ≤ first ∧ first ≤ 0xf3 then some (3, 0x80, 0xbf)
  else if first = 0xf4 then some (3, 0x80, 0x8f)
  else none

/-- The bytes that continue a character. -/
def continuation (low high : Nat) : Nat → Bytes → Bytes
  | 0, _ => []
  | _, [] => []
  | count + 1, byte :: rest =>
      if low ≤ byte.toNat ∧ byte.toNat ≤ high then
        byte :: continuation 0x80 0xbf count rest
      else []

/-- `from_utf8_lossy`: each longest piece that starts no character becomes one
replacement character. -/
def lossyFrom : Nat → Bytes → Text
  | 0, _ => []
  | _, [] => []
  | fuel + 1, first :: rest =>
      if first.toNat < 0x80 then Char.ofNat first.toNat :: lossyFrom fuel rest
      else
        match utf8Tail first.toNat with
        | none => '\uFFFD' :: lossyFrom fuel rest
        | some (count, low, high) =>
            let tail := continuation low high count rest
            let letter :=
              if tail.length = count then
                Char.ofNat (tail.foldl (fun high byte =>
                  high * 64 + byte.toNat % 64) (first.toNat % 2 ^ (6 - count)))
              else '\uFFFD'
            letter :: lossyFrom fuel (rest.drop tail.length)

def ofUtf8Lossy (bytes : Bytes) : Text := lossyFrom bytes.length bytes

example : ofUtf8Lossy [0x41, 0xe2, 0x82, 0xff, 0xc3, 0xa9] =
    "A\uFFFD\uFFFDé".toList := by
  decide +kernel

/-- Rust's order of strings: by code points. -/
def le (left right : Text) : Bool :=
  (left.map Char.toNat) ≤ (right.map Char.toNat)

/-- A parsed number is a `u64`. -/
theorem parseU64_lt {radix value : Nat} {text : Text}
    (parsed : parseU64 radix text = some value) : value < wordSize := by
  have fromDigits : ∀ (digits : Text) (high : Nat), high < wordSize →
      digitsFrom radix high digits = some value → value < wordSize := by
    intro digits
    induction digits with
    | nil =>
        intro high bound result
        simp only [digitsFrom, Option.some.injEq] at result
        omega
    | cons letter rest induction =>
        intro high _ result
        simp only [digitsFrom, Option.bind_eq_bind,
          Option.bind_eq_some_iff] at result
        obtain ⟨digit, _, shifted, _, sum, added, result⟩ := result
        rw [checkedAdd_eq_some] at added
        exact induction sum (by omega) result
  have positive : 0 < wordSize := by decide
  unfold parseU64 at parsed
  split at parsed
  · simp at parsed
  · simp at parsed
  · exact fromDigits _ 0 positive parsed
  · exact fromDigits _ 0 positive parsed

theorem ofUtf8_utf8 (text : Text) : ofUtf8 (utf8 text) = some text := by
  have same : (⟨(String.ofList text).toUTF8.data.toList.toArray⟩ : ByteArray) =
      (String.ofList text).toByteArray := by simp
  have whole : String.fromUTF8 (String.ofList text).toByteArray
      (String.ofList text).isValidUTF8 = String.ofList text := rfl
  rw [ofUtf8, utf8, same, String.fromUTF8?,
    dif_pos (String.ofList text).isValidUTF8, whole]
  simp

/-! ## Hexadecimal numerals -/

private theorem toDigit_digitChar {value : Nat} (small : value < 16) :
    toDigit 16 (Nat.digitChar value) = some value := by
  interval_cases value <;> decide

theorem digitsFrom_append (radix high : Nat) (front back : Text) :
    digitsFrom radix high (front ++ back) =
      (digitsFrom radix high front).bind fun value =>
        digitsFrom radix value back := by
  induction front generalizing high with
  | nil => rfl
  | cons letter rest induction =>
      simp only [List.cons_append, digitsFrom, Option.bind_eq_bind, induction,
        Option.bind_assoc]

theorem digitsFrom_hexDigits {width value : Nat} (bound : value < 16 ^ width)
    (small : width ≤ 16) :
    digitsFrom 16 0 (hexDigits width value) = some value := by
  induction width generalizing value with
  | zero =>
      obtain rfl : value = 0 := by simpa using bound
      rfl
  | succ width induction =>
      have high : value / 16 < 16 ^ width := by
        rw [pow_succ] at bound
        omega
      have limit : 16 ^ (width + 1) ≤ 16 ^ 16 :=
        Nat.pow_le_pow_right (by decide) small
      have word : (16 : Nat) ^ 16 = wordSize := by decide
      have parts : value / 16 * 16 + value % 16 = value := by omega
      rw [hexDigits, digitsFrom_append, induction high (by omega)]
      simp only [Option.bind_some, digitsFrom, Option.bind_eq_bind,
        toDigit_digitChar (Nat.mod_lt value (by decide : 0 < 16)),
        checkedMul, checkedAdd]
      rw [if_pos (by omega), Option.bind_some, parts, if_pos (by omega)]
      rfl

theorem hexDigits_length (width value : Nat) :
    (hexDigits width value).length = width := by
  induction width generalizing value with
  | zero => rfl
  | succ width induction => simp [hexDigits, induction]

private theorem plus_notMem_hexDigits (width value : Nat) :
    '+' ∉ hexDigits width value := by
  induction width generalizing value with
  | zero => simp [hexDigits]
  | succ width induction =>
      have small := Nat.mod_lt value (by decide : 0 < 16)
      have last : '+' ≠ Nat.digitChar (value % 16) := by
        generalize value % 16 = digit at small
        interval_cases digit <;> decide
      simp only [hexDigits, List.mem_append, List.mem_singleton, not_or]
      exact ⟨induction _, last⟩

/-- Reading back eight hexadecimal digits. -/
theorem parseU32_hexDigits {value : Nat} (bound : value < 2 ^ 32) :
    parseU32 16 (hexDigits 8 value) = some value := by
  have parsed : digitsFrom 16 0 (hexDigits 8 value) = some value :=
    digitsFrom_hexDigits (by omega) (by decide)
  have sign := plus_notMem_hexDigits 8 value
  have length := hexDigits_length 8 value
  have whole : parseU64 16 (hexDigits 8 value) = some value := by
    unfold parseU64
    split
    · simp_all
    · simp_all
    · simp_all
    · exact parsed
  rw [parseU32, whole, Option.filter_some, if_pos (by simpa using bound)]

end Text

end Pocketboot
