import Pocketboot.Base.Text

/-!
# Encoded texts

How long the bytes of a text are, and the bytes of what is read, with
replacement characters, out of a byte string.  The bytes of a text are read as
that text.
-/

namespace Pocketboot.Text

theorem utf8_eq_flatMap (text : Text) :
    utf8 text = text.flatMap String.utf8EncodeChar := by
  unfold utf8
  simp [List.utf8Encode]

theorem utf8_append (front back : Text) :
    utf8 (front ++ back) = utf8 front ++ utf8 back := by
  rw [utf8_eq_flatMap, utf8_eq_flatMap, utf8_eq_flatMap, List.flatMap_append]

theorem utf8_length_cons (letter : Char) (text : Text) :
    (utf8 (letter :: text)).length = letter.utf8Size + (utf8 text).length := by
  rw [utf8_eq_flatMap, utf8_eq_flatMap, List.flatMap_cons, List.length_append,
    String.length_utf8EncodeChar]

@[simp] theorem utf8_nil : utf8 [] = [] := by
  rw [utf8_eq_flatMap, List.flatMap_nil]

/-- Each character has a byte of its own. -/
theorem length_le_utf8 (text : Text) : text.length ≤ (utf8 text).length := by
  induction text with
  | nil => simp
  | cons letter text induction =>
      have positive := letter.utf8Size_pos
      rw [utf8_length_cons, List.length_cons]
      omega

private theorem utf8Size_ascii : ∀ code < 0x80,
    (Char.ofNat code).utf8Size = 1 := by
  decide

theorem utf8Size_of_ascii {letter : Char} (ascii : letter.toNat < 0x80) :
    letter.utf8Size = 1 := by
  have size := utf8Size_ascii letter.toNat ascii
  rwa [Char.ofNat_toNat] at size

theorem utf8_length_of_ascii {letters : Text}
    (ascii : ∀ letter ∈ letters, letter.toNat < 0x80) :
    letters.utf8.length = letters.length := by
  induction letters with
  | nil => simp
  | cons letter letters induction =>
      obtain ⟨small, rest⟩ := List.forall_mem_cons.mp ascii
      rw [utf8_length_cons, utf8Size_of_ascii small, induction rest,
        List.length_cons]
      omega

private theorem continuation_length (low high count : Nat) (bytes : Bytes) :
    (continuation low high count bytes).length ≤ bytes.length := by
  induction count generalizing low high bytes with
  | zero => simp [continuation]
  | succ count induction =>
      cases bytes with
      | nil => simp [continuation]
      | cons byte rest =>
          unfold continuation
          split
          · exact Nat.succ_le_succ (induction _ _ rest)
          · simp

private theorem utf8Tail_pos {first count low high : Nat}
    (found : utf8Tail first = some (count, low, high)) : 0 < count := by
  unfold utf8Tail at found
  repeat' split at found
  all_goals simp at found <;> omega

private theorem lossyFrom_length (fuel : Nat) (bytes : Bytes) :
    (utf8 (lossyFrom fuel bytes)).length ≤ 3 * bytes.length := by
  induction fuel generalizing bytes with
  | zero => simp [lossyFrom]
  | succ fuel induction =>
      cases bytes with
      | nil => simp [lossyFrom]
      | cons first rest =>
          have replaced : '\uFFFD'.utf8Size = 3 := rfl
          unfold lossyFrom
          split
          · rename_i ascii
            have size := utf8Size_ascii _ ascii
            have later := induction rest
            rw [utf8_length_cons, size, List.length_cons]
            omega
          · split
            · have later := induction rest
              rw [utf8_length_cons, replaced, List.length_cons]
              omega
            · rename_i count low high found
              dsimp only
              have inside := continuation_length low high count rest
              have later := induction
                (rest.drop (continuation low high count rest).length)
              have positive := utf8Tail_pos found
              rw [List.length_drop] at later
              rw [utf8_length_cons, List.length_cons]
              split
              · rename_i whole
                have size := Char.utf8Size_le_four (Char.ofNat
                  ((continuation low high count rest).foldl (fun high byte =>
                    high * 64 + byte.toNat % 64)
                      (first.toNat % 2 ^ (6 - count))))
                omega
              · rw [replaced]
                omega

/-- A byte becomes at most a replacement character. -/
theorem ofUtf8Lossy_utf8_length (bytes : Bytes) :
    (utf8 (ofUtf8Lossy bytes)).length ≤ 3 * bytes.length :=
  lossyFrom_length bytes.length bytes

private theorem toNat_byte {code : Nat} (small : code < 256) :
    (UInt8.ofNat code).toNat = code :=
  UInt8.toNat_ofNat_of_lt' small

private theorem continuation_of {low high count code : Nat} {rest : Bytes}
    (above : low ≤ code) (below : code ≤ high) (small : code < 256) :
    continuation low high (count + 1) (UInt8.ofNat code :: rest) =
      UInt8.ofNat code :: continuation 0x80 0xbf count rest := by
  rw [continuation, toNat_byte small, if_pos ⟨above, below⟩]

/-- A character of several bytes is read from them. -/
private theorem lossyFrom_of {fuel count low high : Nat} {first : UInt8}
    {tail rest : Bytes} (found : utf8Tail first.toNat = some (count, low, high))
    (whole : tail.length = count)
    (continues : continuation low high count (tail ++ rest) = tail) :
    lossyFrom (fuel + 1) (first :: (tail ++ rest)) =
      Char.ofNat (tail.foldl (fun high byte => high * 64 + byte.toNat % 64)
        (first.toNat % 2 ^ (6 - count))) :: lossyFrom fuel rest := by
  have large : ¬ first.toNat < 0x80 := by
    intro ascii
    unfold utf8Tail at found
    repeat' rw [if_neg (by omega)] at found
    cases found
  rw [lossyFrom, if_neg large, found]
  dsimp only
  rw [continues, if_pos whole, List.drop_left]

/-- The encoding of a character is read as one character. -/
theorem lossyFrom_encode (fuel : Nat) (letter : Char) (rest : Bytes) :
    lossyFrom (fuel + 1) (String.utf8EncodeChar letter ++ rest) =
      letter :: lossyFrom fuel rest := by
  have named : Char.ofNat letter.toNat = letter := Char.ofNat_toNat letter
  have value : letter.val.toNat = letter.toNat := rfl
  have valid : letter.toNat < 0xd800 ∨
      0xdfff < letter.toNat ∧ letter.toNat < 0x110000 := letter.valid
  unfold String.utf8EncodeChar
  rw [value]
  generalize letter.toNat = code at named valid
  subst named
  dsimp only
  split
  · rw [List.singleton_append, lossyFrom, toNat_byte (by omega),
      if_pos (by omega)]
  · split
    · have found : utf8Tail (UInt8.ofNat (code / 64 % 0x20 + 0xc0)).toNat =
          some (1, 0x80, 0xbf) := by
        rw [toNat_byte (by omega), utf8Tail, if_pos (by omega)]
      rw [List.cons_append, lossyFrom_of found rfl]
      · simp only [List.foldl_cons, List.foldl_nil]
        rw [toNat_byte (by omega), toNat_byte (by omega)]
        congr 2
        omega
      · rw [List.singleton_append,
          continuation_of (by omega) (by omega) (by omega), continuation]
    · split
      · have found : ∃ low high,
            utf8Tail (UInt8.ofNat (code / 4096 % 0x10 + 0xe0)).toNat =
              some (2, low, high) ∧ low ≤ code / 64 % 0x40 + 0x80 ∧
                code / 64 % 0x40 + 0x80 ≤ high := by
          rw [toNat_byte (by omega), utf8Tail, if_neg (by omega)]
          split
          · exact ⟨_, _, rfl, by omega, by omega⟩
          · split
            · exact ⟨_, _, rfl, by omega, by omega⟩
            · rw [if_pos (by omega)]
              exact ⟨_, _, rfl, by omega, by omega⟩
        obtain ⟨low, high, found, above, below⟩ := found
        rw [List.cons_append, lossyFrom_of found rfl]
        · simp only [List.foldl_cons, List.foldl_nil]
          rw [toNat_byte (by omega), toNat_byte (by omega),
            toNat_byte (by omega)]
          congr 2
          omega
        · rw [List.cons_append, List.singleton_append,
            continuation_of above below (by omega),
            continuation_of (by omega) (by omega) (by omega), continuation]
      · have found : ∃ low high,
            utf8Tail (UInt8.ofNat (code / 262144 % 0x08 + 0xf0)).toNat =
              some (3, low, high) ∧ low ≤ code / 4096 % 0x40 + 0x80 ∧
                code / 4096 % 0x40 + 0x80 ≤ high := by
          rw [toNat_byte (by omega), utf8Tail]
          iterate 4 rw [if_neg (by omega)]
          split
          · exact ⟨_, _, rfl, by omega, by omega⟩
          · split
            · exact ⟨_, _, rfl, by omega, by omega⟩
            · rw [if_pos (by omega)]
              exact ⟨_, _, rfl, by omega, by omega⟩
        obtain ⟨low, high, found, above, below⟩ := found
        rw [List.cons_append, lossyFrom_of found rfl]
        · simp only [List.foldl_cons, List.foldl_nil]
          rw [toNat_byte (by omega), toNat_byte (by omega),
            toNat_byte (by omega), toNat_byte (by omega)]
          congr 2
          omega
        · rw [List.cons_append, List.cons_append, List.singleton_append,
            continuation_of above below (by omega),
            continuation_of (by omega) (by omega) (by omega),
            continuation_of (by omega) (by omega) (by omega), continuation]

private theorem lossyFrom_utf8 {fuel : Nat} {text : Text}
    (enough : text.length ≤ fuel) : lossyFrom fuel (utf8 text) = text := by
  induction text generalizing fuel with
  | nil => cases fuel <;> simp [lossyFrom]
  | cons letter text induction =>
      obtain ⟨fuel, rfl⟩ := Nat.exists_eq_succ_of_ne_zero
        (Nat.ne_of_gt (Nat.lt_of_lt_of_le (Nat.succ_pos _) enough))
      rw [utf8_eq_flatMap, List.flatMap_cons, Nat.succ_eq_add_one,
        lossyFrom_encode, ← utf8_eq_flatMap,
        induction (Nat.le_of_succ_le_succ enough)]

/-- The bytes of a text are read without loss. -/
theorem ofUtf8Lossy_utf8 (text : Text) : ofUtf8Lossy (utf8 text) = text :=
  lossyFrom_utf8 (length_le_utf8 text)

/-- Bytes that are the encoding of a text are the bytes of that text. -/
theorem utf8_of_ofUtf8 {bytes : Bytes} {text : Text}
    (valid : ofUtf8 bytes = some text) : utf8 text = bytes := by
  unfold ofUtf8 String.fromUTF8? at valid
  split at valid
  · obtain rfl := Option.some.inj valid
    simp [utf8, String.fromUTF8]
  · cases valid

theorem utf8_inj {left right : Text} (same : utf8 left = utf8 right) :
    left = right := by
  have read := ofUtf8_utf8 left
  rw [same, ofUtf8_utf8] at read
  exact (Option.some.inj read).symm

theorem utf8_of_ascii {letters : Text}
    (ascii : ∀ letter ∈ letters, letter.toNat < 0x80) :
    utf8 letters = letters.map fun letter => UInt8.ofNat letter.toNat := by
  induction letters with
  | nil => simp
  | cons letter letters induction =>
      obtain ⟨small, rest⟩ := List.forall_mem_cons.mp ascii
      have value : letter.val.toNat = letter.toNat := rfl
      rw [utf8_eq_flatMap, List.flatMap_cons, ← utf8_eq_flatMap, induction rest,
        String.utf8EncodeChar, value, if_pos (by omega), List.map_cons]
      rfl

/-- A zero byte is the character of that number. -/
theorem zero_notMem_utf8 {text : Text} (free : Char.ofNat 0 ∉ text) :
    (0 : UInt8) ∉ utf8 text := by
  intro member
  rw [utf8_eq_flatMap, List.mem_flatMap] at member
  obtain ⟨letter, inside, zero⟩ := member
  have large : letter.toNat ≠ 0 := by
    intro zero
    have named : Char.ofNat letter.toNat = letter := Char.ofNat_toNat letter
    rw [zero] at named
    exact free (named ▸ inside)
  have value : letter.val.toNat = letter.toNat := rfl
  have small : letter.toNat < 0x110000 := by
    have valid := letter.valid
    rcases valid with low | ⟨-, high⟩
    · exact Nat.lt_trans low (by decide)
    · exact high
  have nonzero : ∀ code < 256, code ≠ 0 → (0 : UInt8) ≠ UInt8.ofNat code := by
    intro code bound positive same
    have zero := congrArg UInt8.toNat same
    rw [toNat_byte bound] at zero
    exact positive zero.symm
  rw [String.utf8EncodeChar, value] at zero
  split at zero
  · exact nonzero _ (by omega) large (List.mem_singleton.mp zero)
  · split at zero
    · simp only [List.mem_cons, List.not_mem_nil, or_false] at zero
      rcases zero with zero | zero <;> exact nonzero _ (by omega) (by omega) zero
    · split at zero
      · simp only [List.mem_cons, List.not_mem_nil, or_false] at zero
        rcases zero with zero | zero | zero <;>
          exact nonzero _ (by omega) (by omega) zero
      · simp only [List.mem_cons, List.not_mem_nil, or_false] at zero
        rcases zero with zero | zero | zero | zero <;>
          exact nonzero _ (by omega) (by omega) zero

end Pocketboot.Text
