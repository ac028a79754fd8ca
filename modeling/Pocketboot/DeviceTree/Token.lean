import Pocketboot.Base.Checked

/-!
# Tokens of a structure block

The structure block of a flattened device tree is a sequence of 32-bit tokens,
each followed by its data and padded to a multiple of four bytes.  A `Lexeme`
is a token together with its bytes, padding included, and carries the proof
that they are well formed.  A `BlockReader` is a program's own set of
primitive readers with the laws they obey; `nextToken` reads one token with
them and is sound and complete for lexemes.
-/

namespace Pocketboot.DeviceTree

/-- A 32-bit big-endian numeral. -/
abbrev be32 (value : Nat) : Bytes := Bytes.toBe 4 value

/-- The 32-bit big-endian numeral at an offset. -/
def be32At (data : Bytes) (offset : Nat) : Nat :=
  Bytes.ofBe (Bytes.slice data offset (offset + 4))

def beginNodeToken : Nat := 1
def endNodeToken : Nat := 2
def propToken : Nat := 3
def nopToken : Nat := 4
def endToken : Nat := 9

/-- A token as a reader sees it. -/
inductive Token where
  | beginNode (name : Bytes)
  | endNode
  | prop (nameoff : Nat) (value : Bytes)
  | nop
  | fin
  deriving DecidableEq, Repr

/-- A node name with the padding after its terminating zero byte. -/
structure NodeName where
  text : Bytes
  pad : Bytes
  noNul : (0 : UInt8) ∉ text
  padded : (text.length + 1 + pad.length) % 4 = 0
  pad_lt : pad.length < 4

/-- A property's name offset and value, with the padding after the value. -/
structure Property where
  nameoff : Nat
  value : Bytes
  pad : Bytes
  nameoff_lt : nameoff < 2 ^ 32
  value_lt : value.length < 2 ^ 32
  padded : (value.length + pad.length) % 4 = 0
  pad_lt : pad.length < 4

/-- A token with its bytes in a structure block. -/
inductive Lexeme where
  | beginNode (name : NodeName)
  | endNode
  | prop (property : Property)
  | nop
  | fin

namespace NodeName

/-- The bytes of `FDT_BEGIN_NODE` with this name. -/
def bytes (name : NodeName) : Bytes :=
  be32 beginNodeToken ++ (name.text ++ 0 :: name.pad)

/-- A name padded with zeros. -/
def plain (text : Bytes) (noNul : (0 : UInt8) ∉ text) : NodeName where
  text := text
  pad := List.replicate (align4 (text.length + 1) - (text.length + 1)) 0
  noNul := noNul
  padded := by
    rw [List.length_replicate]
    unfold align4
    omega
  pad_lt := by
    rw [List.length_replicate]
    unfold align4
    omega

end NodeName

namespace Property

/-- The bytes of `FDT_PROP` with this content. -/
def bytes (property : Property) : Bytes :=
  be32 propToken ++ (be32 property.value.length ++
    (be32 property.nameoff ++ (property.value ++ property.pad)))

/-- A value padded with zeros. -/
def plain (nameoff : Nat) (value : Bytes) (nameoff_lt : nameoff < 2 ^ 32)
    (value_lt : value.length < 2 ^ 32) : Property where
  nameoff := nameoff
  value := value
  pad := List.replicate (align4 value.length - value.length) 0
  nameoff_lt := nameoff_lt
  value_lt := value_lt
  padded := by
    rw [List.length_replicate]
    unfold align4
    omega
  pad_lt := by
    rw [List.length_replicate]
    unfold align4
    omega

end Property

namespace Lexeme

def bytes : Lexeme → Bytes
  | beginNode name => name.bytes
  | endNode => be32 endNodeToken
  | prop property => property.bytes
  | nop => be32 nopToken
  | fin => be32 endToken

def token : Lexeme → Token
  | beginNode name => .beginNode name.text
  | endNode => .endNode
  | prop property => .prop property.nameoff property.value
  | nop => .nop
  | fin => .fin

theorem bytes_length_mod (lexeme : Lexeme) : lexeme.bytes.length % 4 = 0 := by
  cases lexeme with
  | beginNode name =>
      have := name.padded
      simp [bytes, NodeName.bytes]
      omega
  | prop property =>
      have := property.padded
      simp [bytes, Property.bytes]
      omega
  | endNode => simp [bytes]
  | nop => simp [bytes]
  | fin => simp [bytes]

theorem four_le_bytes_length (lexeme : Lexeme) : 4 ≤ lexeme.bytes.length := by
  cases lexeme <;> simp [bytes, NodeName.bytes, Property.bytes]

end Lexeme

/-- What follows a position of a structure block; positions are aligned. -/
structure At (block : Bytes) (cursor : Nat) (rest : Bytes) : Prop where
  after : block.drop cursor = rest
  aligned : cursor % 4 = 0
  inside : cursor ≤ block.length
  short : block.length < 2 ^ 32

namespace At

variable {block rest front : Bytes} {cursor : Nat}

theorem length_eq (place : At block cursor rest) :
    block.length = cursor + rest.length := by
  have lengths := congrArg List.length place.after
  have := place.inside
  simp only [List.length_drop] at lengths
  omega

theorem advance (place : At block cursor (front ++ rest))
    (aligned : front.length % 4 = 0) :
    At block (cursor + front.length) rest := by
  have length := place.length_eq
  have start := place.aligned
  rw [List.length_append] at length
  refine ⟨?_, by omega, by omega, place.short⟩
  rw [← List.drop_drop, place.after, List.drop_left]

theorem next {lexeme : Lexeme} (place : At block cursor (lexeme.bytes ++ rest)) :
    At block (cursor + lexeme.bytes.length) rest :=
  place.advance lexeme.bytes_length_mod

theorem slice_eq (place : At block cursor (front ++ rest)) :
    Bytes.slice block cursor (cursor + front.length) = front := by
  simp [Bytes.slice, place.after]

theorem be32At_eq {value : Nat} (place : block.drop cursor = be32 value ++ rest)
    (bound : value < 2 ^ 32) : be32At block cursor = value := by
  unfold be32At Bytes.slice
  rw [place, Nat.add_sub_cancel_left, List.take_left' (by simp)]
  exact Bytes.ofBe_toBe_of_lt bound

end At

/-- The parts of a property, as the programs' `property_parts` returns them. -/
structure PropertyParts where
  nameoff : Nat
  valueStart : Nat
  valueEnd : Nat
  next : Nat
  deriving DecidableEq, Repr

/-- The first zero byte from `start` on is at `stop`. -/
def FirstNul (data : Bytes) (start stop : Nat) : Prop :=
  ∃ name rest, (0 : UInt8) ∉ name ∧
    data.drop start = name ++ 0 :: rest ∧ stop = start + name.length

/-- The primitive readers of a program, on blocks whose lengths and offsets
are far from the end of the machine word. -/
structure BlockReader (ε : Type) where
  plus : Nat → Nat → Run ε Nat
  readBe32 : Bytes → Nat → Run ε Nat
  findNul : Bytes → Nat → Run ε Nat
  alignUp : Nat → Run ε Nat
  propertyParts : Bytes → Nat → Run ε PropertyParts
  unknownToken : Nat → ε
  plus_eq : ∀ {left right}, left + right < 2 ^ 34 →
    plus left right = .ok (left + right)
  readBe32_eq_ok : ∀ {data offset value}, offset < 2 ^ 33 →
    (readBe32 data offset = .ok value ↔
      offset + 4 ≤ data.length ∧ value = be32At data offset)
  readBe32_returns : ∀ {data offset}, offset < 2 ^ 33 →
    (readBe32 data offset).Returns
  findNul_eq_ok : ∀ {data start stop}, start ≤ data.length →
    (findNul data start = .ok stop ↔ FirstNul data start stop)
  findNul_returns : ∀ {data start}, start ≤ data.length →
    (findNul data start).Returns
  alignUp_eq : ∀ {value}, value < 2 ^ 33 → alignUp value = .ok (align4 value)
  propertyParts_eq_ok : ∀ {data cursor parts}, cursor < 2 ^ 33 →
    (propertyParts data cursor = .ok parts ↔
      cursor + 8 ≤ data.length ∧
        parts = ⟨be32At data (cursor + 4), cursor + 8,
          cursor + 8 + be32At data cursor,
          align4 (cursor + 8 + be32At data cursor)⟩ ∧
        align4 (cursor + 8 + be32At data cursor) ≤ data.length)
  propertyParts_returns : ∀ {data cursor}, cursor < 2 ^ 33 →
    (propertyParts data cursor).Returns

section

variable {ε : Type} (reader : BlockReader ε)

/-- Read the token at a position, with the position after it. -/
def nextToken (block : Bytes) (start : Nat) : Run ε (Token × Nat) := do
  let token ← reader.readBe32 block start
  let cursor ← reader.plus start 4
  if token = beginNodeToken then
    let nameEnd ← reader.findNul block cursor
    let name ← sliceOrPanic block cursor nameEnd
    let next ← reader.alignUp (← reader.plus nameEnd 1)
    return (.beginNode name, next)
  else if token = endNodeToken then return (.endNode, cursor)
  else if token = propToken then
    let parts ← reader.propertyParts block cursor
    let value ← sliceOrPanic block parts.valueStart parts.valueEnd
    return (.prop parts.nameoff value, parts.next)
  else if token = nopToken then return (.nop, cursor)
  else if token = endToken then return (.fin, cursor)
  else Run.fail (reader.unknownToken token)

variable {reader} {block rest : Bytes} {cursor next : Nat} {token : Token}

theorem FirstNul.unique {data : Bytes} {start first second : Nat}
    (left : FirstNul data start first) (right : FirstNul data start second) :
    first = second := by
  obtain ⟨name, rest, noNul, split, rfl⟩ := left
  obtain ⟨name', rest', noNul', split', rfl⟩ := right
  have same : name ++ 0 :: rest = name' ++ 0 :: rest' := split.symm.trans split'
  have taken : ∀ {name rest : Bytes}, (0 : UInt8) ∉ name →
      (name ++ 0 :: rest).takeWhile (· ≠ 0) = name := by
    intro name rest absent
    rw [List.takeWhile_append_of_pos]
    · simp
    · intro byte member
      simp only [ne_eq, decide_eq_true_eq]
      exact fun zero => absent (zero ▸ member)
  have first : (name ++ 0 :: rest).takeWhile (· ≠ 0) = name := taken noNul
  rw [← first, same, taken noNul']

theorem readBe32_at {value : Nat} (place : At block cursor (be32 value ++ rest))
    (bound : value < 2 ^ 32) : reader.readBe32 block cursor = .ok value := by
  have length := place.length_eq
  have short := place.short
  have inside := place.inside
  simp only [List.length_append, Bytes.toBe_length] at length
  rw [reader.readBe32_eq_ok (by omega)]
  exact ⟨by omega, (At.be32At_eq place.after bound).symm⟩

theorem At.skip_be32 {value : Nat}
    (place : At block cursor (be32 value ++ rest)) :
    At block (cursor + 4) rest := by
  have := place.advance (by simp)
  simpa using this

/-- Every lexeme at an aligned position is read as its token. -/
theorem nextToken_at {lexeme : Lexeme}
    (place : At block cursor (lexeme.bytes ++ rest)) :
    nextToken reader block cursor =
      .ok (lexeme.token, cursor + lexeme.bytes.length) := by
  have length := place.length_eq
  have short := place.short
  have inside := place.inside
  have start := place.aligned
  have width := lexeme.four_le_bytes_length
  rw [List.length_append] at length
  have after : reader.plus cursor 4 = .ok (cursor + 4) :=
    reader.plus_eq (by omega)
  unfold nextToken
  cases lexeme with
  | beginNode name =>
      have padded := name.padded
      have padShort := name.pad_lt
      rw [Lexeme.bytes, NodeName.bytes, List.append_assoc] at place
      have body := place.skip_be32
      simp only [Lexeme.bytes, NodeName.bytes, List.length_append,
        List.length_cons, Bytes.toBe_length] at length
      have bump : reader.plus (cursor + 4 + name.text.length) 1 =
          .ok (cursor + 4 + name.text.length + 1) :=
        reader.plus_eq (by omega)
      have stop : reader.findNul block (cursor + 4) =
          .ok (cursor + 4 + name.text.length) := by
        rw [reader.findNul_eq_ok body.inside]
        exact ⟨name.text, name.pad ++ rest, name.noNul,
          by rw [body.after]; simp, rfl⟩
      have text : (sliceOrPanic block (cursor + 4)
          (cursor + 4 + name.text.length) : Run ε Bytes) =
            .ok name.text := by
        rw [sliceOrPanic_of (by omega) (by omega)]
        simp [Bytes.slice, body.after]
      have padding : align4 (cursor + 4 + name.text.length + 1) =
          cursor + (name.text.length + 1 + name.pad.length + 4) := by
        unfold align4
        omega
      rw [readBe32_at place (by decide)]
      simp only [Run.ok_bind, if_true, after, stop, text, bump,
        reader.alignUp_eq (show cursor + 4 + name.text.length + 1 < 2 ^ 33 by
          omega), Run.pure_eq_ok]
      simp [Lexeme.token, Lexeme.bytes, NodeName.bytes, padding]
      omega
  | endNode =>
      rw [readBe32_at place (by decide)]
      simp [endNodeToken, beginNodeToken, Lexeme.token, Lexeme.bytes, after]
  | prop property =>
      have padded := property.padded
      have padShort := property.pad_lt
      rw [Lexeme.bytes, Property.bytes, List.append_assoc, List.append_assoc,
        List.append_assoc] at place
      have size := place.skip_be32
      have nameoff := size.skip_be32
      have value := nameoff.skip_be32
      simp only [Lexeme.bytes, Property.bytes, List.length_append,
        Bytes.toBe_length] at length
      have sizeAt : be32At block (cursor + 4) = property.value.length :=
        At.be32At_eq size.after property.value_lt
      have nameoffAt : be32At block (cursor + 4 + 4) = property.nameoff :=
        At.be32At_eq nameoff.after property.nameoff_lt
      have padding : align4 (cursor + 4 + 8 + property.value.length) =
          cursor + 12 + property.value.length + property.pad.length := by
        unfold align4
        omega
      have parts : reader.propertyParts block (cursor + 4) =
          .ok ⟨property.nameoff, cursor + 12,
            cursor + 12 + property.value.length,
            cursor + 12 + property.value.length + property.pad.length⟩ := by
        rw [reader.propertyParts_eq_ok (by omega)]
        refine ⟨by omega, ?_, ?_⟩
        · rw [sizeAt, nameoffAt, padding]
        · rw [sizeAt, padding]
          omega
      have text : (sliceOrPanic block (cursor + 12)
          (cursor + 12 + property.value.length) : Run ε Bytes) =
            .ok property.value := by
        rw [sliceOrPanic_of (by omega) (by omega)]
        simp [Bytes.slice, value.after]
      rw [readBe32_at place (by decide)]
      simp only [propToken, endNodeToken, beginNodeToken, Run.ok_bind,
        Nat.reduceEqDiff, if_true, if_false, after, parts, text,
        Run.pure_eq_ok]
      simp [Lexeme.token, Lexeme.bytes, Property.bytes]
      omega
  | nop =>
      rw [readBe32_at place (by decide)]
      simp [nopToken, propToken, endNodeToken, beginNodeToken, Lexeme.token,
        Lexeme.bytes, after]
  | fin =>
      rw [readBe32_at place (by decide)]
      simp [endToken, nopToken, propToken, endNodeToken, beginNodeToken,
        Lexeme.token, Lexeme.bytes, after]

theorem drop_eq_be32 {data : Bytes} {offset : Nat}
    (inside : offset + 4 ≤ data.length) :
    data.drop offset = be32 (be32At data offset) ++ data.drop (offset + 4) := by
  have width : (Bytes.slice data offset (offset + 4)).length = 4 := by
    rw [Bytes.slice_length]
    omega
  have word : be32 (be32At data offset) =
      Bytes.slice data offset (offset + 4) := by
    unfold be32 be32At
    rw [← Bytes.toBe_ofBe (Bytes.slice data offset (offset + 4)), width]
    rw [Bytes.ofBe_toBe_of_lt]
    simpa [width] using Bytes.ofBe_lt (Bytes.slice data offset (offset + 4))
  rw [word, Bytes.slice, Nat.add_sub_cancel_left, ← List.drop_drop,
    List.take_append_drop]

theorem be32At_lt (data : Bytes) (offset : Nat) :
    be32At data offset < 2 ^ 32 := by
  have bound := Bytes.ofBe_lt (Bytes.slice data offset (offset + 4))
  have width : (Bytes.slice data offset (offset + 4)).length ≤ 4 := by
    rw [Bytes.slice_length]
    omega
  have powers : 256 ^ (Bytes.slice data offset (offset + 4)).length ≤ 256 ^ 4 :=
    Nat.pow_le_pow_right (by omega) width
  unfold be32At
  omega

/-- Reading a token never panics, however the block ends. -/
theorem nextToken_returns (short : block.length < 2 ^ 32)
    (bound : cursor < 2 ^ 32 + 4) : (nextToken reader block cursor).Returns := by
  unfold nextToken
  refine (reader.readBe32_returns (by omega)).bind fun word read => ?_
  obtain ⟨inside, _⟩ := (reader.readBe32_eq_ok (by omega)).mp read
  rw [reader.plus_eq (by omega), Run.ok_bind]
  split
  · refine (reader.findNul_returns inside).bind fun stop found => ?_
    obtain ⟨name, tail, _, body, rfl⟩ :=
      (reader.findNul_eq_ok inside).mp found
    have lengths := congrArg List.length body
    simp only [List.length_drop, List.length_append, List.length_cons]
      at lengths
    rw [sliceOrPanic_of (by omega) (by omega), Run.ok_bind,
      reader.plus_eq (by omega), Run.ok_bind, reader.alignUp_eq (by omega),
      Run.ok_bind]
    exact Run.returns_pure _
  · split
    · exact Run.returns_pure _
    · split
      · refine (reader.propertyParts_returns (by omega)).bind
          fun parts found => ?_
        obtain ⟨headed, rfl, fits⟩ :=
          (reader.propertyParts_eq_ok (by omega)).mp found
        have padded : ∀ value, value ≤ align4 value := by
          intro value
          unfold align4
          omega
        have stop := padded (cursor + 4 + 8 + be32At block (cursor + 4))
        rw [sliceOrPanic_of (by simp) (by simp only; omega), Run.ok_bind]
        exact Run.returns_pure _
      · split
        · exact Run.returns_pure _
        · split
          · exact Run.returns_pure _
          · exact Run.returns_fail _

/-- What reading a token tells about the block: its bytes are a lexeme, unless
the padding of a name reaches past the end of the block. -/
structure ReadsToken (block : Bytes) (cursor : Nat) (token : Token)
    (next : Nat) : Prop where
  inside : cursor + 4 ≤ block.length
  forward : cursor < next
  aligned : next % 4 = 0
  near : next < 2 ^ 32 + 4
  fits : (∃ name, token = .beginNode name) ∨ next ≤ block.length
  padded : next ≤ align4 block.length
  lexeme : next ≤ block.length → ∃ lexeme : Lexeme, lexeme.token = token ∧
    next = cursor + lexeme.bytes.length ∧
    At block cursor (lexeme.bytes ++ block.drop next)

namespace ReadsToken

theorem fits_of_ne (reads : ReadsToken block cursor token next)
    (other : ∀ name, token ≠ .beginNode name) : next ≤ block.length := by
  rcases reads.fits with ⟨name, same⟩ | fits
  · exact absurd same (other name)
  · exact fits

/-- In a block of whole words the padding of a name stays inside. -/
theorem fits_of_whole (reads : ReadsToken block cursor token next)
    (whole : block.length % 4 = 0) : next ≤ block.length := by
  have padded := reads.padded
  unfold align4 at padded
  omega

theorem fits_of_endNode (reads : ReadsToken block cursor .endNode next) :
    next ≤ block.length :=
  reads.fits_of_ne (by simp)

theorem beginNode_at {name : Bytes}
    (reads : ReadsToken block cursor (.beginNode name) next)
    (fits : next ≤ block.length) : ∃ named : NodeName, named.text = name ∧
      next = cursor + named.bytes.length ∧
      At block cursor (named.bytes ++ block.drop next) := by
  obtain ⟨lexeme, same, after, place⟩ := reads.lexeme fits
  cases lexeme with
  | beginNode named =>
      exact ⟨named, by simpa [Lexeme.token] using same, after, place⟩
  | _ => cases same

theorem prop_at {nameoff : Nat} {value : Bytes}
    (reads : ReadsToken block cursor (.prop nameoff value) next) :
    ∃ property : Property, property.nameoff = nameoff ∧
      property.value = value ∧ next = cursor + property.bytes.length ∧
      At block cursor (property.bytes ++ block.drop next) := by
  obtain ⟨lexeme, same, after, place⟩ :=
    reads.lexeme (reads.fits_of_ne (by simp))
  cases lexeme with
  | prop property =>
      simp only [Lexeme.token, Token.prop.injEq] at same
      exact ⟨property, same.1, same.2, after, place⟩
  | _ => cases same

theorem endNode_at (reads : ReadsToken block cursor .endNode next) :
    At block cursor (be32 endNodeToken ++ block.drop next) := by
  obtain ⟨lexeme, same, _, place⟩ := reads.lexeme reads.fits_of_endNode
  cases lexeme with
  | endNode => exact place
  | _ => cases same

theorem nop_at (reads : ReadsToken block cursor .nop next) :
    At block cursor (be32 nopToken ++ block.drop next) := by
  obtain ⟨lexeme, same, _, place⟩ :=
    reads.lexeme (reads.fits_of_ne (by simp))
  cases lexeme with
  | nop => exact place
  | _ => cases same

theorem fin_at (reads : ReadsToken block cursor .fin next) :
    At block cursor (be32 endToken ++ block.drop next) := by
  obtain ⟨lexeme, same, _, place⟩ :=
    reads.lexeme (reads.fits_of_ne (by simp))
  cases lexeme with
  | fin => exact place
  | _ => cases same

end ReadsToken

private theorem readsToken_word {word : Nat} (lexeme : Lexeme)
    (bytes : lexeme.bytes = be32 word) (short : block.length < 2 ^ 32)
    (aligned : cursor % 4 = 0) (inside : cursor + 4 ≤ block.length)
    (read : word = be32At block cursor) :
    ReadsToken block cursor lexeme.token (cursor + 4) := by
  refine ⟨inside, by omega, by omega, by omega, .inr inside,
    by unfold align4; omega, fun _ => ⟨lexeme, rfl, ?_, ?_⟩⟩
  · rw [bytes]
    simp
  · refine ⟨?_, aligned, by omega, short⟩
    rw [bytes, read]
    exact drop_eq_be32 inside

private theorem readsToken_name {stop : Nat} (short : block.length < 2 ^ 32)
    (aligned : cursor % 4 = 0) (inside : cursor + 4 ≤ block.length)
    (word : be32At block cursor = beginNodeToken)
    (found : FirstNul block (cursor + 4) stop) :
    ReadsToken block cursor
      (.beginNode (Bytes.slice block (cursor + 4) stop)) (align4 (stop + 1)) := by
  obtain ⟨name, tail, noNul, body, rfl⟩ := found
  have front := drop_eq_be32 inside
  have bodyLength := congrArg List.length body
  simp only [List.length_drop, List.length_append, List.length_cons]
    at bodyLength
  have text : Bytes.slice block (cursor + 4) (cursor + 4 + name.length) =
      name := by
    simp [Bytes.slice, body]
  rw [text]
  refine ⟨inside, by unfold align4; omega, by unfold align4; omega,
    by unfold align4; omega, .inl ⟨name, rfl⟩, by unfold align4; omega,
    fun fits => ?_⟩
  let padding := align4 (cursor + 4 + name.length + 1) -
    (cursor + 4 + name.length + 1)
  have split : align4 (cursor + 4 + name.length + 1) =
      cursor + 4 + (name.length + (1 + padding)) := by
    simp only [padding, align4]
    omega
  have padShort : padding < 4 := by
    simp only [padding, align4]
    omega
  have padded : (name.length + 1 + padding) % 4 = 0 := by
    simp only [padding, align4]
    omega
  have padLength : (tail.take padding).length = padding := by
    rw [List.length_take]
    omega
  refine ⟨.beginNode ⟨name, tail.take padding, noNul, by rwa [padLength],
    by rwa [padLength]⟩, rfl, ?_, ?_, aligned, by omega, short⟩
  · simp only [Lexeme.bytes, NodeName.bytes, List.length_append,
      List.length_cons, Bytes.toBe_length, padLength]
    omega
  · have after : block.drop (align4 (cursor + 4 + name.length + 1)) =
        tail.drop padding := by
      rw [split, ← List.drop_drop, body, ← List.drop_drop, List.drop_left,
        Nat.add_comm 1, List.drop_succ_cons]
    rw [front, body, after, word]
    simp [Lexeme.bytes, NodeName.bytes]

private theorem readsToken_prop {nameoff size : Nat}
    (short : block.length < 2 ^ 32) (aligned : cursor % 4 = 0)
    (headed : cursor + 12 ≤ block.length)
    (word : be32At block cursor = propToken)
    (sizeWord : be32At block (cursor + 4) = size)
    (nameWord : be32At block (cursor + 8) = nameoff)
    (fits : align4 (cursor + 12 + size) ≤ block.length) :
    ReadsToken block cursor
      (.prop nameoff (Bytes.slice block (cursor + 12) (cursor + 12 + size)))
      (align4 (cursor + 12 + size)) := by
  have sizeBound : size < 2 ^ 32 := sizeWord ▸ be32At_lt _ _
  have past : cursor + 12 + size ≤ align4 (cursor + 12 + size) := by
    unfold align4
    omega
  have front := drop_eq_be32 (show cursor + 4 ≤ block.length by omega)
  have sizeFront := drop_eq_be32 (show cursor + 4 + 4 ≤ block.length by omega)
  have nameFront := drop_eq_be32 (show cursor + 8 + 4 ≤ block.length by omega)
  rw [word] at front
  rw [sizeWord] at sizeFront
  rw [nameWord] at nameFront
  have valueFront := Bytes.drop_eq_slice_append block
    (show cursor + 12 ≤ cursor + 12 + size by omega)
  have padFront := Bytes.drop_eq_slice_append block past
  have valueLength : (Bytes.slice block (cursor + 12)
      (cursor + 12 + size)).length = size := by
    rw [Bytes.slice_length_of_le (by omega)]
    omega
  have padLength : (Bytes.slice block (cursor + 12 + size)
      (align4 (cursor + 12 + size))).length =
        align4 (cursor + 12 + size) - (cursor + 12 + size) :=
    Bytes.slice_length_of_le fits
  refine ⟨by omega, by omega, by unfold align4; omega, by omega, .inr fits,
    by unfold align4 at *; omega, fun _ => ⟨.prop ⟨nameoff,
    Bytes.slice block (cursor + 12) (cursor + 12 + size),
    Bytes.slice block (cursor + 12 + size) (align4 (cursor + 12 + size)),
    nameWord ▸ be32At_lt _ _, by omega, ?_, ?_⟩, rfl, ?_, ?_, aligned,
    by omega, short⟩⟩
  · rw [valueLength, padLength]
    unfold align4
    omega
  · rw [padLength]
    unfold align4
    omega
  · simp only [Lexeme.bytes, Property.bytes, List.length_append,
      Bytes.toBe_length, valueLength, padLength]
    omega
  · rw [front, sizeFront, nameFront, valueFront, padFront]
    simp [Lexeme.bytes, Property.bytes, valueLength]

/-- Every token read at an aligned position is that of a lexeme. -/
theorem nextToken_sound (short : block.length < 2 ^ 32)
    (aligned : cursor % 4 = 0) (bound : cursor < 2 ^ 32 + 4)
    (read : nextToken reader block cursor = .ok (token, next)) :
    ReadsToken block cursor token next := by
  unfold nextToken at read
  obtain ⟨word, wordRead, read⟩ := Run.bind_eq_ok.mp read
  rw [reader.readBe32_eq_ok (by omega)] at wordRead
  obtain ⟨inside, same⟩ := wordRead
  rw [reader.plus_eq (show cursor + 4 < 2 ^ 34 by omega)] at read
  simp only [Run.ok_bind] at read
  split at read
  · rename_i isBegin
    obtain ⟨stop, found, read⟩ := Run.bind_eq_ok.mp read
    rw [reader.findNul_eq_ok inside] at found
    obtain ⟨name, sliced, read⟩ := Run.bind_eq_ok.mp read
    obtain ⟨_, _, rfl⟩ := sliceOrPanic_eq_ok.mp sliced
    have stopBound : stop < block.length := by
      obtain ⟨name, tail, _, body, rfl⟩ := found
      have lengths := congrArg List.length body
      simp only [List.length_drop, List.length_append, List.length_cons]
        at lengths
      omega
    rw [reader.plus_eq (show stop + 1 < 2 ^ 34 by omega)] at read
    simp only [Run.ok_bind] at read
    rw [reader.alignUp_eq (by omega)] at read
    simp only [Run.ok_bind, Run.pure_eq_ok, Except.ok.injEq,
      Prod.mk.injEq] at read
    obtain ⟨rfl, rfl⟩ := read
    exact readsToken_name short aligned inside (same ▸ isBegin) found
  · split at read
    · rename_i isEnd
      simp only [Run.pure_eq_ok, Except.ok.injEq, Prod.mk.injEq] at read
      obtain ⟨rfl, rfl⟩ := read
      exact readsToken_word .endNode (isEnd ▸ rfl) short aligned inside same
    · split at read
      · rename_i isProp
        obtain ⟨parts, found, read⟩ := Run.bind_eq_ok.mp read
        rw [reader.propertyParts_eq_ok (by omega)] at found
        obtain ⟨headed, rfl, fits⟩ := found
        obtain ⟨value, sliced, read⟩ := Run.bind_eq_ok.mp read
        obtain ⟨_, _, rfl⟩ := sliceOrPanic_eq_ok.mp sliced
        simp only [Run.pure_eq_ok, Except.ok.injEq, Prod.mk.injEq] at read
        obtain ⟨rfl, rfl⟩ := read
        exact readsToken_prop short aligned (by omega) (same ▸ isProp)
          rfl rfl fits
      · split at read
        · rename_i isNop
          simp only [Run.pure_eq_ok, Except.ok.injEq, Prod.mk.injEq] at read
          obtain ⟨rfl, rfl⟩ := read
          exact readsToken_word .nop (isNop ▸ rfl) short aligned inside same
        · split at read
          · rename_i isFin
            simp only [Run.pure_eq_ok, Except.ok.injEq, Prod.mk.injEq] at read
            obtain ⟨rfl, rfl⟩ := read
            exact readsToken_word .fin (isFin ▸ rfl) short aligned inside same
          · simp at read

end

end Pocketboot.DeviceTree
