import Pocketboot.DeviceTree.Strings

/-!
# Primitive readers

The programs read words, names and properties of a block with the same
functions, up to the error values they return.  Each is one definition here,
with the errors as parameters, and obeys the laws of `BlockReader`.
-/

namespace Pocketboot.DeviceTree

variable {ε : Type}

/-- `read_be32`. -/
def readWord (offsetOverflow endOfData : ε) (data : Bytes) (offset : Nat) :
    Run ε Nat := do
  let stop ← Run.ofOption offsetOverflow (checkedAdd offset 4)
  Run.ensure (stop ≤ data.length) endOfData
  let word ← sliceOrPanic data offset stop
  return Bytes.ofBe word

/-- `find_nul`; `past` is the fault for a start outside the data. -/
def findNulFrom (past : Fault ε) (unterminated : ε) (data : Bytes)
    (start : Nat) : Run ε Nat :=
  if data.length < start then .error past
  else
    match nulPosition (data.drop start) with
    | some position => .ok (start + position)
    | none => Run.fail unterminated

/-- `align_usize`. -/
def alignWord (overflow : ε) (value align : Nat) : Run ε Nat :=
  Run.ofOption overflow
    ((checkedAdd value (align - 1)).map fun value => maskDown value align)

/-- `property_parts`, from the reader of words, the alignment and the addition
that finds the start of the value. -/
def propertyPartsAt (readBe32 : Bytes → Nat → Run ε Nat)
    (alignUp : Nat → Run ε Nat) (plus : Nat → Nat → Run ε Nat)
    (lengthOverflow pastEnd : ε) (data : Bytes) (cursor : Nat) :
    Run ε PropertyParts := do
  let len ← readBe32 data cursor
  let nameoff ← readBe32 data (← addOrPanic wordSize cursor 4)
  let valueStart ← plus cursor 8
  let valueEnd ← Run.ofOption lengthOverflow (checkedAdd valueStart len)
  let next ← alignUp valueEnd
  Run.ensure (next ≤ data.length) pastEnd
  return { nameoff, valueStart, valueEnd, next }

/-- `string_at`. -/
def lookupString (strings : Bytes) (offset : Nat) : Option Bytes :=
  if strings.length ≤ offset then none
  else
    (nulPosition (strings.drop offset)).map fun stop =>
      Bytes.slice strings offset (offset + stop)

theorem lookupString_eq (strings : Bytes) (offset : Nat) :
    lookupString strings offset = stringAt strings offset := by
  apply Option.ext
  intro name
  rw [stringAt_eq_some]
  unfold lookupString
  constructor
  · intro found
    split at found
    · cases found
    · obtain ⟨stop, position, rfl⟩ := Option.map_eq_some_iff.mp found
      obtain ⟨name, rest, noNul, split, rfl⟩ := nulPosition_eq_some.mp position
      have read : Bytes.slice strings offset (offset + name.length) = name := by
        simp [Bytes.slice, split]
      rw [read]
      exact ⟨noNul, rest, split⟩
  · rintro ⟨noNul, rest, split⟩
    have inside : ¬ strings.length ≤ offset := by
      intro outside
      rw [List.drop_of_length_le outside] at split
      simp at split
    have position : nulPosition (strings.drop offset) = some name.length :=
      nulPosition_eq_some.mpr ⟨name, rest, noNul, split, rfl⟩
    rw [if_neg inside, position]
    simp [Bytes.slice, split]

theorem readWord_eq_ok {offsetOverflow endOfData : ε} {data : Bytes}
    {offset value : Nat} (bound : offset < 2 ^ 34) :
    readWord offsetOverflow endOfData data offset = .ok value ↔
      offset + 4 ≤ data.length ∧ value = be32At data offset := by
  have fits : checkedAdd offset 4 = some (offset + 4) := by
    rw [checkedAdd_eq_some]
    exact ⟨by unfold wordSize; omega, rfl⟩
  simp only [readWord, fits, Run.ofOption, Run.ok_bind, Run.bind_eq_ok,
    Run.ensure_eq_ok, exists_const, sliceOrPanic_eq_ok, Run.pure_eq_ok,
    Except.ok.injEq, be32At]
  constructor
  · rintro ⟨inside, _, ⟨_, _, rfl⟩, rfl⟩
    exact ⟨inside, rfl⟩
  · rintro ⟨inside, rfl⟩
    exact ⟨inside, _, ⟨by omega, inside, rfl⟩, rfl⟩

theorem readWord_returns (offsetOverflow endOfData : ε) (data : Bytes)
    (offset : Nat) : (readWord offsetOverflow endOfData data offset).Returns := by
  refine (Run.returns_ofOption _ _).bind fun stop sum => ?_
  refine (Run.returns_ensure _ _).bind fun _ inside => ?_
  rw [Run.ofOption_eq_ok, checkedAdd_eq_some] at sum
  rw [Run.ensure_eq_ok] at inside
  rw [sliceOrPanic_of (by omega) inside, Run.ok_bind]
  exact Run.returns_pure _

theorem findNulFrom_eq_ok {past : Fault ε} {unterminated : ε} {data : Bytes}
    {start stop : Nat} (inside : start ≤ data.length) :
    findNulFrom past unterminated data start = .ok stop ↔
      FirstNul data start stop := by
  rw [findNulFrom, if_neg (by omega)]
  constructor
  · intro found
    split at found
    · rename_i position nul
      obtain ⟨name, rest, noNul, split, rfl⟩ := nulPosition_eq_some.mp nul
      simp only [Except.ok.injEq] at found
      exact ⟨name, rest, noNul, split, found.symm⟩
    · simp at found
  · rintro ⟨name, rest, noNul, split, rfl⟩
    have position : nulPosition (data.drop start) = some name.length :=
      nulPosition_eq_some.mpr ⟨name, rest, noNul, split, rfl⟩
    rw [position]

theorem findNulFrom_returns {past : Fault ε} {unterminated : ε} {data : Bytes}
    {start : Nat} (inside : start ≤ data.length) :
    (findNulFrom past unterminated data start).Returns := by
  rw [findNulFrom, if_neg (by omega)]
  split
  · exact Run.returns_ok _
  · exact Run.returns_fail _

theorem alignWord_four {overflow : ε} {value : Nat} (bound : value < 2 ^ 34) :
    alignWord overflow value 4 = .ok (align4 value) := by
  have fits : checkedAdd value 3 = some (value + 3) := by
    rw [checkedAdd_eq_some]
    exact ⟨by unfold wordSize; omega, rfl⟩
  rw [alignWord, show 4 - 1 = 3 from rfl, fits, Option.map_some, Run.ofOption,
    maskDown_four (by unfold wordSize; omega), align4]

section

variable {readBe32 : Bytes → Nat → Run ε Nat} {alignUp : Nat → Run ε Nat}
  {plus : Nat → Nat → Run ε Nat} {lengthOverflow pastEnd : ε} {data : Bytes}
  {cursor : Nat}

theorem propertyPartsAt_eq_ok
    (reads : ∀ {data offset value}, offset < 2 ^ 33 + 4 →
      (readBe32 data offset = .ok value ↔
        offset + 4 ≤ data.length ∧ value = be32At data offset))
    (aligns : ∀ {value}, value < 2 ^ 34 → alignUp value = .ok (align4 value))
    (adds : ∀ {left right}, left + right < 2 ^ 34 →
      plus left right = .ok (left + right))
    {parts : PropertyParts} (bound : cursor < 2 ^ 33) :
    propertyPartsAt readBe32 alignUp plus lengthOverflow pastEnd
        data cursor = .ok parts ↔
      cursor + 8 ≤ data.length ∧
        parts = ⟨be32At data (cursor + 4), cursor + 8,
          cursor + 8 + be32At data cursor,
          align4 (cursor + 8 + be32At data cursor)⟩ ∧
        align4 (cursor + 8 + be32At data cursor) ≤ data.length := by
  have size := be32At_lt data cursor
  have second : (addOrPanic wordSize cursor 4 : Run ε Nat) =
      .ok (cursor + 4) := addOrPanic_of (by unfold wordSize; omega)
  have start : plus cursor 8 = .ok (cursor + 8) := adds (by omega)
  have stop : checkedAdd (cursor + 8) (be32At data cursor) =
      some (cursor + 8 + be32At data cursor) := by
    rw [checkedAdd_eq_some]
    exact ⟨by unfold wordSize; omega, rfl⟩
  simp only [propertyPartsAt, Run.bind_eq_ok, second, start, Run.ok_bind]
  constructor
  · rintro ⟨len, lenRead, nameoff, nameRead, valueEnd, ended, next, aligned, _,
      fits, result⟩
    obtain ⟨_, rfl⟩ := (reads (by omega)).mp lenRead
    obtain ⟨inside, rfl⟩ := (reads (by omega)).mp nameRead
    simp only [stop, Run.ofOption, Except.ok.injEq] at ended
    subst valueEnd
    rw [aligns (by omega)] at aligned
    simp only [Except.ok.injEq] at aligned
    subst next
    simp only [Run.pure_eq_ok, Except.ok.injEq] at result
    exact ⟨by omega, result.symm, Run.ensure_eq_ok.mp fits⟩
  · rintro ⟨inside, rfl, fits⟩
    exact ⟨_, (reads (by omega)).mpr ⟨by omega, rfl⟩, _,
      (reads (by omega)).mpr ⟨by omega, rfl⟩, _,
      by rw [stop, Run.ofOption], _, aligns (by omega), (),
      Run.ensure_of fits _, rfl⟩

theorem propertyPartsAt_returns
    (reads : ∀ data offset, (readBe32 data offset).Returns)
    (aligns : ∀ value, (alignUp value).Returns)
    (adds : ∀ {left right}, left + right < 2 ^ 34 →
      plus left right = .ok (left + right)) (bound : cursor < 2 ^ 33) :
    (propertyPartsAt readBe32 alignUp plus lengthOverflow pastEnd
      data cursor).Returns := by
  have second : (addOrPanic wordSize cursor 4 : Run ε Nat) =
      .ok (cursor + 4) := addOrPanic_of (by unfold wordSize; omega)
  rw [propertyPartsAt, second, adds (by omega)]
  refine (reads _ _).bind fun _ _ => ?_
  rw [Run.ok_bind]
  refine (reads _ _).bind fun _ _ => ?_
  rw [Run.ok_bind]
  refine (Run.returns_ofOption _ _).bind fun _ _ => ?_
  refine (aligns _).bind fun _ _ => ?_
  exact (Run.returns_ensure _ _).bind fun _ _ => Run.returns_pure _

end

theorem alignWord_returns (overflow : ε) (value align : Nat) :
    (alignWord overflow value align).Returns := Run.returns_ofOption _ _

end Pocketboot.DeviceTree
