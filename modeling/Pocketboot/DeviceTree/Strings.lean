import Pocketboot.DeviceTree.Forest

/-!
# Strings blocks

A strings block holds zero-terminated names one after another.  Names are
looked up by offset (`stringAt`) and offsets by name (`findString`); a name
added at the end never changes what the other offsets name.
-/

namespace Pocketboot.DeviceTree

/-- The index of the first zero byte. -/
def nulPosition (data : Bytes) : Option Nat := data.findIdx? (· == 0)

theorem nulPosition_eq_some {data : Bytes} {position : Nat} :
    nulPosition data = some position ↔
      ∃ name rest, (0 : UInt8) ∉ name ∧ data = name ++ 0 :: rest ∧
        position = name.length := by
  induction data generalizing position with
  | nil => simp [nulPosition]
  | cons byte data induction =>
      rw [nulPosition, List.findIdx?_cons]
      by_cases zero : byte = 0
      · subst zero
        simp only [BEq.rfl, if_true, Option.some.injEq]
        constructor
        · rintro rfl
          exact ⟨[], data, by simp, rfl, rfl⟩
        · rintro ⟨name, rest, noNul, split, rfl⟩
          cases name with
          | nil => rfl
          | cons first name =>
              simp only [List.cons_append, List.cons.injEq] at split
              exact absurd (split.1 ▸ List.mem_cons_self) noNul
      · have other : (byte == 0) = false := by simpa using zero
        simp only [other, Bool.false_eq_true, if_false, Option.map_eq_some_iff]
        constructor
        · rintro ⟨index, found, rfl⟩
          obtain ⟨name, rest, noNul, split, rfl⟩ := induction.mp found
          exact ⟨byte :: name, rest, by
            simp only [List.mem_cons, not_or]
            exact ⟨fun same => zero same.symm, noNul⟩, by simp [split], rfl⟩
        · rintro ⟨name, rest, noNul, split, rfl⟩
          cases name with
          | nil =>
              simp only [List.nil_append, List.cons.injEq] at split
              exact absurd split.1 zero
          | cons first name =>
              simp only [List.cons_append, List.cons.injEq] at split
              simp only [List.mem_cons, not_or] at noNul
              exact ⟨name.length,
                induction.mpr ⟨name, rest, noNul.2, split.2, rfl⟩, rfl⟩

theorem stringAt_eq_some {strings name : Bytes} {offset : Nat} :
    stringAt strings offset = some name ↔
      (0 : UInt8) ∉ name ∧ ∃ rest, strings.drop offset = name ++ 0 :: rest := by
  have taken : ∀ {name rest : Bytes}, (0 : UInt8) ∉ name →
      (name ++ 0 :: rest).takeWhile (· ≠ 0) = name := by
    intro name rest absent
    rw [List.takeWhile_append_of_pos]
    · simp
    · intro byte member
      simp only [ne_eq, decide_eq_true_eq]
      exact fun zero => absent (zero ▸ member)
  unfold stringAt
  constructor
  · intro found
    simp only at found
    split at found
    · rename_i shorter
      simp only [Option.some.injEq] at found
      subst name
      have split := List.takeWhile_append_dropWhile (p := fun byte : UInt8 =>
        decide (byte ≠ 0)) (l := strings.drop offset)
      cases dropped : (strings.drop offset).dropWhile
          (fun byte => decide (byte ≠ 0)) with
      | nil =>
          rw [dropped, List.append_nil] at split
          rw [split] at shorter
          omega
      | cons byte rest =>
          have headNot := List.head?_dropWhile_not
            (fun byte : UInt8 => decide (byte ≠ 0)) (strings.drop offset)
          rw [dropped] at headNot
          have zero : byte = 0 := by
            simpa using headNot
          subst zero
          refine ⟨fun member => ?_, rest, ?_⟩
          · simpa using List.mem_takeWhile_imp member
          · rw [← dropped]
            exact split.symm
    · cases found
  · rintro ⟨noNul, rest, split⟩
    simp only [split, taken noNul]
    simp

theorem stringAt_noNul {strings name : Bytes} {offset : Nat}
    (found : stringAt strings offset = some name) : (0 : UInt8) ∉ name :=
  (stringAt_eq_some.mp found).1

theorem stringAt_append {strings name : Bytes} {offset : Nat}
    (found : stringAt strings offset = some name) (more : Bytes) :
    stringAt (strings ++ more) offset = some name := by
  obtain ⟨noNul, rest, split⟩ := stringAt_eq_some.mp found
  have inside : offset ≤ strings.length := by
    by_contra outside
    rw [List.drop_of_length_le (by omega)] at split
    simp at split
  rw [stringAt_eq_some, List.drop_append_of_le_length inside, split]
  exact ⟨noNul, rest ++ more, by simp⟩

theorem stringAt_end {strings name : Bytes} (noNul : (0 : UInt8) ∉ name)
    (more : Bytes) :
    stringAt (strings ++ (name ++ 0 :: more)) strings.length = some name := by
  rw [stringAt_eq_some, List.drop_left]
  exact ⟨noNul, more, rfl⟩

section

variable {ε : Type}

/-- The loop that looks a name up from a cursor on, string by string. -/
def findStringFrom (strings name : Bytes) : Nat → Nat → Run ε (Option Nat)
  | 0, _ => .error .outOfFuel
  | fuel + 1, cursor =>
      if cursor < strings.length then
        match nulPosition (strings.drop cursor) with
        | none => .ok none
        | some relativeEnd => do
            let stop := cursor + relativeEnd
            if (← sliceOrPanic strings cursor stop) = name then
              return some cursor
            else findStringFrom strings name fuel (stop + 1)
      else .ok none

/-- The offset of the first string of a strings block that is the name. -/
def findString (strings name : Bytes) : Run ε (Option Nat) :=
  findStringFrom strings name (strings.length + 1) 0

private theorem findStringFrom_eq {strings name : Bytes} {fuel : Nat} :
    ∀ {cursor : Nat}, strings.length < cursor + fuel → 0 < fuel →
      ∃ found, (findStringFrom strings name fuel cursor :
          Run ε (Option Nat)) = .ok found ∧
        ∀ offset, found = some offset →
          stringAt strings offset = some name ∧ offset < strings.length := by
  induction fuel with
  | zero =>
      intro cursor _ positive
      omega
  | succ fuel induction =>
      intro cursor enough _
      rw [findStringFrom]
      split
      · rename_i inside
        split
        · exact ⟨none, rfl, by rintro _ ⟨⟩⟩
        · rename_i relativeEnd position
          obtain ⟨first, rest, noNul, split, rfl⟩ :=
            nulPosition_eq_some.mp position
          have length := congrArg List.length split
          simp only [List.length_drop, List.length_append, List.length_cons]
            at length
          have read : Bytes.slice strings cursor (cursor + first.length) =
              first := by
            simp [Bytes.slice, split]
          simp only [sliceOrPanic_of (show cursor ≤ cursor + first.length by
            omega) (show cursor + first.length ≤ strings.length by omega),
            read, Run.ok_bind]
          split
          · rename_i same
            subst same
            refine ⟨some cursor, rfl, ?_⟩
            rintro _ ⟨⟩
            exact ⟨stringAt_eq_some.mpr ⟨noNul, rest, split⟩, inside⟩
          · exact induction (by omega) (by omega)
      · exact ⟨none, rfl, by rintro _ ⟨⟩⟩

/-- The search ends, and what it finds is the name. -/
theorem findString_eq (strings name : Bytes) :
    ∃ found, (findString strings name : Run ε (Option Nat)) = .ok found ∧
      ∀ offset, found = some offset →
        stringAt strings offset = some name ∧ offset < strings.length :=
  findStringFrom_eq (by omega) (by omega)

/-! ## Blocks of whole names -/

/-- Names one after another. -/
def pool (names : List Bytes) : Bytes := names.flatMap (· ++ [0])

theorem pool_cons (name : Bytes) (names : List Bytes) :
    pool (name :: names) = name ++ 0 :: pool names := by
  simp [pool]

theorem pool_append (front back : List Bytes) :
    pool (front ++ back) = pool front ++ pool back := List.flatMap_append

/-- The names with one more, unless it is there. -/
def addName (names : List Bytes) (name : Bytes) : List Bytes :=
  if name ∈ names then names else names ++ [name]

def addNames (names more : List Bytes) : List Bytes := more.foldl addName names

theorem addNames_append (names first second : List Bytes) :
    addNames names (first ++ second) =
      addNames (addNames names first) second := List.foldl_append

theorem addName_extends (names : List Bytes) (name : Bytes) :
    ∃ more, addName names name = names ++ more := by
  unfold addName
  split
  · exact ⟨[], (List.append_nil _).symm⟩
  · exact ⟨[name], rfl⟩

theorem addNames_extends (names more : List Bytes) :
    ∃ extra, addNames names more = names ++ extra := by
  induction more generalizing names with
  | nil => exact ⟨[], (List.append_nil _).symm⟩
  | cons name more induction =>
      obtain ⟨first, head⟩ := addName_extends names name
      obtain ⟨extra, tail⟩ := induction (addName names name)
      refine ⟨first ++ extra, ?_⟩
      rw [addNames, List.foldl_cons, ← addNames, tail, head,
        List.append_assoc]

/-- More names make a longer block that starts with the block before. -/
theorem pool_addNames (names more : List Bytes) :
    ∃ back, pool (addNames names more) = pool names ++ back := by
  obtain ⟨extra, same⟩ := addNames_extends names more
  exact ⟨pool extra, by rw [same, pool_append]⟩

private theorem findStringFrom_pool {name : Bytes} {names : List Bytes}
    (noNul : ∀ other ∈ names, (0 : UInt8) ∉ other) :
    ∀ {front : Bytes} {fuel : Nat}, (pool names).length < fuel →
      (findStringFrom (front ++ pool names) name fuel front.length :
          Run ε (Option Nat)) =
        .ok (if name ∈ names then
          some (front.length + (pool (names.takeWhile (· ≠ name))).length)
        else none) := by
  induction names with
  | nil =>
      intro front fuel enough
      obtain ⟨fuel, rfl⟩ := Nat.exists_eq_succ_of_ne_zero (by omega : fuel ≠ 0)
      rw [findStringFrom, if_neg (by simp [pool])]
      rfl
  | cons first names induction =>
      intro front fuel enough
      obtain ⟨fuel, rfl⟩ := Nat.exists_eq_succ_of_ne_zero (by omega : fuel ≠ 0)
      have head := noNul first List.mem_cons_self
      have length : (pool (first :: names)).length =
          first.length + 1 + (pool names).length := by
        rw [pool_cons, List.length_append, List.length_cons]
        omega
      have position : nulPosition ((front ++ pool (first :: names)).drop
          front.length) = some first.length := by
        rw [List.drop_left, pool_cons, nulPosition_eq_some]
        exact ⟨first, pool names, head, rfl, rfl⟩
      have read : Bytes.slice (front ++ pool (first :: names)) front.length
          (front.length + first.length) = first := by
        rw [Bytes.slice, List.drop_left, Nat.add_sub_cancel_left, pool_cons,
          List.take_left]
      rw [findStringFrom, if_pos (by
        rw [List.length_append]
        omega), position]
      simp only
      rw [sliceOrPanic_of (by omega) (by
        rw [List.length_append]
        omega), Run.ok_bind, read]
      split
      · rename_i same
        subst same
        simp [pool]
      · rename_i other
        have regroup : front ++ pool (first :: names) =
            (front ++ (first ++ [0])) ++ pool names := by
          rw [pool_cons]
          simp
        have start : front.length + first.length + 1 =
            (front ++ (first ++ [0])).length := by
          simp only [List.length_append, List.length_singleton]
          omega
        rw [regroup, start, induction
          (fun other member => noNul other (List.mem_cons_of_mem _ member))
          (by omega)]
        have differ : ¬ name = first := fun same => other same.symm
        simp only [List.mem_cons, differ, false_or, List.takeWhile_cons,
          ne_eq, other, not_false_eq_true, decide_true, if_true]
        split
        · rw [pool_cons, ← start, List.length_append, List.length_cons]
          congr 2
          omega
        · rfl

/-- The search finds a name of the block at the first place it is at. -/
theorem findString_pool {names : List Bytes}
    (noNul : ∀ other ∈ names, (0 : UInt8) ∉ other) (name : Bytes) :
    (findString (pool names) name : Run ε (Option Nat)) =
      .ok (if name ∈ names then
        some (pool (names.takeWhile (· ≠ name))).length else none) := by
  have found : (findStringFrom ([] ++ pool names) name
      ((pool names).length + 1) ([] : Bytes).length : Run ε (Option Nat)) = _ :=
    findStringFrom_pool noNul (Nat.lt_succ_self _)
  simpa [findString] using found

end

end Pocketboot.DeviceTree
