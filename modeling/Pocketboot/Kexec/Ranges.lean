import Pocketboot.Kexec.Totality

/-!
# Ranges from pairs of an address and a size

A reserve map and a `reg` property hold pairs of an address and a size.  The
pairs without a size mean nothing; the others mean the range that starts at
the address, when it ends inside of a word.
-/

namespace Pocketboot.Kexec

open DeviceTree

/-- Every pair with a size ends below `2 ^ 64`. -/
def FitsWord (pairs : List (Nat × Nat)) : Prop :=
  ∀ pair ∈ pairs, pair.2 ≠ 0 → pair.1 + pair.2 < 2 ^ 64

/-- The ranges of the pairs with a size. -/
def extents (pairs : List (Nat × Nat)) : List (Nat × Nat) :=
  (pairs.filter (·.2 ≠ 0)).map fun pair => (pair.1, pair.1 + pair.2)

theorem fitsWord_nil : FitsWord [] := by
  simp [FitsWord]

theorem fitsWord_cons {pair : Nat × Nat} {pairs : List (Nat × Nat)} :
    FitsWord (pair :: pairs) ↔
      (pair.2 ≠ 0 → pair.1 + pair.2 < 2 ^ 64) ∧ FitsWord pairs := by
  simp only [FitsWord, List.mem_cons, forall_eq_or_imp]

theorem extents_cons (pair : Nat × Nat) (pairs : List (Nat × Nat)) :
    extents (pair :: pairs) =
      (if pair.2 = 0 then [] else [(pair.1, pair.1 + pair.2)]) ++
        extents pairs := by
  unfold extents
  rw [List.filter_cons]
  split
  · rename_i sized
    rw [if_neg (of_decide_eq_true sized)]
    rfl
  · rename_i empty
    rw [if_pos (by simpa using empty)]
    rfl

/-- The code's ranges of a reserve map are those of its pairs. -/
theorem entryRanges_eq_ok {entries : List Reservation}
    {ranges : List (Nat × Nat)} :
    entryRanges entries = .ok ranges ↔
      FitsWord entries ∧ ranges = extents entries := by
  induction entries generalizing ranges with
  | nil =>
      constructor
      · intro read
        cases read
        exact ⟨fitsWord_nil, rfl⟩
      · rintro ⟨_, rfl⟩
        rfl
  | cons entry entries induction =>
      obtain ⟨address, size⟩ := entry
      rw [entryRanges, fitsWord_cons, extents_cons]
      split
      · rename_i empty
        rw [induction]
        simp [empty]
      · rename_i sized
        simp only [Run.bind_eq_ok, Run.ofOption_eq_ok, checkedAdd_eq_some,
          induction, Run.pure_eq_ok, Except.ok.injEq]
        constructor
        · rintro ⟨_, ⟨inside, rfl⟩, _, ⟨fits, rfl⟩, rfl⟩
          exact ⟨⟨fun _ => inside, fits⟩, rfl⟩
        · rintro ⟨⟨inside, fits⟩, rfl⟩
          exact ⟨_, ⟨inside sized, rfl⟩, _, ⟨fits, rfl⟩, rfl⟩

/-! ## Cells -/

theorem slice_whole (data : Bytes) : Bytes.slice data 0 data.length = data := by
  rw [Bytes.slice, List.drop_zero, Nat.sub_zero, List.take_length]

theorem chunksExact_single {size : Nat} {data : Bytes} (positive : 0 < size)
    (length : data.length = size) : chunksExact size data = [data] := by
  unfold chunksExact
  rw [length, Nat.div_self positive, List.range_one, List.map_singleton,
    Nat.zero_mul, Nat.zero_add, ← length, slice_whole]

theorem chunksExact_pair {size : Nat} {first second : Bytes}
    (positive : 0 < size) (firstLength : first.length = size)
    (secondLength : second.length = size) :
    chunksExact size (first ++ second) = [first, second] := by
  have count : (first ++ second).length / size = 2 := by
    rw [List.length_append, firstLength, secondLength, ← Nat.two_mul,
      Nat.mul_div_left 2 positive]
  have front : Bytes.slice (first ++ second) (0 * size) (0 * size + size) =
      first := by
    rw [Nat.zero_mul, Nat.zero_add, Bytes.slice, List.drop_zero, Nat.sub_zero,
      List.take_left' firstLength]
  have back : Bytes.slice (first ++ second) (1 * size) (1 * size + size) =
      second := by
    rw [Nat.one_mul, Bytes.slice, List.drop_left' firstLength,
      Nat.add_sub_cancel, ← secondLength, List.take_length]
  unfold chunksExact
  rw [count]
  change [Bytes.slice (first ++ second) (0 * size) (0 * size + size),
    Bytes.slice (first ++ second) (1 * size) (1 * size + size)] = _
  rw [front, back]

/-- One or two cells are one big-endian number. -/
theorem decodeCells_eq {cells : Bytes} {count : Nat} (positive : 1 ≤ count)
    (few : count ≤ 2) (length : cells.length = count * 4) :
    decodeCells cells = Bytes.ofBe cells := by
  obtain rfl | rfl : count = 1 ∨ count = 2 := by omega
  · rw [decodeCells, chunksExact_single (by omega) length]
    simp
  · obtain ⟨first, second, rfl, firstLength, secondLength⟩ :
        ∃ first second, cells = first ++ second ∧ first.length = 4 ∧
          second.length = 4 :=
      ⟨cells.take 4, cells.drop 4, (List.take_append_drop 4 cells).symm,
        by rw [List.length_take]; omega, by rw [List.length_drop]; omega⟩
    have bound := Bytes.ofBe_lt first
    rw [firstLength] at bound
    rw [decodeCells, chunksExact_pair (by omega) firstLength secondLength,
      Bytes.ofBe_append, secondLength]
    simp only [List.foldl_cons, List.foldl_nil]
    omega

/-! ## `reg` -/

/-- One or two cells of an address and one or two of a size. -/
structure CellCounts (addressCells sizeCells : Nat) : Prop where
  address : 1 ≤ addressCells ∧ addressCells ≤ 2
  size : 1 ≤ sizeCells ∧ sizeCells ≤ 2

/-- The pairs of an address and a size in a `reg` property. -/
def regPairs (addressCells sizeCells : Nat) (reg : Bytes) :
    List (Nat × Nat) :=
  (chunksExact ((addressCells + sizeCells) * 4) reg).map fun tuple =>
    (Bytes.ofBe (tuple.take (addressCells * 4)),
      Bytes.ofBe (tuple.drop (addressCells * 4)))

theorem decodeTuple_eq_ok {addressCells sizeCells : Nat} {tuple : Bytes}
    {range : Option (Nat × Nat)} (counts : CellCounts addressCells sizeCells)
    (length : tuple.length = (addressCells + sizeCells) * 4) :
    decodeTuple addressCells tuple = .ok range ↔
      let address := Bytes.ofBe (tuple.take (addressCells * 4))
      let size := Bytes.ofBe (tuple.drop (addressCells * 4))
      (size ≠ 0 → address + size < 2 ^ 64) ∧
        range = if size = 0 then none else some (address, address + size) := by
  have addressCount := counts.address
  have sizeCount := counts.size
  have first : Bytes.slice tuple 0 (addressCells * 4) =
      tuple.take (addressCells * 4) := by
    rw [Bytes.slice, List.drop_zero, Nat.sub_zero]
  have second : Bytes.slice tuple (addressCells * 4) tuple.length =
      tuple.drop (addressCells * 4) := by
    rw [Bytes.slice, ← List.length_drop, List.take_length]
  have address : decodeCells (tuple.take (addressCells * 4)) =
      Bytes.ofBe (tuple.take (addressCells * 4)) :=
    decodeCells_eq addressCount.1 addressCount.2 (by
      rw [List.length_take]
      omega)
  have size : decodeCells (tuple.drop (addressCells * 4)) =
      Bytes.ofBe (tuple.drop (addressCells * 4)) :=
    decodeCells_eq sizeCount.1 sizeCount.2 (by
      rw [List.length_drop]
      omega)
  rw [decodeTuple, mulOrPanic_of (by unfold wordSize; omega), Run.ok_bind,
    sliceOrPanic_of (by omega) (by omega), Run.ok_bind,
    sliceOrPanic_of (by omega) le_rfl, Run.ok_bind, first, second, address,
    size]
  dsimp only
  split
  · rename_i empty
    simp [empty, eq_comm]
  · rename_i sized
    simp only [Run.bind_eq_ok, Run.ofOption_eq_ok, checkedAdd_eq_some,
      Run.pure_eq_ok, Except.ok.injEq]
    constructor
    · rintro ⟨_, ⟨inside, rfl⟩, rfl⟩
      exact ⟨fun _ => inside, rfl⟩
    · rintro ⟨inside, rfl⟩
      exact ⟨_, ⟨inside sized, rfl⟩, rfl⟩

theorem mapM_decodeTuple {addressCells sizeCells : Nat} {tuples : List Bytes}
    {ranges : List (Option (Nat × Nat))}
    (counts : CellCounts addressCells sizeCells)
    (lengths : ∀ tuple ∈ tuples,
      tuple.length = (addressCells + sizeCells) * 4) :
    tuples.mapM (decodeTuple addressCells) = .ok ranges ↔
      let pairs := tuples.map fun tuple =>
        (Bytes.ofBe (tuple.take (addressCells * 4)),
          Bytes.ofBe (tuple.drop (addressCells * 4)))
      FitsWord pairs ∧ ranges = pairs.map fun pair =>
        if pair.2 = 0 then none else some (pair.1, pair.1 + pair.2) := by
  induction tuples generalizing ranges with
  | nil =>
      constructor
      · intro read
        cases read
        exact ⟨fitsWord_nil, rfl⟩
      · rintro ⟨_, rfl⟩
        rfl
  | cons tuple tuples induction =>
      have head := lengths tuple List.mem_cons_self
      have tail := fun other member =>
        lengths other (List.mem_cons_of_mem _ member)
      simp only [List.mapM_cons, Run.bind_eq_ok, Run.pure_eq_ok,
        Except.ok.injEq, decodeTuple_eq_ok counts head, induction tail,
        List.map_cons, fitsWord_cons]
      constructor
      · rintro ⟨_, ⟨inside, rfl⟩, _, ⟨fits, rfl⟩, rfl⟩
        exact ⟨⟨inside, fits⟩, rfl⟩
      · rintro ⟨⟨inside, fits⟩, rfl⟩
        exact ⟨_, ⟨inside, rfl⟩, _, ⟨fits, rfl⟩, rfl⟩

theorem filterMap_extents (pairs : List (Nat × Nat)) :
    (pairs.map fun pair =>
      if pair.2 = 0 then none else some (pair.1, pair.1 + pair.2)).filterMap id =
      extents pairs := by
  induction pairs with
  | nil => rfl
  | cons pair pairs induction =>
      rw [List.map_cons, extents_cons, List.filterMap_cons, induction]
      split
      · rename_i empty
        split at empty
        · rename_i zero
          rw [if_pos zero]
          rfl
        · cases empty
      · rename_i range some
        split at some
        · cases some
        · rename_i sized
          cases some
          rw [if_neg sized]
          rfl

/-- What `decode_reg_ranges` returns, and when. -/
theorem decodeRegRanges_eq_ok {reg : Bytes} {addressCells sizeCells : Nat}
    {ranges : List (Nat × Nat)} :
    decodeRegRanges reg addressCells sizeCells = .ok ranges ↔
      CellCounts addressCells sizeCells ∧
        reg.length % ((addressCells + sizeCells) * 4) = 0 ∧
        FitsWord (regPairs addressCells sizeCells reg) ∧
        ranges = extents (regPairs addressCells sizeCells reg) := by
  simp only [decodeRegRanges, Run.bind_eq_ok, Run.ofOption_eq_ok,
    Run.ensure_eq_ok, checkedMul_eq_some, Run.pure_eq_ok, Except.ok.injEq]
  constructor
  · rintro ⟨total, sum, _, supported, _, ⟨_, rfl⟩, _, whole, _, each, rfl⟩
    obtain rfl : addressCells + sizeCells = total := by
      unfold checkedAddU32 at sum
      split at sum
      · exact Option.some.inj sum
      · cases sum
    have counts : CellCounts addressCells sizeCells :=
      ⟨supported.1, supported.2⟩
    obtain ⟨fits, rfl⟩ := (mapM_decodeTuple counts fun tuple member =>
      mem_chunksExact member).mp each
    exact ⟨counts, whole, fits, filterMap_extents _⟩
  · rintro ⟨counts, whole, fits, rfl⟩
    have address := counts.address
    have size := counts.size
    refine ⟨addressCells + sizeCells, ?_, (), ⟨address, size⟩, _,
      ⟨by unfold wordSize; omega, rfl⟩, (), whole, _,
      (mapM_decodeTuple counts fun tuple member =>
        mem_chunksExact member).mpr ⟨fits, rfl⟩, filterMap_extents _⟩
    rw [checkedAddU32, if_pos (by omega)]

end Pocketboot.Kexec
