import Pocketboot.Kexec.Fdt

/-!
# What the readers and writers do

The header is accepted exactly when its words place every block inside the
blob; the readers then give the blocks and the reserve map of the blob, and
the writers append whole tokens and lay a blob out as `assemble` does.
-/

namespace Pocketboot.Kexec

open DeviceTree

/-- The header words place every part inside the blob. -/
structure Accepted (dtb : Bytes) : Prop extends WellPlaced dtb where
  rsvmap_lt : (headerOf dtb).offMemRsvmap < (headerOf dtb).totalsize

theorem accepted_iff (dtb : Bytes) : Accepted dtb ↔ WellPlaced dtb ∧
    (headerOf dtb).offMemRsvmap < (headerOf dtb).totalsize :=
  ⟨fun accepted => ⟨accepted.toWellPlaced, accepted.rsvmap_lt⟩,
    fun ⟨placed, inside⟩ => ⟨placed, inside⟩⟩

instance (dtb : Bytes) : Decidable (Accepted dtb) :=
  decidable_of_iff _ (accepted_iff dtb).symm

theorem readBe32_inside {data : Bytes} {offset : Nat}
    (inside : offset + 4 ≤ data.length) (bound : offset < 2 ^ 33) :
    readBe32 data offset = .ok (be32At data offset) :=
  (readBe32_eq_ok (by omega)).mpr ⟨inside, rfl⟩

theorem readBe32_returns (data : Bytes) (offset : Nat) :
    (readBe32 data offset).Returns := readWord_returns _ _ _ _

section

variable {data piece : Bytes} {offset size : Nat} {name : String}

theorem checkedSlice_of (inside : offset + size ≤ data.length)
    (bound : offset + size < wordSize) :
    checkedSlice data offset size name =
      .ok (Bytes.slice data offset (offset + size)) := by
  have sum : checkedAdd offset size = some (offset + size) :=
    checkedAdd_eq_some.mpr ⟨bound, rfl⟩
  rw [checkedSlice, sum, Run.ofOption, Run.ok_bind, Run.ensure_of inside,
    Run.ok_bind, sliceOrPanic_of (by omega) inside]

theorem checkedSlice_eq_ok : checkedSlice data offset size name = .ok piece ↔
    offset + size < wordSize ∧ offset + size ≤ data.length ∧
      piece = Bytes.slice data offset (offset + size) := by
  constructor
  · intro sliced
    obtain ⟨stop, sum, sliced⟩ := Run.bind_eq_ok.mp sliced
    obtain ⟨_, inside, sliced⟩ := Run.bind_eq_ok.mp sliced
    obtain ⟨bound, rfl⟩ := checkedAdd_eq_some.mp (Run.ofOption_eq_ok.mp sum)
    exact ⟨bound, Run.ensure_eq_ok.mp inside,
      (sliceOrPanic_eq_ok.mp sliced).2.2⟩
  · rintro ⟨bound, inside, rfl⟩
    exact checkedSlice_of inside bound

theorem checkedSlice_returns (data : Bytes) (offset size : Nat)
    (name : String) : (checkedSlice data offset size name).Returns := by
  refine (Run.returns_ofOption _ _).bind fun stop sum => ?_
  refine (Run.returns_ensure _ _).bind fun _ inside => ?_
  obtain ⟨_, rfl⟩ := checkedAdd_eq_some.mp (Run.ofOption_eq_ok.mp sum)
  rw [sliceOrPanic_of (by omega) (Run.ensure_eq_ok.mp inside)]
  exact Run.returns_ok _

end

/-! ## The header -/

theorem headerParse_eq (dtb : Bytes) (headed : 40 ≤ dtb.length)
    (magic : be32At dtb 0 = fdtMagic)
    (whole : 40 ≤ (headerOf dtb).totalsize ∧
      (headerOf dtb).totalsize ≤ dtb.length) :
    headerParse dtb = (do
      let inner := Bytes.slice dtb 0 (headerOf dtb).totalsize
      let _ ← checkedSlice inner (headerOf dtb).offDtStruct
        (headerOf dtb).sizeDtStruct "DTB structure block"
      let _ ← checkedSlice inner (headerOf dtb).offDtStrings
        (headerOf dtb).sizeDtStrings "DTB strings block"
      Run.ensure ((headerOf dtb).offMemRsvmap < (headerOf dtb).totalsize)
        (invalidData "DTB reserve map offset is out of range")
      return headerOf dtb) := by
  have word : ∀ offset, offset + 4 ≤ 40 →
      readBe32 dtb offset = .ok (be32At dtb offset) := fun offset inside =>
    readBe32_inside (by omega) (by omega)
  have magicRead : readBe32 dtb 0 = .ok fdtMagic := magic ▸ word 0 (by omega)
  have inside : Run.ensure (40 ≤ be32At dtb 4 ∧ be32At dtb 4 ≤ dtb.length)
      (invalidData
        "DTB totalsize is smaller than its header or exceeds payload size") =
      .ok () := Run.ensure_of whole _
  have cut : (sliceOrPanic dtb 0 (be32At dtb 4) : Result Bytes) =
      .ok (Bytes.slice dtb 0 (be32At dtb 4)) :=
    sliceOrPanic_of (by omega) whole.2
  simp only [headerParse, Run.ensure_of headed, Run.ok_bind, magicRead,
    word 4 (by omega), word 8 (by omega), word 12 (by omega), word 16 (by omega),
    word 20 (by omega), word 24 (by omega), word 28 (by omega),
    word 32 (by omega), word 36 (by omega), inside, cut]
  rfl

theorem slice_inner_length {dtb : Bytes} {total : Nat}
    (whole : total ≤ dtb.length) : (Bytes.slice dtb 0 total).length = total := by
  rw [Bytes.slice_length_of_le whole]
  omega

theorem headerParse_eq_ok {dtb : Bytes} {header : Header} :
    headerParse dtb = .ok header ↔ header = headerOf dtb ∧ Accepted dtb := by
  constructor
  · intro parsed
    obtain ⟨_, headed, later⟩ := Run.bind_eq_ok.mp parsed
    rw [Run.ensure_eq_ok] at headed
    have word : ∀ offset, offset + 4 ≤ 40 →
        readBe32 dtb offset = .ok (be32At dtb offset) := fun offset inside =>
      readBe32_inside (by omega) (by omega)
    simp only [word 0 (by omega), word 4 (by omega), word 8 (by omega),
      word 12 (by omega), word 16 (by omega), word 20 (by omega),
      word 24 (by omega), word 28 (by omega), word 32 (by omega),
      word 36 (by omega), Run.ok_bind] at later
    obtain ⟨_, magic, later⟩ := Run.bind_eq_ok.mp later
    rw [Run.ensure_eq_ok] at magic
    obtain ⟨_, whole, _⟩ := Run.bind_eq_ok.mp later
    rw [Run.ensure_eq_ok] at whole
    rw [headerParse_eq dtb headed magic whole] at parsed
    obtain ⟨_, inStruct, parsed⟩ := Run.bind_eq_ok.mp parsed
    obtain ⟨_, inStrings, parsed⟩ := Run.bind_eq_ok.mp parsed
    obtain ⟨_, inMap, parsed⟩ := Run.bind_eq_ok.mp parsed
    simp only [Run.pure_eq_ok, Except.ok.injEq] at parsed
    have inner : (Bytes.slice dtb 0 (headerOf dtb).totalsize).length =
        (headerOf dtb).totalsize := slice_inner_length whole.2
    rw [checkedSlice_eq_ok] at inStruct inStrings
    rw [Run.ensure_eq_ok] at inMap
    exact ⟨parsed.symm, ⟨magic, whole.1, whole.2, by omega, by omega⟩, inMap⟩
  · rintro ⟨rfl, accepted⟩
    have headed := accepted.headed
    have whole := accepted.whole
    have structInside := accepted.struct_le
    have stringsInside := accepted.strings_le
    have short : (headerOf dtb).totalsize < 2 ^ 32 := be32At_lt dtb 4
    have inner := slice_inner_length whole
    rw [headerParse_eq dtb (by omega) accepted.magic ⟨headed, whole⟩]
    simp only [checkedSlice_of (show (headerOf dtb).offDtStruct +
        (headerOf dtb).sizeDtStruct ≤ (Bytes.slice dtb 0
          (headerOf dtb).totalsize).length by omega)
        (by unfold wordSize; omega),
      checkedSlice_of (show (headerOf dtb).offDtStrings +
        (headerOf dtb).sizeDtStrings ≤ (Bytes.slice dtb 0
          (headerOf dtb).totalsize).length by omega)
        (by unfold wordSize; omega), Run.ok_bind,
      Run.ensure_of accepted.rsvmap_lt, Run.pure_eq_ok]

theorem headerParse_returns (dtb : Bytes) : (headerParse dtb).Returns := by
  refine (Run.returns_ensure _ _).bind fun _ headed => ?_
  refine (readBe32_returns _ _).bind fun _ _ => ?_
  refine (Run.returns_ensure _ _).bind fun _ _ => ?_
  refine (readBe32_returns _ _).bind fun totalsize _ => ?_
  iterate 8 refine (readBe32_returns _ _).bind fun _ _ => ?_
  refine (Run.returns_ensure _ _).bind fun _ whole => ?_
  rw [Run.ensure_eq_ok] at whole
  rw [sliceOrPanic_of (by omega) whole.2, Run.ok_bind]
  refine (checkedSlice_returns _ _ _ _).bind fun _ _ => ?_
  refine (checkedSlice_returns _ _ _ _).bind fun _ _ => ?_
  exact (Run.returns_ensure _ _).bind fun _ _ => Run.returns_pure _

section

variable {dtb : Bytes} (accepted : Accepted dtb) (name : String)
include accepted

theorem checkedSlice_struct :
    checkedSlice dtb (headerOf dtb).offDtStruct (headerOf dtb).sizeDtStruct
      name = .ok (structBlock dtb) := by
  have := accepted.whole
  have := accepted.struct_le
  have short : (headerOf dtb).totalsize < 2 ^ 32 := be32At_lt dtb 4
  exact checkedSlice_of (by omega) (by unfold wordSize; omega)

theorem checkedSlice_strings :
    checkedSlice dtb (headerOf dtb).offDtStrings (headerOf dtb).sizeDtStrings
      name = .ok (stringsBlock dtb) := by
  have := accepted.whole
  have := accepted.strings_le
  have short : (headerOf dtb).totalsize < 2 ^ 32 := be32At_lt dtb 4
  exact checkedSlice_of (by omega) (by unfold wordSize; omega)

end

/-! ## The reserve map -/

/-- The ranges of the entries that are not empty. -/
def entryRanges : List Reservation → Result (List (Nat × Nat))
  | [] => .ok []
  | (address, size) :: entries =>
      if size = 0 then entryRanges entries
      else do
        let stop ← Run.ofOption
          (invalidData "DTB reserve map range overflows u64")
          (checkedAdd address size)
        return (address, stop) :: (← entryRanges entries)

section

variable {dtb : Bytes} {header : Header} {cursor : Nat}

theorem entryInside_iff (short : header.totalsize < 2 ^ 32) :
    entryInside header cursor = true ↔ cursor + 16 ≤ header.totalsize := by
  simp only [entryInside, checkedAdd]
  split
  · simp
  · rename_i large
    unfold wordSize at large
    simp
    omega

/-- What is left of the reserve map at a cursor. -/
def mapFrom (dtb : Bytes) (header : Header) (cursor : Nat) : Bytes :=
  (dtb.take header.totalsize).drop cursor

theorem mapFrom_length (whole : header.totalsize ≤ dtb.length) :
    (mapFrom dtb header cursor).length = header.totalsize - cursor := by
  rw [mapFrom, List.length_drop, List.length_take]
  omega

theorem mapFrom_drop (count : Nat) : (mapFrom dtb header cursor).drop count =
    mapFrom dtb header (cursor + count) := by
  rw [mapFrom, mapFrom, List.drop_drop]

theorem slice_mapFrom {first last : Nat} (ordered : first ≤ last)
    (inside : cursor + last ≤ header.totalsize) :
    Bytes.slice dtb (cursor + first) (cursor + last) =
      Bytes.slice (mapFrom dtb header cursor) first last := by
  rw [Bytes.slice, Bytes.slice, mapFrom, List.drop_drop, List.drop_take,
    List.take_take]
  congr 1
  omega

/-- One entry of the map, when there is one. -/
theorem frontReservation_mapFrom (inside : cursor + 16 ≤ header.totalsize) :
    frontReservation (mapFrom dtb header cursor) =
      (Bytes.ofBe (Bytes.slice dtb cursor (cursor + 8)),
        Bytes.ofBe (Bytes.slice dtb (cursor + 8) (cursor + 16))) := by
  have address := @slice_mapFrom dtb header cursor 0 8 (by omega) (by omega)
  have size := @slice_mapFrom dtb header cursor 8 16 (by omega) (by omega)
  rw [frontReservation, size]
  rw [show cursor + 0 = cursor from rfl] at address
  rw [address, Bytes.slice]
  rfl

theorem slice_entry (whole : header.totalsize ≤ dtb.length)
    (inside : cursor + 16 ≤ header.totalsize) :
    (sliceOrPanic dtb cursor (cursor + 16) : Result Bytes) =
      .ok (reservationBytes (frontReservation (mapFrom dtb header cursor))) := by
  have length := @mapFrom_length dtb header cursor whole
  have slice := @slice_mapFrom dtb header cursor 0 16 (by omega) (by omega)
  rw [sliceOrPanic_of (by omega) (by omega), ← take_eq_reservationBytes
    (by omega), show cursor = cursor + 0 from rfl, slice, Bytes.slice]
  rfl

theorem slice_reservation (entry : Reservation) :
    (sliceOrPanic (reservationBytes entry) 0 8 : Result Bytes) =
        .ok (Bytes.toBe 8 entry.1) ∧
      (sliceOrPanic (reservationBytes entry) 8 16 : Result Bytes) =
        .ok (Bytes.toBe 8 entry.2) := by
  have length := reservationBytes_length entry
  constructor
  · rw [sliceOrPanic_of (by omega) (by omega), Bytes.slice, reservationBytes,
      List.drop_zero, List.take_left' (by simp)]
  · rw [sliceOrPanic_of (by omega) (by omega), Bytes.slice, reservationBytes,
      List.drop_left' (by simp), List.take_of_length_le (by simp)]

theorem reserveMapFrom_eq (short : header.totalsize < 2 ^ 32)
    (whole : header.totalsize ≤ dtb.length) {fuel : Nat} (map : Bytes)
    (enough : (mapFrom dtb header cursor).length < fuel) :
    reserveMapFrom dtb header fuel cursor map =
      (Run.ofOption (invalidData "DTB reserve map is unterminated")
        (readReservations fuel (mapFrom dtb header cursor))).map
          (map ++ reserveMapBytes ·) := by
  induction fuel generalizing cursor map with
  | zero => omega
  | succ fuel induction =>
      have length := @mapFrom_length dtb header cursor whole
      rw [reserveMapFrom, readReservations]
      by_cases inside : cursor + 16 ≤ header.totalsize
      · have entry := slice_entry whole inside
        have bounds := frontReservation_lt (mapFrom dtb header cursor)
        rw [Run.ensure_of ((entryInside_iff short).mpr inside),
          if_neg (by omega), mapFrom_drop]
        generalize frontReservation (mapFrom dtb header cursor) = front
          at entry bounds ⊢
        obtain ⟨address, size⟩ := front
        obtain ⟨first, second⟩ := slice_reservation (address, size)
        have addressWord : Bytes.ofBe (Bytes.toBe 8 address) = address :=
          Bytes.ofBe_toBe_of_lt (by omega)
        have sizeWord : Bytes.ofBe (Bytes.toBe 8 size) = size :=
          Bytes.ofBe_toBe_of_lt (by omega)
        have stop : (addOrPanic wordSize cursor 16 : Result Nat) =
            .ok (cursor + 16) := addOrPanic_of (by unfold wordSize; omega)
        rw [Run.ok_bind, stop, Run.ok_bind, entry, Run.ok_bind, first,
          Run.ok_bind, second, Run.ok_bind, addressWord, sizeWord]
        simp only [Run.ok_bind]
        by_cases closed : address = 0 ∧ size = 0
        · obtain ⟨rfl, rfl⟩ := closed
          simp [Run.ofOption, Except.map, reserveMapBytes]
        · rw [if_neg closed, if_neg (by simpa [Prod.ext_iff] using closed),
            induction _ (by
              rw [mapFrom_length whole]
              omega)]
          cases readReservations fuel (mapFrom dtb header (cursor + 16)) with
          | none => rfl
          | some entries =>
              simp [Run.ofOption, Except.map, reserveMapBytes_cons]
      · rw [if_pos (by omega)]
        have outside : ¬ entryInside header cursor = true :=
          fun holds => inside ((entryInside_iff short).mp holds)
        rw [Run.ensure_of_not outside, Run.ofOption, Run.fail, Run.error_bind]
        rfl

end

/-- The reserve map of an accepted blob, as the code reads it. -/
theorem reserveMap_eq {dtb : Bytes} (accepted : Accepted dtb) :
    reserveMap dtb (headerOf dtb) =
      (Run.ofOption (invalidData "DTB reserve map is unterminated")
        (reservations dtb)).map reserveMapBytes := by
  have whole := accepted.whole
  have length := @mapFrom_length dtb (headerOf dtb)
    (headerOf dtb).offMemRsvmap whole
  rw [reserveMap, reserveMapFrom_eq (be32At_lt dtb 4) whole [] (by omega)]
  rfl

theorem reserveMap_eq_ok {dtb map : Bytes} (accepted : Accepted dtb) :
    reserveMap dtb (headerOf dtb) = .ok map ↔
      ∃ entries, reservations dtb = some entries ∧
        map = reserveMapBytes entries := by
  rw [reserveMap_eq accepted]
  cases reservations dtb with
  | none => simp [Run.ofOption, Except.map, Run.fail]
  | some entries => simp [Run.ofOption, Except.map, eq_comm]

theorem reserveMap_returns {dtb : Bytes} (accepted : Accepted dtb) :
    (reserveMap dtb (headerOf dtb)).Returns := by
  rw [reserveMap_eq accepted]
  exact (Run.returns_ofOption _ _).map _

section

variable {dtb : Bytes} {header : Header} {cursor : Nat}

theorem reserveMapRangesFrom_eq (short : header.totalsize < 2 ^ 32)
    (whole : header.totalsize ≤ dtb.length) {fuel : Nat}
    (ranges : List (Nat × Nat)) {entries : List Reservation}
    (read : readReservations fuel (mapFrom dtb header cursor) = some entries) :
    reserveMapRangesFrom dtb header fuel cursor ranges =
      (entryRanges entries).map (ranges ++ ·) := by
  induction fuel generalizing cursor ranges entries with
  | zero => cases read
  | succ fuel induction =>
      have length := @mapFrom_length dtb header cursor whole
      rw [readReservations] at read
      split at read
      · cases read
      · have inside : cursor + 16 ≤ header.totalsize := by omega
        have front := @frontReservation_mapFrom dtb _ _ inside
        have middle : (addOrPanic wordSize cursor 8 : Result Nat) =
            .ok (cursor + 8) := addOrPanic_of (by unfold wordSize; omega)
        have stop : (addOrPanic wordSize cursor 16 : Result Nat) =
            .ok (cursor + 16) := addOrPanic_of (by unfold wordSize; omega)
        have address : (sliceOrPanic dtb cursor (cursor + 8) : Result Bytes) =
            .ok (Bytes.slice dtb cursor (cursor + 8)) :=
          sliceOrPanic_of (by omega) (by omega)
        have size : (sliceOrPanic dtb (cursor + 8) (cursor + 16) :
            Result Bytes) = .ok (Bytes.slice dtb (cursor + 8) (cursor + 16)) :=
          sliceOrPanic_of (by omega) (by omega)
        rw [reserveMapRangesFrom,
          Run.ensure_of ((entryInside_iff short).mpr inside)]
        simp only [Run.ok_bind, middle, stop, address, size]
        rw [front, mapFrom_drop] at read
        generalize Bytes.ofBe (Bytes.slice dtb cursor (cursor + 8)) = base
          at read ⊢
        generalize Bytes.ofBe (Bytes.slice dtb (cursor + 8) (cursor + 16)) =
          width at read ⊢
        split at read
        · rename_i closed
          cases read
          rw [if_pos (by simpa [Prod.ext_iff] using closed)]
          simp [entryRanges, Except.map]
        · rename_i proper
          obtain ⟨later, readLater, rfl⟩ := Option.map_eq_some_iff.mp read
          rw [if_neg (by simpa [Prod.ext_iff] using proper), entryRanges]
          split
          · exact induction ranges readLater
          · cases checkedAdd base width with
            | none => rfl
            | some stop =>
                simp only [Run.ofOption, Run.ok_bind]
                rw [induction _ readLater]
                cases entryRanges later with
                | error fault => rfl
                | ok tail => simp [Except.map]

theorem reserveMapRangesFrom_returns (short : header.totalsize < 2 ^ 32)
    (whole : header.totalsize ≤ dtb.length) {fuel : Nat}
    (ranges : List (Nat × Nat))
    (enough : header.totalsize < cursor + fuel) (positive : 0 < fuel) :
    (reserveMapRangesFrom dtb header fuel cursor ranges).Returns := by
  induction fuel generalizing cursor ranges with
  | zero => omega
  | succ fuel induction =>
      rw [reserveMapRangesFrom]
      refine (Run.returns_ensure _ _).bind fun _ inside => ?_
      rw [Run.ensure_eq_ok, entryInside_iff short] at inside
      rw [addOrPanic_of (by unfold wordSize; omega), Run.ok_bind,
        sliceOrPanic_of (by omega) (by omega), Run.ok_bind,
        addOrPanic_of (by unfold wordSize; omega), Run.ok_bind,
        sliceOrPanic_of (by omega) (by omega), Run.ok_bind, Run.ok_bind]
      split
      · exact Run.returns_pure _
      · split
        · exact induction _ (by omega) (by omega)
        · exact (Run.returns_ofOption _ _).bind fun _ _ =>
            induction _ (by omega) (by omega)

end

theorem reserveMapRanges_eq {dtb : Bytes} (accepted : Accepted dtb)
    {entries : List Reservation} (read : reservations dtb = some entries) :
    reserveMapRanges dtb (headerOf dtb) = entryRanges entries := by
  rw [reserveMapRanges, reserveMapRangesFrom_eq (be32At_lt dtb 4)
    accepted.whole [] read]
  cases entryRanges entries <;> rfl

theorem reserveMapRanges_returns {dtb : Bytes} (accepted : Accepted dtb) :
    (reserveMapRanges dtb (headerOf dtb)).Returns := by
  have whole := accepted.whole
  exact reserveMapRangesFrom_returns (be32At_lt dtb 4) whole [] (by omega)
    (by omega)

/-! ## Strings and writers -/

theorem totalsizeU32_eq_ok {value value' : Nat} {name : String} :
    totalsizeU32 value name = .ok value' ↔ value < 2 ^ 32 ∧ value = value' := by
  rw [totalsizeU32]
  constructor
  · intro ok
    obtain ⟨_, small, same⟩ := Run.bind_eq_ok.mp ok
    exact ⟨Run.ensure_eq_ok.mp small, by simpa using same⟩
  · rintro ⟨small, rfl⟩
    rw [Run.ensure_of small, Run.ok_bind, Run.pure_eq_ok]

theorem totalsizeU32_returns (value : Nat) (name : String) :
    (totalsizeU32 value name).Returns :=
  (Run.returns_ensure _ _).bind fun _ _ => Run.returns_pure _

theorem stringAt_eq (strings : Bytes) (offset : Nat) :
    stringAt strings offset = DeviceTree.stringAt strings offset :=
  lookupString_eq strings offset

/-- The offset names the string, in a block that only grew at its end. -/
theorem ensureString_eq_ok {strings name strings' : Bytes} {offset : Nat}
    (noNul : (0 : UInt8) ∉ name)
    (ensured : ensureString strings name = .ok (strings', offset)) :
    offset < 2 ^ 32 ∧ DeviceTree.stringAt strings' offset = some name ∧
      (strings' = strings ∨ strings' = strings ++ (name ++ [0])) := by
  obtain ⟨found, search, named⟩ := @findString_eq IoError strings name
  rw [ensureString, search, Run.ok_bind] at ensured
  cases found with
  | some cursor =>
      obtain ⟨value, small, same⟩ := Run.bind_eq_ok.mp ensured
      obtain ⟨bound, rfl⟩ := totalsizeU32_eq_ok.mp small
      simp only [Run.pure_eq_ok, Except.ok.injEq, Prod.mk.injEq] at same
      obtain ⟨rfl, rfl⟩ := same
      exact ⟨bound, (named _ rfl).1, .inl rfl⟩
  | none =>
      obtain ⟨value, small, same⟩ := Run.bind_eq_ok.mp ensured
      obtain ⟨bound, rfl⟩ := totalsizeU32_eq_ok.mp small
      simp only [Run.pure_eq_ok, Except.ok.injEq, Prod.mk.injEq] at same
      obtain ⟨rfl, rfl⟩ := same
      exact ⟨bound, stringAt_end noNul [], .inr rfl⟩

/-- The string is found or added while the block is short. -/
theorem ensureString_of_short {strings : Bytes} (name : Bytes)
    (short : strings.length < 2 ^ 32) :
    ∃ result, ensureString strings name = .ok result := by
  obtain ⟨found, search, named⟩ := @findString_eq IoError strings name
  rw [ensureString, search, Run.ok_bind]
  cases found with
  | some cursor =>
      have inside := (named _ rfl).2
      have fits : totalsizeU32 cursor "DTB string offset" = .ok cursor :=
        totalsizeU32_eq_ok.mpr ⟨by omega, rfl⟩
      exact ⟨(strings, cursor), by simp only [fits, Run.ok_bind,
        Run.pure_eq_ok]⟩
  | none =>
      have fits : totalsizeU32 strings.length "DTB string offset" =
          .ok strings.length := totalsizeU32_eq_ok.mpr ⟨short, rfl⟩
      exact ⟨(strings ++ (name ++ [0]), strings.length), by
        simp only [fits, Run.ok_bind, Run.pure_eq_ok]⟩

theorem ensureString_returns (strings name : Bytes) :
    (ensureString strings name).Returns := by
  obtain ⟨found, search, _⟩ := @findString_eq IoError strings name
  rw [ensureString, search, Run.ok_bind]
  cases found with
  | some cursor =>
      exact (totalsizeU32_returns _ _).bind fun _ _ => Run.returns_pure _
  | none =>
      exact (totalsizeU32_returns _ _).bind fun _ _ => Run.returns_pure _

theorem padTo_four {front tail : Bytes} (aligned : front.length % 4 = 0) :
    padTo (front ++ tail) 4 =
      front ++ (tail ++ List.replicate (align4 tail.length - tail.length) 0) := by
  rw [padTo, List.append_assoc]
  congr 3
  rw [List.length_append]
  unfold align4
  omega

theorem writeBeginNode_eq {output name : Bytes} (noNul : (0 : UInt8) ∉ name)
    (aligned : output.length % 4 = 0) :
    writeBeginNode output name =
      output ++ (NodeName.plain name noNul).bytes := by
  have front : (writeBe32 output beginNodeToken).length % 4 = 0 := by
    rw [writeBe32, List.length_append, Bytes.toBe_length]
    omega
  rw [writeBeginNode, List.append_assoc, padTo_four front]
  simp [writeBe32, NodeName.bytes, NodeName.plain]

theorem writeProp_eq {output value : Bytes} {nameoff : Nat}
    (nameoff_lt : nameoff < 2 ^ 32) (value_lt : value.length < 2 ^ 32)
    (aligned : output.length % 4 = 0) :
    writeProp output nameoff value =
      output ++ (Property.plain nameoff value nameoff_lt value_lt).bytes := by
  have front : (writeBe32 (writeBe32 (writeBe32 output propToken)
      (value.length % 2 ^ 32)) nameoff).length % 4 = 0 := by
    simp only [writeBe32, List.length_append, Bytes.toBe_length]
    omega
  rw [writeProp, padTo_four front, Nat.mod_eq_of_lt value_lt]
  simp [writeBe32, Property.bytes, Property.plain]

theorem writeBe32At_of {output : Bytes} {offset : Nat} (value : Nat)
    (inside : offset + 4 ≤ output.length) (bound : offset < 40) :
    writeBe32At output offset value =
      .ok (Bytes.splice output offset (be32 value)) := by
  rw [writeBe32At, checkedPlus _ (by omega), Run.ok_bind,
    Run.ensure_of inside, Run.ok_bind, Run.pure_eq_ok]

theorem buildDtb_eq (oldHeader : Header) {map : Bytes} (block strings : Bytes)
    (aligned : map.length % 4 = 0) :
    buildDtb oldHeader map block strings =
      if 40 + map.length + block.length + strings.length < 2 ^ 32 then
        .ok (assemble oldHeader map block strings)
      else invalid "DTB totalsize does not fit u32" := by
  have padded : padTo (List.replicate 40 0 ++ map) 4 =
      List.replicate 40 0 ++ map := by
    rw [padTo_four (by simp)]
    have none : align4 map.length - map.length = 0 := by
      unfold align4
      omega
    simp [none]
  let output := List.replicate 40 0 ++ map ++ block ++ strings
  have length : output.length =
      40 + map.length + block.length + strings.length := by
    simp only [output, List.length_append, List.length_replicate]
  have step : ∀ (output' : Bytes) (offset value : Nat),
      output'.length = output.length → offset + 4 ≤ 40 →
      writeBe32At output' offset value =
        .ok (Bytes.splice output' offset (be32 value)) ∧
      (Bytes.splice output' offset (be32 value)).length = output.length := by
    intro output' offset value same inside
    refine ⟨writeBe32At_of value (by omega) (by omega), ?_⟩
    rw [Bytes.splice_length (by
      rw [Bytes.toBe_length]
      omega), same]
  obtain ⟨write0, length0⟩ := step output 0 fdtMagic rfl (by omega)
  rw [buildDtb, padded]
  rw [show List.replicate 40 0 ++ map ++ block ++ strings = output from rfl,
    write0, Run.ok_bind]
  split
  · rename_i small
    have fits : ∀ value name, value ≤ output.length →
        totalsizeU32 value name = .ok value := fun value name inside =>
      totalsizeU32_eq_ok.mpr ⟨by omega, rfl⟩
    have structStart : (List.replicate 40 0 ++ map).length =
        40 + map.length := by
      rw [List.length_append, List.length_replicate]
    have stringsStart : (List.replicate 40 0 ++ map ++ block).length =
        40 + map.length + block.length := by
      rw [List.length_append, structStart]
    rw [structStart, stringsStart, length, fits _ _ (by omega),
      fits _ _ (by omega), fits _ _ (by omega), fits _ _ (by omega),
      fits _ _ (by omega)]
    have words := writeWords_zeros
      (oldHeader.layout map block strings).words [] (map ++ (block ++ strings))
    obtain ⟨write1, length1⟩ := step _ 4 _ length0 (by omega)
    obtain ⟨write2, length2⟩ := step _ 8 _ length1 (by omega)
    obtain ⟨write3, length3⟩ := step _ 12 _ length2 (by omega)
    obtain ⟨write4, length4⟩ := step _ 16 _ length3 (by omega)
    obtain ⟨write5, length5⟩ := step _ 20 _ length4 (by omega)
    obtain ⟨write6, length6⟩ := step _ 24 _ length5 (by omega)
    obtain ⟨write7, length7⟩ := step _ 28 _ length6 (by omega)
    obtain ⟨write8, length8⟩ := step _ 32 _ length7 (by omega)
    obtain ⟨write9, length9⟩ := step _ 36 _ length8 (by omega)
    rw [Run.ok_bind, write1, Run.ok_bind, Run.ok_bind, write2, Run.ok_bind,
      Run.ok_bind, write3, Run.ok_bind, write4, Run.ok_bind, write5,
      Run.ok_bind, write6, Run.ok_bind, write7, Run.ok_bind, Run.ok_bind,
      write8, Run.ok_bind, Run.ok_bind, write9]
    have nested := words.symm
    rw [List.nil_append, List.nil_append] at nested
    rw [assemble, nested]
    simp only [output, List.append_assoc]
    rfl
  · rename_i large
    rw [totalsizeU32, Run.ensure_of_not (by omega)]
    rfl

end Pocketboot.Kexec
