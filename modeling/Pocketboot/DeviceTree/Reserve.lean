import Pocketboot.DeviceTree.Blob

/-!
# Memory reserve maps

The reserve map of a blob is a sequence of address and size pairs, closed by
a pair of zeros.
-/

namespace Pocketboot.DeviceTree

/-- An address and a size. -/
abbrev Reservation : Type := Nat × Nat

/-- A pair that does not close the map. -/
structure Reservation.Proper (entry : Reservation) : Prop where
  nonzero : entry ≠ (0, 0)
  address_lt : entry.1 < 2 ^ 64
  size_lt : entry.2 < 2 ^ 64

def reservationBytes (entry : Reservation) : Bytes :=
  Bytes.toBe 8 entry.1 ++ Bytes.toBe 8 entry.2

def reserveMapBytes (entries : List Reservation) : Bytes :=
  entries.flatMap reservationBytes ++ reservationBytes (0, 0)

/-- The pair at the front of a string of bytes. -/
def frontReservation (data : Bytes) : Reservation :=
  (Bytes.ofBe (data.take 8), Bytes.ofBe (Bytes.slice data 8 16))

/-- Read pairs up to the one that closes the map. -/
def readReservations : Nat → Bytes → Option (List Reservation)
  | 0, _ => none
  | fuel + 1, data =>
      if data.length < 16 then none
      else if frontReservation data = (0, 0) then some []
      else (readReservations fuel (data.drop 16)).map
        (frontReservation data :: ·)

/-- The reserve map of a blob. -/
def reservations (dtb : Bytes) : Option (List Reservation) :=
  readReservations (dtb.length + 1)
    ((dtb.take (headerOf dtb).totalsize).drop (headerOf dtb).offMemRsvmap)

@[simp] theorem reservationBytes_length (entry : Reservation) :
    (reservationBytes entry).length = 16 := by
  simp [reservationBytes]

theorem reserveMapBytes_length (entries : List Reservation) :
    (reserveMapBytes entries).length = 16 * entries.length + 16 := by
  induction entries with
  | nil => simp [reserveMapBytes]
  | cons entry entries induction =>
      rw [reserveMapBytes, List.length_append, List.flatMap_cons,
        List.length_append, reservationBytes_length] at *
      simp only [reservationBytes_length, List.length_cons] at *
      omega

theorem reserveMapBytes_cons (entry : Reservation)
    (entries : List Reservation) :
    reserveMapBytes (entry :: entries) =
      reservationBytes entry ++ reserveMapBytes entries := by
  simp [reserveMapBytes]

theorem frontReservation_bytes {entry : Reservation} (rest : Bytes)
    (address_lt : entry.1 < 2 ^ 64) (size_lt : entry.2 < 2 ^ 64) :
    frontReservation (reservationBytes entry ++ rest) = entry := by
  have address : (reservationBytes entry ++ rest).take 8 =
      Bytes.toBe 8 entry.1 := by
    rw [reservationBytes, List.append_assoc, List.take_left' (by simp)]
  have size : Bytes.slice (reservationBytes entry ++ rest) 8 16 =
      Bytes.toBe 8 entry.2 := by
    rw [Bytes.slice, reservationBytes, List.append_assoc,
      List.drop_left' (by simp), List.take_left' (by simp)]
  rw [frontReservation, address, size, Bytes.ofBe_toBe_of_lt (by omega),
    Bytes.ofBe_toBe_of_lt (by omega)]

theorem frontReservation_lt (data : Bytes) :
    (frontReservation data).1 < 2 ^ 64 ∧ (frontReservation data).2 < 2 ^ 64 := by
  have address := Bytes.ofBe_lt (data.take 8)
  have size := Bytes.ofBe_lt (Bytes.slice data 8 16)
  have addressPower : 256 ^ (data.take 8).length ≤ 256 ^ 8 :=
    Nat.pow_le_pow_right (by omega) (by simp)
  have sizePower : 256 ^ (Bytes.slice data 8 16).length ≤ 256 ^ 8 :=
    Nat.pow_le_pow_right (by omega) (by
      rw [Bytes.slice_length]
      omega)
  unfold frontReservation
  exact ⟨by simp only; omega, by simp only; omega⟩

/-- The first sixteen bytes are those of the pair they encode. -/
theorem take_eq_reservationBytes {data : Bytes} (long : 16 ≤ data.length) :
    data.take 16 = reservationBytes (frontReservation data) := by
  have address : (data.take 8).length = 8 := by
    rw [List.length_take]
    omega
  have size : (Bytes.slice data 8 16).length = 8 :=
    Bytes.slice_length_of_le long
  have addressBytes : Bytes.toBe 8 (Bytes.ofBe (data.take 8)) =
      data.take 8 := by
    have same := Bytes.toBe_ofBe (data.take 8)
    rwa [address] at same
  have sizeBytes : Bytes.toBe 8 (Bytes.ofBe (Bytes.slice data 8 16)) =
      Bytes.slice data 8 16 := by
    have same := Bytes.toBe_ofBe (Bytes.slice data 8 16)
    rwa [size] at same
  rw [reservationBytes, frontReservation, addressBytes, sizeBytes,
    Bytes.slice, ← List.take_add]

theorem split_reservation {data : Bytes} (long : 16 ≤ data.length) :
    data = reservationBytes (frontReservation data) ++ data.drop 16 := by
  rw [← take_eq_reservationBytes long, List.take_append_drop]

/-- What is read is laid out at the front of the data. -/
theorem readReservations_eq_some {fuel : Nat} {data : Bytes}
    {entries : List Reservation} (enough : data.length < fuel) :
    readReservations fuel data = some entries ↔
      (∃ rest, data = reserveMapBytes entries ++ rest) ∧
        ∀ entry ∈ entries, entry.Proper := by
  induction fuel generalizing data entries with
  | zero => omega
  | succ fuel induction =>
      rw [readReservations]
      constructor
      · intro read
        split at read
        · cases read
        · rename_i long
          have front := split_reservation (show 16 ≤ data.length by omega)
          split at read
          · rename_i closed
            cases read
            rw [closed] at front
            exact ⟨⟨data.drop 16, by simpa [reserveMapBytes] using front⟩,
              by simp⟩
          · rename_i proper
            obtain ⟨later, readLater, rfl⟩ := Option.map_eq_some_iff.mp read
            obtain ⟨⟨rest, split⟩, each⟩ := (induction (by
              rw [List.length_drop]
              omega)).mp readLater
            have bounds := frontReservation_lt data
            refine ⟨⟨rest, ?_⟩, ?_⟩
            · rw [reserveMapBytes_cons, List.append_assoc, ← split]
              exact front
            · simp only [List.mem_cons, forall_eq_or_imp]
              exact ⟨⟨proper, bounds.1, bounds.2⟩, each⟩
      · rintro ⟨⟨rest, rfl⟩, each⟩
        have long := reserveMapBytes_length entries
        rw [if_neg (by
          rw [List.length_append]
          omega)]
        cases entries with
        | nil =>
            have front := @frontReservation_bytes (0, 0) rest
              (by decide) (by decide)
            rw [show reserveMapBytes [] = reservationBytes (0, 0) by
              simp [reserveMapBytes], front, if_pos rfl]
        | cons entry entries =>
            simp only [List.mem_cons, forall_eq_or_imp] at each
            have front := frontReservation_bytes
              (reserveMapBytes entries ++ rest) each.1.address_lt
              each.1.size_lt
            have back : (reserveMapBytes (entry :: entries) ++ rest).drop 16 =
                reserveMapBytes entries ++ rest := by
              rw [reserveMapBytes_cons, List.append_assoc,
                List.drop_left' (by simp)]
            rw [back, reserveMapBytes_cons, List.append_assoc, front,
              if_neg each.1.nonzero]
            have short : (reserveMapBytes entries ++ rest).length < fuel := by
              rw [List.length_append, reserveMapBytes_length] at *
              simp only [List.length_cons] at *
              omega
            rw [(induction short).mpr ⟨⟨rest, rfl⟩, each.2⟩]
            rfl

theorem reservations_eq_some {dtb : Bytes} {entries : List Reservation} :
    reservations dtb = some entries ↔
      (∃ rest, (dtb.take (headerOf dtb).totalsize).drop
          (headerOf dtb).offMemRsvmap = reserveMapBytes entries ++ rest) ∧
        ∀ entry ∈ entries, entry.Proper :=
  readReservations_eq_some (by
    rw [List.length_drop, List.length_take]
    omega)

/-- The reserve map of the parts laid out one after another. -/
theorem reservations_assemble {header : Header} {block strings : Bytes}
    {entries : List Reservation} (fits : header.Fits)
    (small : 40 + (reserveMapBytes entries).length + block.length +
      strings.length < 2 ^ 32)
    (each : ∀ entry ∈ entries, entry.Proper) :
    reservations (assemble header (reserveMapBytes entries) block strings) =
      some entries := by
  rw [reservations_eq_some, headerOf_assemble fits small]
  refine ⟨⟨block ++ strings, ?_⟩, each⟩
  simp only [Header.layout]
  rw [List.take_of_length_le (le_of_eq assemble_length), assemble,
    List.drop_left' (words_length _)]

end Pocketboot.DeviceTree
