import Pocketboot.Kexec.ParkingPage

/-!
# The parking page in the reserve map

The reserve map of a grafted blob has an entry for the page, and no other of
its entries touches the page.
-/

namespace Pocketboot.Kexec

open DeviceTree

/-- The page is one of the ranges, and the others are clear of it. -/
structure MapsPage (contract : SpinTableContract)
    (ranges : List (Nat × Nat)) : Prop where
  mapped : (contract.base, contract.stop) ∈ ranges
  alone : ∀ range ∈ ranges, range.1 < contract.stop ∧ contract.base < range.2 →
    range = (contract.base, contract.stop)

section

variable {contract : SpinTableContract} {ranges : List (Nat × Nat)}
  {reservedBefore result : Bool} {range : Nat × Nat}

theorem checkMapRange_eq_ok :
    checkMapRange contract.base contract.stop reservedBefore range =
        .ok result ↔
      ¬ (range.1 < contract.stop ∧ contract.base < range.2) ∧
          result = reservedBefore ∨
        range = (contract.base, contract.stop) ∧ result = true := by
  rw [checkMapRange]
  constructor
  · intro returns
    split at returns
    · obtain ⟨_, same, returned⟩ := Run.bind_eq_ok.mp returns
      cases returned
      exact .inr ⟨Run.ensure_eq_ok.mp same, rfl⟩
    · rename_i apart
      cases returns
      exact .inl ⟨fun touches => apart (overlapsPage_iff.mpr touches), rfl⟩
  · rintro (⟨apart, rfl⟩ | ⟨rfl, rfl⟩)
    · rw [if_neg fun touches => apart (overlapsPage_iff.mp touches)]
      rfl
    · rw [if_pos (overlapsPage_iff.mpr (by
        simp [SpinTableContract.stop, spinTableBytes])), Run.ensure_of rfl]
      rfl

/-- The loop over the ranges finds the page, or that none touches it. -/
theorem foldlM_checkMapRange :
    ranges.foldlM (checkMapRange contract.base contract.stop) reservedBefore =
        .ok result ↔
      (∀ range ∈ ranges, range.1 < contract.stop ∧ contract.base < range.2 →
          range = (contract.base, contract.stop)) ∧
        (result = true ↔ reservedBefore = true ∨
          (contract.base, contract.stop) ∈ ranges) := by
  induction ranges generalizing reservedBefore with
  | nil =>
      rw [List.foldlM_nil, Run.pure_eq_ok, Except.ok.injEq, eq_comm,
        Bool.eq_iff_iff]
      simp
  | cons range ranges induction =>
      rw [List.foldlM_cons, Run.bind_eq_ok, List.forall_mem_cons,
        List.mem_cons]
      simp only [checkMapRange_eq_ok, induction]
      constructor
      · rintro ⟨_, ⟨apart, rfl⟩ | ⟨rfl, rfl⟩, alone, answer⟩
        · refine ⟨⟨fun touches => absurd touches apart, alone⟩, ?_⟩
          rw [answer]
          have other : (contract.base, contract.stop) ≠ range := by
            rintro rfl
            exact apart (by simp [SpinTableContract.stop, spinTableBytes])
          simp [other]
        · refine ⟨⟨fun _ => rfl, alone⟩, ?_⟩
          rw [answer]
          simp
      · rintro ⟨⟨first, alone⟩, answer⟩
        by_cases touches : range.1 < contract.stop ∧ contract.base < range.2
        · obtain rfl := first touches
          exact ⟨true, .inr ⟨rfl, rfl⟩, alone, by rw [answer]; simp⟩
        · have other : (contract.base, contract.stop) ≠ range := by
            rintro rfl
            exact touches (by simp [SpinTableContract.stop, spinTableBytes])
          exact ⟨reservedBefore, .inl ⟨touches, rfl⟩, alone, by
            rw [answer]
            simp [other]⟩

end

section

variable {dtb map : Bytes} {contract : SpinTableContract}
  {entries : List Reservation} {result : Bool}

theorem validateParkingReserveMap_eq_ok (accepted : Accepted dtb)
    (page : contract.stop < 2 ^ 64)
    (reserved : reservations dtb = some entries) :
    validateParkingReserveMap dtb contract = .ok result ↔
      FitsWord entries ∧
        (∀ range ∈ extents entries,
          range.1 < contract.stop ∧ contract.base < range.2 →
            range = (contract.base, contract.stop)) ∧
        (result = true ↔
          (contract.base, contract.stop) ∈ extents entries) := by
  unfold SpinTableContract.stop at page
  have stop : (addOrPanic wordSize contract.base spinTableBytes :
      Result Nat) = .ok contract.stop :=
    addOrPanic_of (by unfold wordSize; omega)
  rw [validateParkingReserveMap, headerParse_eq_ok.mpr ⟨rfl, accepted⟩,
    Run.ok_bind, stop, Run.ok_bind, reserveMapRanges_eq accepted reserved,
    Run.bind_eq_ok]
  simp only [entryRanges_eq_ok, foldlM_checkMapRange]
  constructor
  · rintro ⟨_, ⟨fits, rfl⟩, alone, answer⟩
    exact ⟨fits, alone, by simpa using answer⟩
  · rintro ⟨fits, alone, answer⟩
    exact ⟨_, ⟨fits, rfl⟩, alone, by simpa using answer⟩

theorem spinTableBytes_ne : spinTableBytes ≠ 0 := by decide

theorem spinTableBytes_lt : spinTableBytes < 2 ^ 64 := by decide

theorem reservationBytes_zero :
    reservationBytes (0, 0) = List.replicate 16 0 := by decide

/-- One more entry in front of the closing one. -/
theorem reserveMapBytes_concat (entry : Reservation) :
    reserveMapBytes (entries ++ [entry]) =
      (reserveMapBytes entries).take ((reserveMapBytes entries).length - 16) ++
        (reservationBytes entry ++ List.replicate 16 0) := by
  have front : (reserveMapBytes entries).take
      ((reserveMapBytes entries).length - 16) =
        entries.flatMap reservationBytes := by
    rw [reserveMapBytes, List.length_append, reservationBytes_length,
      Nat.add_sub_cancel, List.take_left]
  rw [front, reserveMapBytes, List.flatMap_append, List.flatMap_singleton,
    reservationBytes_zero, List.append_assoc]

theorem extents_concat (entry : Reservation) (sized : entry.2 ≠ 0) :
    extents (entries ++ [entry]) =
      extents entries ++ [(entry.1, entry.1 + entry.2)] := by
  unfold extents
  rw [List.filter_append, List.map_append, List.filter_cons_of_pos
    (by simpa using sized)]
  rfl

/-- The new reserve map: the old one, with an entry for the page unless it had
one. -/
theorem graftedReserveMap_eq_ok (page : contract.stop < 2 ^ 64)
    (grafted : graftedReserveMap dtb contract = .ok map) :
    ∃ old entries, Accepted dtb ∧ reservations dtb = some old ∧
      map = reserveMapBytes entries ∧
      (∀ entry ∈ entries, Reservation.Proper entry) ∧ FitsWord entries ∧
      MapsPage contract (extents entries) ∧
      (entries = old ∨ entries = old ++ [(contract.base, spinTableBytes)]) := by
  obtain ⟨header, parsed, grafted⟩ := Run.bind_eq_ok.mp grafted
  obtain ⟨rfl, accepted⟩ := headerParse_eq_ok.mp parsed
  obtain ⟨kept, held, grafted⟩ := Run.bind_eq_ok.mp grafted
  obtain ⟨old, reserved, rfl⟩ := (reserveMap_eq_ok accepted).mp held
  obtain ⟨_, proper⟩ := reservations_eq_some.mp reserved
  have length := reserveMapBytes_length old
  obtain ⟨already, checked, grafted⟩ := Run.bind_eq_ok.mp grafted
  obtain ⟨fits, alone, answer⟩ :=
    (validateParkingReserveMap_eq_ok accepted page reserved).mp checked
  cases already with
  | true =>
      cases grafted
      exact ⟨old, old, accepted, reserved, rfl, proper, fits,
        ⟨answer.mp rfl, alone⟩, .inl rfl⟩
  | false =>
      rw [if_neg (by decide), subOrPanic_of (by omega), Run.ok_bind] at grafted
      cases grafted
      refine ⟨old, old ++ [(contract.base, spinTableBytes)], accepted,
        reserved, ?_, ?_, ?_, ⟨?_, ?_⟩, .inr rfl⟩
      · rw [reserveMapBytes_concat, reservationBytes, List.append_assoc]
      · rw [List.forall_mem_append, List.forall_mem_singleton]
        unfold SpinTableContract.stop at page
        exact ⟨proper, by simp [spinTableBytes], by dsimp only; omega,
          spinTableBytes_lt⟩
      · intro entry member sized
        rcases List.mem_append.mp member with member | member
        · exact fits entry member sized
        · obtain rfl := List.mem_singleton.mp member
          exact page
      · rw [extents_concat _ spinTableBytes_ne]
        exact List.mem_append_right _ (List.mem_singleton.mpr rfl)
      · rw [extents_concat _ spinTableBytes_ne]
        intro range member touches
        rcases List.mem_append.mp member with member | member
        · exact alone range member touches
        · exact List.mem_singleton.mp member

/-- A reserve map that has the page is not changed. -/
theorem MapsPage.fixed (page : contract.stop < 2 ^ 64)
    (accepted : Accepted dtb) (reserved : reservations dtb = some entries)
    (fits : FitsWord entries) (maps : MapsPage contract (extents entries)) :
    graftedReserveMap dtb contract = .ok (reserveMapBytes entries) := by
  have held : reserveMap dtb (headerOf dtb) = .ok (reserveMapBytes entries) :=
    (reserveMap_eq_ok accepted).mpr ⟨entries, reserved, rfl⟩
  have checked : validateParkingReserveMap dtb contract = .ok true :=
    (validateParkingReserveMap_eq_ok accepted page reserved).mpr
      ⟨fits, maps.alone, iff_of_true rfl maps.mapped⟩
  rw [graftedReserveMap, headerParse_eq_ok.mpr ⟨rfl, accepted⟩, Run.ok_bind,
    held, Run.ok_bind, checked, Run.ok_bind, if_pos rfl]
  rfl

end

end Pocketboot.Kexec
