import Pocketboot.Base.Align
import Pocketboot.Kexec.PhysRange

/-!
# Placing a segment

`findRegion` looks for the least aligned address at which a segment of a given
size lies inside a usable range and a window and meets no occupied range.  The
search skips from one conflict to the next: every place that fits is behind
each occupied range that overlaps the candidate, so no place is missed.
-/

namespace Pocketboot.Kexec

def alignUp (value align : Nat) : Option Nat :=
  (checkedAdd value (align - 1)).map fun value => maskDown value align

/-- The search in one usable range, from a candidate on; an error is the
function's `None`. -/
def placeFrom (occupied : List PhysRange) (size align stop : Nat) :
    Nat → Nat → Run Unit (Option Nat)
  | 0, _ => .error .outOfFuel
  | fuel + 1, candidate =>
      if word : candidate + size < wordSize then
        if candidate + size ≤ stop then
          let candidateRange : PhysRange :=
            ⟨candidate, candidate + size, by omega, word⟩
          let conflicts := occupied.filter candidateRange.overlaps
          match conflicts.minOn? PhysRange.stop with
          | some conflict => do
              let candidate ← Run.ofOption () (alignUp conflict.stop align)
              placeFrom occupied size align stop fuel candidate
          | none => .ok (some candidate)
        else .ok none
      else Run.fail ()

/-- The search in the usable ranges, in order. -/
def findRegionIn (occupied : List PhysRange) (size align min max : Nat) :
    List PhysRange → Run Unit Nat
  | [] => Run.fail ()
  | range :: rest => do
      let start := Max.max range.start min
      let stop := Min.min range.stop max
      let needed ← Run.ofOption () (checkedAdd start size)
      if needed > stop then findRegionIn occupied size align min max rest
      else do
        let candidate ← Run.ofOption () (alignUp start align)
        match ← placeFrom occupied size align stop (occupied.length + 1)
            candidate with
        | some address => pure address
        | none => findRegionIn occupied size align min max rest

def findRegion (usable occupied : List PhysRange) (size align min max : Nat) :
    Run Unit Nat :=
  if size = 0 ∨ ¬ align.isPowerOfTwo then Run.fail ()
  else findRegionIn occupied size align min max usable

/-! ## The places that fit -/

/-- The segment at `address` is aligned, inside one usable range and the
window, and disjoint from what is occupied. -/
structure Fits (usable occupied : List PhysRange) (size align min max : Nat)
    (address : Nat) : Prop where
  aligned : align ∣ address
  usable : ∃ range ∈ usable,
    Set.Ico address (address + size) ⊆ range.addresses
  window : Set.Ico address (address + size) ⊆ Set.Ico min max
  free : ∀ range ∈ occupied,
    Disjoint (Set.Ico address (address + size)) range.addresses

/-- What a search may answer, of the places it looks for. -/
def Answers (places : Set Nat) (answer : Run Unit Nat) : Prop :=
  (∃ address, answer = .ok address ∧ IsLeast places address) ∨
    (answer = Run.fail () ∧ places = ∅)

section

variable {usable occupied : List PhysRange} {size align min max : Nat}

theorem fits_iff {address : Nat} (positive : 0 < size)
    (nonempty : ∀ range ∈ occupied, range.Nonempty) :
    Fits usable occupied size align min max address ↔
      align ∣ address ∧
        (∃ range ∈ usable, range.start ≤ address ∧
          address + size ≤ range.stop) ∧
        (min ≤ address ∧ address + size ≤ max) ∧
        ∀ range ∈ occupied,
          address + size ≤ range.start ∨ range.stop ≤ address := by
  have inside : ∀ low high, Set.Ico address (address + size) ⊆
      Set.Ico low high ↔ low ≤ address ∧ address + size ≤ high := by
    intro low high
    exact Set.Ico_subset_Ico_iff (by omega)
  have free : ∀ range ∈ occupied,
      (Disjoint (Set.Ico address (address + size)) range.addresses ↔
        address + size ≤ range.start ∨ range.stop ≤ address) := by
    intro range member
    have := nonempty range member
    unfold PhysRange.Nonempty at this
    rw [PhysRange.addresses, Set.Ico_disjoint_Ico]
    omega
  constructor
  · rintro ⟨aligned, ⟨range, member, contains⟩, window, disjoint⟩
    exact ⟨aligned, ⟨range, member, (inside _ _).mp contains⟩,
      (inside _ _).mp window, fun range member =>
        (free range member).mp (disjoint range member)⟩
  · rintro ⟨aligned, ⟨range, member, contains⟩, window, apart⟩
    exact ⟨aligned, ⟨range, member, (inside _ _).mpr contains⟩,
      (inside _ _).mpr window, fun range member =>
        (free range member).mpr (apart range member)⟩

/-! ## Aligned addresses -/

theorem alignUp_eq_some {exponent value result : Nat}
    (aligned : alignUp value (2 ^ exponent) = some result)
    (small : exponent ≤ 64) :
    2 ^ exponent ∣ result ∧ value ≤ result ∧
      ∀ address, 2 ^ exponent ∣ address → value ≤ address →
        result ≤ address := by
  obtain ⟨sum, added, rfl⟩ := Option.map_eq_some_iff.mp aligned
  obtain ⟨bound, rfl⟩ := checkedAdd_eq_some.mp added
  have positive : 0 < 2 ^ exponent := by positivity
  rw [maskDown_two_pow bound small]
  have division := Nat.div_add_mod (value + (2 ^ exponent - 1)) (2 ^ exponent)
  have remainder := Nat.mod_lt (value + (2 ^ exponent - 1)) positive
  rw [Nat.mul_comm] at division
  refine ⟨Nat.dvd_mul_left _ _, by omega, ?_⟩
  rintro _ ⟨quotient, rfl⟩ above
  rw [Nat.mul_comm (2 ^ exponent) quotient]
  apply Nat.mul_le_mul_right
  apply Nat.lt_succ_iff.mp
  apply Nat.div_lt_of_lt_mul
  rw [Nat.mul_succ]
  omega

/-- Where rounding up overflows, no aligned word is left. -/
theorem alignUp_eq_none {exponent value address : Nat}
    (overflow : alignUp value (2 ^ exponent) = none) (small : exponent ≤ 64)
    (aligned : 2 ^ exponent ∣ address) (above : value ≤ address) :
    wordSize ≤ address := by
  have large : wordSize ≤ value + (2 ^ exponent - 1) := by
    rw [alignUp, Option.map_eq_none_iff, checkedAdd] at overflow
    split at overflow
    · cases overflow
    · omega
  have whole : 2 ^ exponent ∣ wordSize := Nat.pow_dvd_pow 2 small
  obtain ⟨words, total⟩ := whole
  obtain ⟨quotient, rfl⟩ := aligned
  have positive : 0 < 2 ^ exponent := by positivity
  rw [total] at large ⊢
  apply Nat.mul_le_mul_left
  apply Nat.lt_succ_iff.mp
  apply Nat.lt_of_mul_lt_mul_left (a := 2 ^ exponent)
  rw [Nat.mul_succ]
  omega

/-! ## The search in one range -/

private theorem minOn?_eq_none {ranges : List PhysRange} :
    ranges.minOn? PhysRange.stop = none ↔ ranges = [] := by
  rw [← Option.not_isSome_iff_eq_none, List.isSome_minOn?_iff, not_not]

/-- What the search in one range says of the places that it is to find. -/
def Placed (occupied : List PhysRange) (size align stop first : Nat)
    (places : Set Nat) : Run Unit (Option Nat) → Prop
  | .ok (some address) =>
      align ∣ address ∧ first ≤ address ∧ address + size ≤ stop ∧
        (∀ range ∈ occupied,
          address + size ≤ range.start ∨ range.stop ≤ address) ∧
        ∀ place ∈ places, address ≤ place
  | .ok none => ∀ place ∈ places, stop < place + size
  | .error (.error _) => places = ∅
  | .error _ => False

theorem Placed.mono {stop first next : Nat} {places : Set Nat}
    {answer : Run Unit (Option Nat)} (later : first ≤ next)
    (placed : Placed occupied size align stop next places answer) :
    Placed occupied size align stop first places answer := by
  rcases answer with (_ | _ | _) | (_ | address)
  · exact placed
  · exact placed
  · exact placed
  · exact placed
  · obtain ⟨aligned, above, rest⟩ := placed
    exact ⟨aligned, later.trans above, rest⟩

/-- The occupied ranges that reach behind the candidate. -/
def reaching (occupied : List PhysRange) (candidate : Nat) : List PhysRange :=
  occupied.filter fun range => candidate < range.stop

/-- Past a conflict, fewer occupied ranges reach behind the candidate. -/
private theorem reaching_lt {candidate next : Nat} {conflict : PhysRange}
    (member : conflict ∈ occupied) (reaches : candidate < conflict.stop)
    (past : conflict.stop ≤ next) :
    (reaching occupied next).length < (reaching occupied candidate).length := by
  have again : reaching occupied next =
      (reaching occupied candidate).filter fun range => next < range.stop := by
    rw [reaching, reaching, List.filter_filter]
    apply List.filter_congr
    intro range _
    rw [Bool.eq_iff_iff]
    simp only [decide_eq_true_eq, Bool.and_eq_true]
    omega
  rw [again]
  apply List.length_filter_lt_length_iff_exists.mpr
  refine ⟨conflict, List.mem_filter.mpr ⟨member, by simpa using reaches⟩, ?_⟩
  simpa using past

/-- The search skips no place: all places stay behind the candidate, and each
conflict passed is one that no place can lie before. -/
theorem placeFrom_placed {exponent stop fuel candidate : Nat}
    {places : Set Nat} (small : exponent ≤ 64)
    (aligned : 2 ^ exponent ∣ candidate)
    (placesAligned : ∀ place ∈ places, 2 ^ exponent ∣ place)
    (placesFree : ∀ place ∈ places, ∀ range ∈ occupied,
      place + size ≤ range.start ∨ range.stop ≤ place)
    (placesWords : ∀ place ∈ places, place + size < wordSize)
    (behind : ∀ place ∈ places, candidate ≤ place)
    (enough : (reaching occupied candidate).length < fuel) :
    Placed occupied size (2 ^ exponent) stop candidate places
      (placeFrom occupied size (2 ^ exponent) stop fuel candidate) := by
  induction fuel generalizing candidate with
  | zero => omega
  | succ fuel induction =>
      unfold placeFrom
      split
      · rename_i word
        split
        · rename_i inside
          dsimp only
          split
          · rename_i conflict found
            obtain ⟨member, overlapping⟩ :=
              List.mem_filter.mp (List.minOn?_mem found)
            simp only [PhysRange.overlaps, Bool.and_eq_true,
              decide_eq_true_eq] at overlapping
            have behindConflict : ∀ place ∈ places, conflict.stop ≤ place := by
              intro place present
              have := behind place present
              have := placesFree place present conflict member
              omega
            cases rounded : alignUp conflict.stop (2 ^ exponent) with
            | none =>
                apply Set.eq_empty_of_forall_notMem
                intro place present
                have := alignUp_eq_none rounded small
                  (placesAligned place present) (behindConflict place present)
                have := placesWords place present
                omega
            | some next =>
                obtain ⟨nextAligned, past, least⟩ :=
                  alignUp_eq_some rounded small
                have fewer := reaching_lt member overlapping.1 past
                exact (induction nextAligned
                  (fun place present => least place
                    (placesAligned place present)
                    (behindConflict place present)) (by omega)).mono (by omega)
          · rename_i noConflict
            have free : ∀ range ∈ occupied, candidate + size ≤ range.start ∨
                range.stop ≤ candidate := by
              intro range member
              have apart := List.filter_eq_nil_iff.mp
                (minOn?_eq_none.mp noConflict) range member
              rw [Bool.not_eq_true, PhysRange.overlaps_eq_false] at apart
              exact apart.symm
            exact ⟨aligned, le_rfl, inside, free, behind⟩
        · rename_i outside
          intro place present
          have := behind place present
          omega
      · rename_i overflow
        apply Set.eq_empty_of_forall_notMem
        intro place present
        have := behind place present
        have := placesWords place present
        omega

/-! ## The search in all ranges -/

private theorem fits_later {range : PhysRange} {rest : List PhysRange}
    {address : Nat} (positive : 0 < size)
    (nonempty : ∀ range ∈ occupied, range.Nonempty)
    (fits : Fits (range :: rest) occupied size align min max address)
    (outside : Min.min range.stop max < address + size) :
    Fits rest occupied size align min max address := by
  rw [fits_iff positive nonempty] at fits ⊢
  obtain ⟨aligned, ⟨found, member, inside⟩, window, free⟩ := fits
  rcases List.mem_cons.mp member with rfl | later
  · omega
  · exact ⟨aligned, ⟨found, later, inside⟩, window, free⟩

private theorem fits_cons {range : PhysRange} {rest : List PhysRange}
    {address : Nat}
    (fits : Fits rest occupied size align min max address) :
    Fits (range :: rest) occupied size align min max address :=
  { fits with
    usable := by
      obtain ⟨found, member, inside⟩ := fits.usable
      exact ⟨found, List.mem_cons_of_mem _ member, inside⟩ }

theorem findRegionIn_answers {exponent : Nat} (small : exponent ≤ 64)
    (sorted : usable.Pairwise fun left right => left.start ≤ right.start)
    (nonempty : ∀ range ∈ occupied, range.Nonempty) (positive : 0 < size) :
    Answers {address | Fits usable occupied size (2 ^ exponent) min max address}
      (findRegionIn occupied size (2 ^ exponent) min max usable) := by
  induction usable with
  | nil =>
      right
      refine ⟨rfl, Set.eq_empty_of_forall_notMem ?_⟩
      rintro address fits
      obtain ⟨_, member, _⟩ := fits.usable
      simp at member
  | cons range rest induction =>
      have rested := induction sorted.of_cons
      -- every place is behind the start of the search in this range
      have places : ∀ address, Fits (range :: rest) occupied size
          (2 ^ exponent) min max address →
          2 ^ exponent ∣ address ∧ Max.max range.start min ≤ address ∧
            address + size < wordSize ∧ ∀ range ∈ occupied,
              address + size ≤ range.start ∨ range.stop ≤ address := by
        intro address fits
        rw [fits_iff positive nonempty] at fits
        obtain ⟨aligned, ⟨found, member, inside⟩, window, free⟩ := fits
        have later : range.start ≤ found.start := by
          rcases List.mem_cons.mp member with rfl | following
          · exact le_rfl
          · exact List.rel_of_pairwise_cons sorted following
        have := found.stop_lt
        exact ⟨aligned, by omega, by omega, free⟩
      -- where no place is in this range, the places are those of the rest
      have passOn : (∀ address, Fits (range :: rest) occupied size
          (2 ^ exponent) min max address →
            Min.min range.stop max < address + size) →
          Answers {address | Fits (range :: rest) occupied size
            (2 ^ exponent) min max address}
            (findRegionIn occupied size (2 ^ exponent) min max rest) := by
        intro outside
        have same : {address | Fits (range :: rest) occupied size
            (2 ^ exponent) min max address} =
            {address | Fits rest occupied size (2 ^ exponent) min max
              address} := by
          ext address
          exact ⟨fun fits => fits_later positive nonempty fits
            (outside address fits), fits_cons⟩
        rw [same]
        exact rested
      unfold findRegionIn
      dsimp only
      cases added : checkedAdd (Max.max range.start min) size with
      | none =>
          right
          refine ⟨rfl, Set.eq_empty_of_forall_notMem fun address fits => ?_⟩
          obtain ⟨_, above, word, _⟩ := places address fits
          have overflow : ¬ Max.max range.start min + size < wordSize := by
            intro bound
            rw [checkedAdd, if_pos bound] at added
            cases added
          omega
      | some needed =>
          obtain ⟨_, rfl⟩ := checkedAdd_eq_some.mp added
          rw [Run.ofOption, Run.ok_bind]
          split
          · rename_i short
            apply passOn
            intro address fits
            obtain ⟨_, above, _⟩ := places address fits
            omega
          · cases rounded : alignUp (Max.max range.start min)
              (2 ^ exponent) with
            | none =>
                right
                refine ⟨rfl, Set.eq_empty_of_forall_notMem
                  fun address fits => ?_⟩
                obtain ⟨aligned, above, word, _⟩ := places address fits
                have := alignUp_eq_none rounded small aligned above
                omega
            | some candidate =>
                obtain ⟨aligned, above, least⟩ :=
                  alignUp_eq_some rounded small
                have placed := @placeFrom_placed occupied size exponent
                  (Min.min range.stop max) (occupied.length + 1) candidate
                  {address | Fits (range :: rest) occupied size
                    (2 ^ exponent) min max address} small aligned
                  (fun address fits => (places address fits).1)
                  (fun address fits => (places address fits).2.2.2)
                  (fun address fits => (places address fits).2.2.1)
                  (fun address fits => least address (places address fits).1
                    (places address fits).2.1)
                  (Nat.lt_succ_of_le (List.length_filter_le ..))
                rw [Run.ofOption, Run.ok_bind]
                cases answer : placeFrom occupied size (2 ^ exponent)
                    (Min.min range.stop max) (occupied.length + 1)
                    candidate with
                | error fault =>
                    rw [answer] at placed
                    cases fault with
                    | error value => exact .inr ⟨rfl, placed⟩
                    | panic => exact placed.elim
                    | outOfFuel => exact placed.elim
                | ok result =>
                    rw [answer] at placed
                    cases result with
                    | none => exact passOn placed
                    | some address =>
                        obtain ⟨addressAligned, behind, inside, free, first⟩ :=
                          placed
                        refine .inl ⟨address, rfl, ?_, first⟩
                        exact (fits_iff positive nonempty).mpr
                          ⟨addressAligned, ⟨range, List.mem_cons_self,
                            by omega, by omega⟩, ⟨by omega, by omega⟩, free⟩

end

/-- The region found is the least place that fits, and there is no place when
none is found. -/
theorem findRegion_least (usable occupied : List PhysRange) (size align : Nat)
    (min max : Nat)
    (sorted : usable.Pairwise fun left right => left.start ≤ right.start)
    (nonempty : ∀ range ∈ occupied, range.Nonempty) (positive : 0 < size)
    (power : align.isPowerOfTwo) (word : align < wordSize) :
    Answers {address | Fits usable occupied size align min max address}
      (findRegion usable occupied size align min max) := by
  obtain ⟨exponent, rfl⟩ := power
  have small : exponent ≤ 64 :=
    ((Nat.pow_lt_pow_iff_right (by decide)).mp word).le
  rw [findRegion, if_neg (by
    rw [not_or, not_not]
    exact ⟨by omega, exponent, rfl⟩)]
  exact findRegionIn_answers small sorted nonempty positive

/-- Two usable ranges; the second holds the region, behind an occupied one. -/
theorem findRegion_least_twoRanges :
    Answers {address | Fits [⟨0, 8, by decide, by decide⟩,
        ⟨16, 64, by decide, by decide⟩] [⟨20, 33, by decide, by decide⟩]
          16 16 4 64 address}
      (findRegion [⟨0, 8, by decide, by decide⟩,
        ⟨16, 64, by decide, by decide⟩] [⟨20, 33, by decide, by decide⟩]
          16 16 4 64) :=
  findRegion_least _ _ 16 16 4 64 (by decide)
    (by simp [PhysRange.Nonempty]) (by decide) ⟨4, rfl⟩ (by decide)

end Pocketboot.Kexec
