import Pocketboot.Base.IoError
import Pocketboot.Sorting.Stable

/-!
# Lists of address ranges

Half-open ranges of physical addresses.  A list is canonical when its ranges
are not empty and each ends strictly before the next one starts.  Adding a
range to a canonical list and removing one from it keep it canonical, and act
on the set of covered addresses as union and difference.
-/

namespace Pocketboot.Kexec

/-- The addresses from `start` up to `stop`. -/
structure PhysRange where
  start : Nat
  stop : Nat
  start_lt : start < wordSize
  stop_lt : stop < wordSize
  deriving DecidableEq

namespace PhysRange

def new (start stop : Nat) (word : stop < wordSize) : Option PhysRange :=
  if ordered : start < stop then some ⟨start, stop, by omega, word⟩ else none

def overlaps (range other : PhysRange) : Bool :=
  range.start < other.stop && other.start < range.stop

def addresses (range : PhysRange) : Set Nat := Set.Ico range.start range.stop

def Nonempty (range : PhysRange) : Prop := range.start < range.stop

theorem mem_addresses {range : PhysRange} {address : Nat} :
    address ∈ range.addresses ↔
      range.start ≤ address ∧ address < range.stop :=
  Set.mem_Ico

theorem new_eq_some {start stop : Nat} {word : stop < wordSize}
    {range : PhysRange} :
    new start stop word = some range ↔
      start < stop ∧ range.start = start ∧ range.stop = stop := by
  cases range
  unfold new
  split <;> simp_all [eq_comm]

theorem new_of_lt {start stop : Nat} (word : stop < wordSize)
    (ordered : start < stop) :
    ∃ range, new start stop word = some range ∧ range.start = start ∧
      range.stop = stop :=
  ⟨⟨start, stop, by omega, word⟩, dif_pos ordered, rfl, rfl⟩

theorem new_nonempty {start stop : Nat} {word : stop < wordSize}
    {range : PhysRange} (built : new start stop word = some range) :
    range.Nonempty := by
  obtain ⟨ordered, startEq, stopEq⟩ := new_eq_some.mp built
  unfold Nonempty
  omega

theorem overlaps_eq_false {range other : PhysRange} :
    range.overlaps other = false ↔
      other.stop ≤ range.start ∨ range.stop ≤ other.start := by
  simp [overlaps, Decidable.or_iff_not_imp_left]

end PhysRange

/-- The addresses of the ranges. -/
def covered (ranges : List PhysRange) : Set Nat :=
  {address | ∃ range ∈ ranges, address ∈ range.addresses}

/-- No range is empty, and each ends before the next one starts. -/
structure Canonical (ranges : List PhysRange) : Prop where
  nonempty : ∀ range ∈ ranges, range.Nonempty
  separated : ranges.Pairwise fun left right => left.stop < right.start

def sortByStart (ranges : List PhysRange) : List PhysRange :=
  Sorting.sortBy (compareOn PhysRange.start) ranges

/-- The merged ranges after one more range. -/
def mergeRange (merged : List PhysRange) (range : PhysRange) :
    List PhysRange :=
  match merged.getLast? with
  | none => merged ++ [range]
  | some last =>
      if range.start ≤ last.stop then
        merged.dropLast ++ [{ last with
          stop := max last.stop range.stop
          stop_lt := max_lt last.stop_lt range.stop_lt }]
      else merged ++ [range]

def addRange (ranges : List PhysRange) (range : PhysRange) : List PhysRange :=
  (sortByStart (ranges ++ [range])).foldl mergeRange []

/-- What is left of a range without the removed one. -/
def remains (remove range : PhysRange) : List PhysRange :=
  if ¬ range.overlaps remove then [range]
  else
    (if range.start < remove.start then
      (PhysRange.new range.start (min remove.start range.stop)
        (min_lt_of_right_lt range.stop_lt)).toList
    else []) ++
    (if remove.stop < range.stop then
      (PhysRange.new (max remove.stop range.start) range.stop
        range.stop_lt).toList
    else [])

def subtractRange (ranges : List PhysRange) (remove : PhysRange) :
    List PhysRange :=
  ranges.flatMap (remains remove)

/-! ## Covered addresses -/

theorem mem_covered {ranges : List PhysRange} {address : Nat} :
    address ∈ covered ranges ↔
      ∃ range ∈ ranges, range.start ≤ address ∧ address < range.stop := by
  simp [covered, PhysRange.mem_addresses]

@[simp] theorem covered_nil : covered [] = ∅ := by
  simp [covered]

theorem covered_append (front back : List PhysRange) :
    covered (front ++ back) = covered front ∪ covered back := by
  ext address
  simp [covered, or_and_right, exists_or]

@[simp] theorem covered_singleton (range : PhysRange) :
    covered [range] = range.addresses := by
  simp [covered]

theorem covered_perm {left right : List PhysRange} (perm : left.Perm right) :
    covered left = covered right := by
  ext address
  simp [covered, perm.mem_iff]

theorem Canonical.nil : Canonical [] := ⟨by simp, .nil⟩

theorem Canonical.sorted {ranges : List PhysRange}
    (canonical : Canonical ranges) :
    ranges.Pairwise fun left right => left.start ≤ right.start := by
  refine (List.Pairwise.and_mem.mp canonical.separated).imp ?_
  rintro left right ⟨leftMember, _, apart⟩
  have := canonical.nonempty left leftMember
  unfold PhysRange.Nonempty at this
  omega

/-! ## Sorting -/

theorem sortByStart_perm (ranges : List PhysRange) :
    (sortByStart ranges).Perm ranges :=
  Sorting.sortBy_perm _ ranges

theorem sortByStart_sorted (ranges : List PhysRange) :
    (sortByStart ranges).Pairwise fun left right => left.start ≤ right.start :=
  (Sorting.sortBy_sorted (compareOn PhysRange.start) ranges).imp fun ordered =>
    Nat.isLE_compare.mp ordered

theorem sortByStart_canonical {ranges : List PhysRange}
    (canonical : Canonical ranges) : sortByStart ranges = ranges := by
  refine List.mergeSort_of_pairwise ?_
  refine (List.Pairwise.and_mem.mp canonical.separated).imp ?_
  rintro left right ⟨leftMember, _, apart⟩
  have := canonical.nonempty left leftMember
  unfold PhysRange.Nonempty at this
  exact Nat.isLE_compare.mpr (by omega)

/-! ## Adding a range -/

/-- What merging a range that starts no earlier than the merged ones does. -/
theorem mergeRange_step {merged : List PhysRange} {range : PhysRange}
    (canonical : Canonical merged) (nonempty : range.Nonempty)
    (ordered : ∀ earlier ∈ merged, earlier.start ≤ range.start) :
    Canonical (mergeRange merged range) ∧
      (∀ earlier ∈ mergeRange merged range, earlier.start ≤ range.start) ∧
      covered (mergeRange merged range) =
        covered merged ∪ range.addresses := by
  unfold PhysRange.Nonempty at nonempty
  rcases List.eq_nil_or_concat' merged with rfl | ⟨front, last, rfl⟩
  · refine ⟨⟨?_, ?_⟩, ?_, ?_⟩ <;> simp [mergeRange, PhysRange.Nonempty, nonempty]
  · have frontApart := (List.pairwise_append.mp canonical.separated).1
    have frontBefore : ∀ earlier ∈ front, earlier.stop < last.start :=
      fun earlier member => (List.pairwise_append.mp canonical.separated).2.2
        earlier member last List.mem_cons_self
    have lastNonempty := canonical.nonempty last (by simp)
    have lastOrdered := ordered last (by simp)
    unfold PhysRange.Nonempty at lastNonempty
    simp only [mergeRange, List.getLast?_concat, List.dropLast_concat]
    split
    · rename_i touching
      refine ⟨⟨?_, ?_⟩, ?_, ?_⟩
      · intro other member
        rcases List.mem_append.mp member with early | new
        · exact canonical.nonempty other (List.mem_append_left _ early)
        · obtain rfl := List.mem_singleton.mp new
          exact lt_max_of_lt_left lastNonempty
      · refine List.pairwise_append.mpr ⟨frontApart, by simp, ?_⟩
        intro earlier member other new
        obtain rfl := List.mem_singleton.mp new
        exact frontBefore earlier member
      · intro earlier member
        rcases List.mem_append.mp member with early | new
        · exact ordered earlier (List.mem_append_left _ early)
        · obtain rfl := List.mem_singleton.mp new
          exact lastOrdered
      · rw [covered_append, covered_append, Set.union_assoc]
        congr 1
        ext address
        simp only [covered_singleton, PhysRange.mem_addresses, Set.mem_union]
        omega
    · rename_i apart
      refine ⟨⟨?_, ?_⟩, ?_, ?_⟩
      · intro other member
        rcases List.mem_append.mp member with early | new
        · exact canonical.nonempty other early
        · obtain rfl := List.mem_singleton.mp new
          exact nonempty
      · refine List.pairwise_append.mpr ⟨canonical.separated, by simp, ?_⟩
        intro earlier member other new
        obtain rfl := List.mem_singleton.mp new
        rcases List.mem_append.mp member with early | same
        · have := frontBefore earlier early
          omega
        · obtain rfl := List.mem_singleton.mp same
          omega
      · intro earlier member
        rcases List.mem_append.mp member with early | new
        · exact ordered earlier early
        · obtain rfl := List.mem_singleton.mp new
          exact le_rfl
      · rw [covered_append, covered_singleton]

private theorem foldl_mergeRange {items merged : List PhysRange}
    (sorted : items.Pairwise fun left right => left.start ≤ right.start)
    (nonempty : ∀ range ∈ items, range.Nonempty) (canonical : Canonical merged)
    (ordered : ∀ earlier ∈ merged, ∀ range ∈ items,
      earlier.start ≤ range.start) :
    Canonical (items.foldl mergeRange merged) ∧
      covered (items.foldl mergeRange merged) =
        covered merged ∪ covered items := by
  induction items generalizing merged with
  | nil => simp [canonical]
  | cons range rest induction =>
      obtain ⟨canonical', ordered', covers⟩ := mergeRange_step canonical
        (nonempty range List.mem_cons_self)
        fun earlier member => ordered earlier member range List.mem_cons_self
      have later : ∀ earlier ∈ mergeRange merged range, ∀ next ∈ rest,
          earlier.start ≤ next.start := fun earlier member next following =>
        (ordered' earlier member).trans
          (List.rel_of_pairwise_cons sorted following)
      obtain ⟨canonical'', covers'⟩ := induction sorted.of_cons
        (fun next member => nonempty next (List.mem_cons_of_mem _ member))
        canonical' later
      refine ⟨canonical'', ?_⟩
      rw [List.foldl_cons, covers', covers, Set.union_assoc,
        ← covered_singleton, ← covered_append]
      rfl

theorem addRange_canonical {ranges : List PhysRange} {range : PhysRange}
    (canonical : Canonical ranges) (nonempty : range.Nonempty) :
    Canonical (addRange ranges range) ∧
      covered (addRange ranges range) = covered ranges ∪ range.addresses := by
  have perm := sortByStart_perm (ranges ++ [range])
  have all : ∀ item ∈ sortByStart (ranges ++ [range]), item.Nonempty := by
    intro item member
    rcases List.mem_append.mp (perm.mem_iff.mp member) with early | new
    · exact canonical.nonempty item early
    · obtain rfl := List.mem_singleton.mp new
      exact nonempty
  obtain ⟨canonical', covers⟩ := foldl_mergeRange (sortByStart_sorted _) all
    Canonical.nil (by simp)
  refine ⟨canonical', ?_⟩
  rw [addRange, covers, covered_perm perm, covered_append, covered_singleton,
    covered_nil, Set.empty_union]

/-! ## Removing a range -/

theorem mem_remains {remove range piece : PhysRange}
    (nonempty : range.Nonempty) (member : piece ∈ remains remove range) :
    piece.Nonempty ∧ range.start ≤ piece.start ∧ piece.stop ≤ range.stop := by
  unfold remains at member
  split at member
  · obtain rfl := List.mem_singleton.mp member
    exact ⟨nonempty, le_rfl, le_rfl⟩
  · rcases List.mem_append.mp member with left | right
    · split at left
      · have built := Option.mem_toList.mp left
        obtain ⟨_, startEq, stopEq⟩ := PhysRange.new_eq_some.mp built
        exact ⟨PhysRange.new_nonempty built, by omega, by omega⟩
      · simp at left
    · split at right
      · have built := Option.mem_toList.mp right
        obtain ⟨_, startEq, stopEq⟩ := PhysRange.new_eq_some.mp built
        exact ⟨PhysRange.new_nonempty built, by omega, by omega⟩
      · simp at right

theorem covered_remains (remove range : PhysRange) :
    covered (remains remove range) =
      range.addresses \ remove.addresses := by
  ext address
  rw [Set.mem_sdiff, PhysRange.mem_addresses, PhysRange.mem_addresses]
  unfold remains
  split
  · rename_i apart
    rw [Bool.not_eq_true, PhysRange.overlaps_eq_false] at apart
    rw [covered_singleton, PhysRange.mem_addresses]
    omega
  · rename_i overlapping
    simp only [not_not, PhysRange.overlaps, Bool.and_eq_true,
      decide_eq_true_eq] at overlapping
    rw [covered_append, Set.mem_union, mem_covered, mem_covered]
    constructor
    · rintro (⟨piece, member, low, high⟩ | ⟨piece, member, low, high⟩)
      · split at member
        · obtain ⟨_, startEq, stopEq⟩ :=
            PhysRange.new_eq_some.mp (Option.mem_toList.mp member)
          omega
        · simp at member
      · split at member
        · obtain ⟨_, startEq, stopEq⟩ :=
            PhysRange.new_eq_some.mp (Option.mem_toList.mp member)
          omega
        · simp at member
    · rintro ⟨inside, outside⟩
      by_cases below : address < remove.start
      · left
        obtain ⟨piece, built, startEq, stopEq⟩ := PhysRange.new_of_lt
          (show min remove.start range.stop < wordSize from
            min_lt_of_right_lt range.stop_lt)
          (show range.start < min remove.start range.stop by omega)
        rw [if_pos (by omega), built]
        exact ⟨piece, by simp, by omega, by omega⟩
      · right
        obtain ⟨piece, built, startEq, stopEq⟩ := PhysRange.new_of_lt
          range.stop_lt (show max remove.stop range.start < range.stop by omega)
        rw [if_pos (by omega), built]
        exact ⟨piece, by simp, by omega, by omega⟩

private theorem remains_separated {remove range : PhysRange}
    (removed : remove.Nonempty) :
    (remains remove range).Pairwise fun left right =>
      left.stop < right.start := by
  unfold PhysRange.Nonempty at removed
  unfold remains
  split
  · simp
  · refine List.pairwise_append.mpr ⟨?_, ?_, ?_⟩
    · split
      · cases PhysRange.new range.start (min remove.start range.stop)
          (min_lt_of_right_lt range.stop_lt) <;> simp
      · simp
    · split
      · cases PhysRange.new (max remove.stop range.start) range.stop
          range.stop_lt <;> simp
      · simp
    · intro left leftMember right rightMember
      split at leftMember
      · split at rightMember
        · obtain ⟨_, _, leftStop⟩ :=
            PhysRange.new_eq_some.mp (Option.mem_toList.mp leftMember)
          obtain ⟨_, rightStart, _⟩ :=
            PhysRange.new_eq_some.mp (Option.mem_toList.mp rightMember)
          omega
        · simp at rightMember
      · simp at leftMember

theorem subtractRange_canonical {ranges : List PhysRange} {remove : PhysRange}
    (canonical : Canonical ranges) (removed : remove.Nonempty) :
    Canonical (subtractRange ranges remove) := by
  constructor
  · intro piece member
    obtain ⟨range, present, part⟩ := List.mem_flatMap.mp member
    exact (mem_remains (canonical.nonempty range present) part).1
  · refine List.pairwise_flatMap.mpr ⟨fun range _ =>
      remains_separated removed, ?_⟩
    refine (List.Pairwise.and_mem.mp canonical.separated).imp ?_
    rintro left right ⟨leftMember, rightMember, apart⟩ one onePart two twoPart
    have oneInside := mem_remains (canonical.nonempty left leftMember) onePart
    have twoInside := mem_remains (canonical.nonempty right rightMember) twoPart
    omega

theorem covered_subtractRange (ranges : List PhysRange) (remove : PhysRange) :
    covered (subtractRange ranges remove) =
      covered ranges \ remove.addresses := by
  induction ranges with
  | nil => simp [subtractRange]
  | cons range rest induction =>
      have pieces : subtractRange (range :: rest) remove =
          remains remove range ++ subtractRange rest remove := rfl
      rw [pieces, covered_append, covered_remains, induction,
        ← Set.union_sdiff_distrib, ← covered_singleton, ← covered_append]
      rfl

end Pocketboot.Kexec
