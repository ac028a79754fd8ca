import Mathlib

/-!
# Addressed storage and sequences of writes

A storage content assigns a cell to every address.  A write replaces a
contiguous range of cells; a sequence of writes may stop after any number of
cells, in the middle of a write.  The results say what such an interrupted
sequence leaves behind.
-/

namespace Pocketboot.Storage

variable {β : Type}

/-- A contiguous range of addresses. -/
structure Extent where
  offset : Nat
  length : Nat
  deriving DecidableEq, Repr

namespace Extent

/-- The addresses of the extent. -/
def Mem (extent : Extent) (address : Nat) : Prop :=
  extent.offset ≤ address ∧ address < extent.offset + extent.length

instance (extent : Extent) (address : Nat) : Decidable (extent.Mem address) :=
  inferInstanceAs (Decidable (_ ∧ _))

/-- No address lies in both extents. -/
def Disjoint (left right : Extent) : Prop :=
  ∀ address, left.Mem address → ¬right.Mem address

theorem Disjoint.symm {left right : Extent} (disjoint : left.Disjoint right) :
    right.Disjoint left :=
  fun address inRight inLeft => disjoint address inLeft inRight

/-- Extents that end before the other one starts are disjoint. -/
theorem disjoint_of_le {left right : Extent}
    (apart : left.offset + left.length ≤ right.offset ∨
      right.offset + right.length ≤ left.offset) :
    left.Disjoint right := by
  intro address inLeft inRight
  unfold Mem at inLeft inRight
  omega

end Extent

/-- Replacement of the cells from `offset` on. -/
structure Write (β : Type) where
  offset : Nat
  data : List β
  deriving DecidableEq, Repr

namespace Write

/-- The addresses a write replaces. -/
def extent (write : Write β) : Extent := ⟨write.offset, write.data.length⟩

/-- The first `count` cells of a write. -/
def take (count : Nat) (write : Write β) : Write β :=
  ⟨write.offset, write.data.take count⟩

theorem mem_extent_of_take {count address : Nat} {write : Write β}
    (member : (write.take count).extent.Mem address) :
    write.extent.Mem address := by
  simp only [extent, take, Extent.Mem, List.length_take] at member ⊢
  omega

end Write

/-- The content after one write. -/
def overlay (content : Nat → β) (write : Write β) : Nat → β := fun address =>
  if write.offset ≤ address then
    (write.data[address - write.offset]?).getD (content address)
  else content address

/-- The content after a sequence of writes. -/
def runWrites (content : Nat → β) (writes : List (Write β)) : Nat → β :=
  writes.foldl overlay content

/-- The cells at the addresses of an extent. -/
def readRange (content : Nat → β) (offset length : Nat) : List β :=
  (List.range length).map fun index => content (offset + index)

/-- The writes that are done when the sequence stops after `count` cells. -/
def takeCells : Nat → List (Write β) → List (Write β)
  | _, [] => []
  | count, write :: rest =>
      if write.data.length ≤ count then
        write :: takeCells (count - write.data.length) rest
      else [write.take count]

/-- The addresses some write of the sequence replaces. -/
def Covered (writes : List (Write β)) (address : Nat) : Prop :=
  ∃ write ∈ writes, write.extent.Mem address

theorem covered_congr {left right : List (Write β)} {address : Nat}
    (same : left.map Write.extent = right.map Write.extent) :
    Covered left address ↔ Covered right address := by
  have extents : ∀ writes : List (Write β), Covered writes address ↔
      ∃ extent ∈ writes.map Write.extent, extent.Mem address := by
    simp [Covered]
  rw [extents, extents, same]

@[simp] theorem runWrites_nil (content : Nat → β) :
    runWrites content [] = content := rfl

@[simp] theorem runWrites_cons (content : Nat → β) (write : Write β)
    (rest : List (Write β)) :
    runWrites content (write :: rest) =
      runWrites (overlay content write) rest := rfl

theorem runWrites_append (content : Nat → β) (first second : List (Write β)) :
    runWrites content (first ++ second) =
      runWrites (runWrites content first) second := by
  simp [runWrites]

@[simp] theorem readRange_length (content : Nat → β) (offset length : Nat) :
    (readRange content offset length).length = length := by
  simp [readRange]

theorem readRange_congr {left right : Nat → β} {offset length : Nat}
    (same : ∀ address, (Extent.mk offset length).Mem address →
      left address = right address) :
    readRange left offset length = readRange right offset length := by
  apply List.map_congr_left
  intro index member
  have bound : index < length := List.mem_range.mp member
  exact same (offset + index) ⟨by simp, by simpa using bound⟩

theorem eq_of_readRange_eq {left right : Nat → β} {offset length : Nat}
    (same : readRange left offset length = readRange right offset length)
    {address : Nat} (member : (Extent.mk offset length).Mem address) :
    left address = right address := by
  have lower := member.1
  have upper := member.2
  simp only at lower upper
  have cell := congrArg (fun cells => cells[address - offset]?) same
  have bound : address - offset < length := by omega
  have restore : offset + (address - offset) = address := by omega
  simpa [readRange, bound, restore] using cell

theorem overlay_of_not_mem {content : Nat → β} {write : Write β}
    {address : Nat} (outside : ¬write.extent.Mem address) :
    overlay content write address = content address := by
  by_cases below : write.offset ≤ address
  · have beyond : write.data.length ≤ address - write.offset := by
      simp only [Write.extent, Extent.Mem] at outside
      omega
    simp [overlay, below, List.getElem?_eq_none beyond]
  · simp [overlay, below]

theorem overlay_congr {left right : Nat → β} {write : Write β} {address : Nat}
    (same : ¬write.extent.Mem address → left address = right address) :
    overlay left write address = overlay right write address := by
  by_cases member : write.extent.Mem address
  · have lower : write.offset ≤ address := member.1
    have upper : address - write.offset < write.data.length := by
      have := member.2
      simp only [Write.extent] at this
      omega
    simp [overlay, lower, List.getElem?_eq_getElem upper]
  · rw [overlay_of_not_mem member, overlay_of_not_mem member, same member]

theorem readRange_overlay_self (content : Nat → β) (write : Write β) :
    readRange (overlay content write) write.offset write.data.length =
      write.data := by
  apply List.ext_getElem
  · simp
  · intro index bound _
    have inside : index < write.data.length := by simpa using bound
    simp [readRange, overlay, List.getElem?_eq_getElem inside]

theorem readRange_overlay_disjoint {content : Nat → β} {write : Write β}
    {offset length : Nat}
    (disjoint : write.extent.Disjoint ⟨offset, length⟩) :
    readRange (overlay content write) offset length =
      readRange content offset length := by
  apply readRange_congr
  intro address member
  exact overlay_of_not_mem fun inWrite => disjoint address inWrite member

theorem runWrites_of_not_covered {content : Nat → β}
    {writes : List (Write β)} {address : Nat}
    (outside : ¬Covered writes address) :
    runWrites content writes address = content address := by
  induction writes generalizing content with
  | nil => rfl
  | cons write rest induction =>
      have restOutside : ¬Covered rest address := fun ⟨later, member, inside⟩ =>
        outside ⟨later, List.mem_cons_of_mem _ member, inside⟩
      have headOutside : ¬write.extent.Mem address := fun inside =>
        outside ⟨write, List.mem_cons_self, inside⟩
      rw [runWrites_cons, induction restOutside,
        overlay_of_not_mem headOutside]

/-- An interrupted sequence replaces no address the whole sequence leaves. -/
theorem covered_of_takeCells {count : Nat} {writes : List (Write β)}
    {address : Nat} (covered : Covered (takeCells count writes) address) :
    Covered writes address := by
  induction writes generalizing count with
  | nil => exact covered
  | cons write rest induction =>
      obtain ⟨done, member, inside⟩ := covered
      unfold takeCells at member
      split at member
      · rcases List.mem_cons.mp member with rfl | later
        · exact ⟨done, List.mem_cons_self, inside⟩
        · obtain ⟨other, otherMember, otherInside⟩ :=
            induction ⟨done, later, inside⟩
          exact ⟨other, List.mem_cons_of_mem _ otherMember, otherInside⟩
      · obtain rfl := List.mem_singleton.mp member
        exact ⟨write, List.mem_cons_self, Write.mem_extent_of_take inside⟩

/-- A sequence of two phases, interrupted anywhere, has either not left the
cells of the first phase, or has completed the first phase and changed only
cells of the second one. -/
theorem takeCells_two_phases (content : Nat → β)
    (first second : List (Write β)) (count : Nat) :
    (∀ address, ¬Covered first address →
      runWrites content (takeCells count (first ++ second)) address =
        content address) ∨
    (∀ address, ¬Covered second address →
      runWrites content (takeCells count (first ++ second)) address =
        runWrites content first address) := by
  induction first generalizing content count with
  | nil =>
      right
      intro address outside
      exact runWrites_of_not_covered fun covered =>
        outside (covered_of_takeCells covered)
  | cons write rest induction =>
      simp only [List.cons_append, takeCells]
      split
      · rcases induction (overlay content write)
          (count - write.data.length) with unfinished | finished
        · left
          intro address outside
          have restOutside : ¬Covered rest address :=
            fun ⟨later, member, inside⟩ =>
              outside ⟨later, List.mem_cons_of_mem _ member, inside⟩
          rw [runWrites_cons, unfinished address restOutside]
          exact overlay_of_not_mem fun inside =>
            outside ⟨write, List.mem_cons_self, inside⟩
        · right
          exact finished
      · left
        intro address outside
        apply runWrites_of_not_covered
        rintro ⟨done, member, inside⟩
        obtain rfl := List.mem_singleton.mp member
        exact outside
          ⟨write, List.mem_cons_self, Write.mem_extent_of_take inside⟩

theorem runWrites_takeCells_zero (content : Nat → β)
    (writes : List (Write β)) :
    runWrites content (takeCells 0 writes) = content := by
  funext address
  apply runWrites_of_not_covered
  rintro ⟨done, member, inside⟩
  induction writes with
  | nil => simp [takeCells] at member
  | cons write rest induction =>
      simp only [takeCells, Nat.le_zero_eq, List.length_eq_zero_iff] at member
      split at member
      · rename_i empty
        rcases List.mem_cons.mp member with rfl | later
        · simp only [Write.extent, Extent.Mem, empty, List.length_nil] at inside
          omega
        · exact induction (by simpa [empty] using later)
      · obtain rfl := List.mem_singleton.mp member
        simp only [Write.extent, Extent.Mem, Write.take, List.take_zero,
          List.length_nil] at inside
        omega

/-- Writes that share an address put the same cell there. -/
def Agree (writes : List (Write β)) : Prop :=
  ∀ left ∈ writes, ∀ right ∈ writes, ∀ address,
    left.extent.Mem address → right.extent.Mem address →
      left.data[address - left.offset]? = right.data[address - right.offset]?

/-- The content carries the data of every write of the list. -/
def Carries (content : Nat → β) (writes : List (Write β)) : Prop :=
  ∀ write ∈ writes,
    readRange content write.offset write.data.length = write.data

theorem overlay_of_mem (content : Nat → β) {write : Write β} {address : Nat}
    (member : write.extent.Mem address) :
    some (overlay content write address) =
      write.data[address - write.offset]? := by
  have lower : write.offset ≤ address := member.1
  have upper : address - write.offset < write.data.length := by
    have := member.2
    simp only [Write.extent] at this
    omega
  simp [overlay, lower, List.getElem?_eq_getElem upper]

/-- Where writes agree, the last write does not matter. -/
theorem Agree.runWrites_of_mem {writes : List (Write β)}
    (agree : Agree writes) (content : Nat → β) {write : Write β} (listed : write ∈ writes)
    {address : Nat} (member : write.extent.Mem address) :
    some (runWrites content writes address) =
      write.data[address - write.offset]? := by
  induction writes generalizing content write with
  | nil => simp at listed
  | cons head rest induction =>
      have restAgree : Agree rest := fun left leftListed right rightListed =>
        agree left (List.mem_cons_of_mem _ leftListed) right
          (List.mem_cons_of_mem _ rightListed)
      rw [runWrites_cons]
      by_cases later : Covered rest address
      · obtain ⟨other, otherListed, otherMember⟩ := later
        rw [induction restAgree _ otherListed otherMember]
        exact agree other (List.mem_cons_of_mem _ otherListed) write listed
          address otherMember member
      · have isHead : write = head := by
          rcases List.mem_cons.mp listed with same | restListed
          · exact same
          · exact (later ⟨write, restListed, member⟩).elim
        subst isHead
        rw [runWrites_of_not_covered later, overlay_of_mem _ member]

theorem readRange_eq_iff {content : Nat → β} {write : Write β} :
    readRange content write.offset write.data.length = write.data ↔
      ∀ address, write.extent.Mem address →
        some (content address) = write.data[address - write.offset]? := by
  constructor
  · intro reads address member
    have same := eq_of_readRange_eq
      (reads.trans (readRange_overlay_self content write).symm) member
    rw [same, overlay_of_mem content member]
  · intro cells
    refine Eq.trans ?_ (readRange_overlay_self content write)
    apply readRange_congr
    intro address member
    have cell := cells address member
    rw [← overlay_of_mem content member] at cell
    exact Option.some.inj cell

theorem Agree.carries {writes : List (Write β)} (agree : Agree writes)
    (content : Nat → β) : Carries (runWrites content writes) writes :=
  fun _ listed => readRange_eq_iff.mpr fun _ member =>
    agree.runWrites_of_mem content listed member

theorem Carries.agree {content : Nat → β} {writes : List (Write β)}
    (carries : Carries content writes) : Agree writes :=
  fun left leftListed right rightListed address inLeft inRight =>
    (readRange_eq_iff.mp (carries left leftListed) address inLeft).symm.trans
      (readRange_eq_iff.mp (carries right rightListed) address inRight)

/-- Writes to pairwise disjoint extents agree. -/
theorem agree_of_pairwise_disjoint {writes : List (Write β)}
    (disjoint : writes.Pairwise fun left right =>
      left.extent.Disjoint right.extent) : Agree writes := by
  refine List.Pairwise.forall_of_forall_of_flip ?_ ?_ ?_
  · intro _ _ _ _ _
    rfl
  · exact disjoint.imp fun apart address inLeft inRight =>
      (apart address inLeft inRight).elim
  · exact disjoint.imp fun apart address inRight inLeft =>
      (apart address inLeft inRight).elim

end Pocketboot.Storage
