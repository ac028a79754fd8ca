import Mathlib

/-!
# Stable sorting

Sorting by a comparison that may call different items equal.  The sorted list
is determined by the order in which the items of each class of ties come, so
two lists that agree class by class are sorted to the same list.
-/

namespace Pocketboot.Sorting

variable {α β : Type} (cmp : α → α → Ordering)

/-- A stable sort, as `sort_by` of a slice. -/
def sortBy (items : List α) : List α :=
  items.mergeSort fun left right => (cmp left right).isLE

/-- Each item compares at most equal to the items after it. -/
def Sorted (items : List α) : Prop :=
  items.Pairwise fun left right => (cmp left right).isLE

/-- The items that compare equal to `item`, in order. -/
def ties (item : α) (items : List α) : List α :=
  items.filter fun other => cmp item other == .eq

theorem sortBy_perm (items : List α) : (sortBy cmp items).Perm items :=
  List.mergeSort_perm items _

@[simp] theorem mem_sortBy {item : α} {items : List α} :
    item ∈ sortBy cmp items ↔ item ∈ items :=
  (sortBy_perm cmp items).mem_iff

theorem ties_append (item : α) (front back : List α) :
    ties cmp item (front ++ back) = ties cmp item front ++ ties cmp item back :=
  List.filter_append ..

variable [Std.TransCmp cmp]

private theorem isLE_trans (first second third : α)
    (left : (cmp first second).isLE) (right : (cmp second third).isLE) :
    (cmp first third).isLE :=
  Std.TransCmp.isLE_trans left right

private theorem isLE_total (first second : α) :
    (cmp first second).isLE || (cmp second first).isLE := by
  rw [@Std.OrientedCmp.eq_swap _ cmp _ second first]
  cases cmp first second <;> rfl

theorem sortBy_sorted (items : List α) : Sorted cmp (sortBy cmp items) :=
  List.pairwise_mergeSort (isLE_trans cmp) (isLE_total cmp) items

theorem eq_of_isLE {left right : α} (forward : (cmp left right).isLE)
    (backward : (cmp right left).isLE) : cmp left right = .eq := by
  rw [@Std.OrientedCmp.eq_swap _ cmp _ right left] at backward
  cases compared : cmp left right with
  | lt => simp [compared] at backward
  | eq => rfl
  | gt => simp [compared] at forward

private theorem ties_sorted (item : α) (items : List α) :
    Sorted cmp (ties cmp item items) := by
  apply List.pairwise_of_forall_mem_list
  intro left leftTie right rightTie
  have leftEq : cmp item left = .eq := by
    simpa using (List.mem_filter.mp leftTie).2
  have rightEq : cmp item right = .eq := by
    simpa using (List.mem_filter.mp rightTie).2
  have both : cmp left right = .eq :=
    Std.TransCmp.eq_trans (Std.OrientedCmp.eq_symm leftEq) rightEq
  rw [both]
  rfl

/-- Ties keep their order. -/
theorem ties_sortBy (item : α) (items : List α) :
    ties cmp item (sortBy cmp items) = ties cmp item items := by
  have kept : (ties cmp item items).Sublist (sortBy cmp items) :=
    List.sublist_mergeSort (isLE_trans cmp) (isLE_total cmp)
      (ties_sorted cmp item items) List.filter_sublist
  have inner : (ties cmp item items).Sublist
      (ties cmp item (sortBy cmp items)) := by
    have filtered := kept.filter fun other => cmp item other == .eq
    simpa only [ties, List.filter_filter, Bool.and_self] using filtered
  have lengths : (ties cmp item items).length =
      (ties cmp item (sortBy cmp items)).length :=
    (((sortBy_perm cmp items).filter _).length_eq).symm
  exact (inner.eq_of_length lengths).symm

/-- A sorted list is determined by its classes of ties. -/
theorem eq_of_sorted_of_ties {left right : List α} (sortedLeft : Sorted cmp left)
    (sortedRight : Sorted cmp right)
    (same : ∀ item, ties cmp item left = ties cmp item right) :
    left = right := by
  induction left generalizing right with
  | nil =>
      cases right with
      | nil => rfl
      | cons item rest =>
          have impossible := same item
          simp [ties, Std.ReflCmp.compare_self] at impossible
  | cons first rest induction =>
      have member : first ∈ right := by
        have present : first ∈ ties cmp first (first :: rest) := by
          simp [ties, Std.ReflCmp.compare_self]
        rw [same first] at present
        exact (List.mem_filter.mp present).1
      cases right with
      | nil => simp at member
      | cons second others =>
          have back : second ∈ first :: rest := by
            have present : second ∈ ties cmp second (second :: others) := by
              simp [ties, Std.ReflCmp.compare_self]
            rw [← same second] at present
            exact (List.mem_filter.mp present).1
          have tie : cmp first second = .eq := by
            apply eq_of_isLE cmp
            · rcases List.mem_cons.mp back with rfl | later
              · simp [Std.ReflCmp.compare_self]
              · exact List.rel_of_pairwise_cons sortedLeft later
            · rcases List.mem_cons.mp member with rfl | later
              · simp [Std.ReflCmp.compare_self]
              · exact List.rel_of_pairwise_cons sortedRight later
          have heads := same first
          simp only [ties, List.filter_cons, Std.ReflCmp.compare_self, tie,
            beq_self_eq_true, if_true, List.cons.injEq] at heads
          obtain ⟨rfl, _⟩ := heads
          congr 1
          apply induction sortedLeft.of_cons sortedRight.of_cons
          intro item
          have whole := same item
          simp only [ties, List.filter_cons] at whole
          split at whole
          · exact (List.cons.inj whole).2
          · exact whole

/-- Lists that agree class by class are sorted to the same list. -/
theorem sortBy_congr {left right : List α}
    (same : ∀ item, ties cmp item left = ties cmp item right) :
    sortBy cmp left = sortBy cmp right := by
  apply eq_of_sorted_of_ties cmp (sortBy_sorted cmp left)
    (sortBy_sorted cmp right)
  intro item
  rw [ties_sortBy, ties_sortBy, same item]

/-- Sorting what was sorted before and extended since. -/
theorem sortBy_append (front back : List α) :
    sortBy cmp (sortBy cmp front ++ back) = sortBy cmp (front ++ back) := by
  apply sortBy_congr
  intro item
  rw [ties_append, ties_append, ties_sortBy]

theorem sortBy_sortBy (items : List α) :
    sortBy cmp (sortBy cmp items) = sortBy cmp items := by
  apply sortBy_congr
  intro item
  rw [ties_sortBy]

/-! ## Parts in any order -/

omit [Std.TransCmp cmp] in
/-- Parts of which at most one is not empty, in any order. -/
theorem flatMap_eq_of_perm {part : β → List α} {left right : List β}
    (perm : left.Perm right)
    (apart : left.Pairwise fun first second =>
      part first = [] ∨ part second = []) :
    left.flatMap part = right.flatMap part := by
  induction perm with
  | nil => rfl
  | cons item _ induction =>
      rw [List.flatMap_cons, List.flatMap_cons, induction apart.of_cons]
  | swap first second rest =>
      rw [List.flatMap_cons, List.flatMap_cons, List.flatMap_cons,
        List.flatMap_cons, ← List.append_assoc, ← List.append_assoc]
      rcases List.rel_of_pairwise_cons apart List.mem_cons_self with
        empty | empty <;>
        simp [empty]
  | trans first _ left right =>
      exact (left apart).trans (right (first.pairwise apart fun either =>
        either.symm))

/-- Parts that have no ties with each other, in any order. -/
theorem sortBy_flatMap_perm {part : β → List α} {left right : List β}
    (perm : left.Perm right)
    (apart : left.Pairwise fun first second =>
      ∀ one ∈ part first, ∀ two ∈ part second, cmp one two ≠ .eq) :
    sortBy cmp (left.flatMap part) = sortBy cmp (right.flatMap part) := by
  apply sortBy_congr
  intro item
  rw [ties, ties, List.filter_flatMap, List.filter_flatMap]
  apply flatMap_eq_of_perm perm
  refine apart.imp ?_
  intro first second noTies
  by_contra both
  rw [not_or] at both
  obtain ⟨one, oneTie⟩ := List.exists_mem_of_ne_nil _ both.1
  obtain ⟨two, twoTie⟩ := List.exists_mem_of_ne_nil _ both.2
  obtain ⟨oneMember, oneEq⟩ := List.mem_filter.mp oneTie
  obtain ⟨twoMember, twoEq⟩ := List.mem_filter.mp twoTie
  have tieOne : cmp item one = .eq := by simpa using oneEq
  have tieTwo : cmp item two = .eq := by simpa using twoEq
  exact noTies one oneMember two twoMember
    (Std.TransCmp.eq_trans (Std.OrientedCmp.eq_symm tieOne) tieTwo)

/-! ## Dropping repeated neighbours -/

section

variable (same : α → α → Bool)

/-- The items kept after `kept`, which stands before the list. -/
def dedupAfter : α → List α → List α
  | _, [] => []
  | kept, item :: rest =>
      if same item kept then dedupAfter kept rest
      else item :: dedupAfter item rest

/-- `dedup_by`: drop each item that is the same as the last kept one. -/
def dedupBy : List α → List α
  | [] => []
  | first :: rest => first :: dedupAfter same first rest

/-- What stands between two same items is the same as the first. -/
def Contiguous (items : List α) : Prop :=
  ∀ first middle last, [first, middle, last].Sublist items →
    same last first = true → same middle first = true

theorem dedupAfter_sublist (kept : α) (items : List α) :
    (dedupAfter same kept items).Sublist items := by
  induction items generalizing kept with
  | nil => exact List.Sublist.refl []
  | cons item rest induction =>
      unfold dedupAfter
      split
      · exact (induction kept).cons item
      · exact (induction item).cons_cons item

theorem dedupBy_sublist (items : List α) :
    (dedupBy same items).Sublist items := by
  cases items with
  | nil => exact List.Sublist.refl []
  | cons first rest => exact (dedupAfter_sublist same first rest).cons_cons first

private theorem exists_mem_dedupAfter {item kept : α} {items : List α}
    (member : item ∈ items) :
    ∃ found ∈ kept :: dedupAfter same kept items,
      found = item ∨ same item found = true := by
  induction items generalizing kept with
  | nil => simp at member
  | cons head rest induction =>
      unfold dedupAfter
      rcases List.mem_cons.mp member with rfl | later
      · split
        · rename_i dropped
          exact ⟨kept, List.mem_cons_self, .inr dropped⟩
        · exact ⟨item, by simp, .inl rfl⟩
      · split
        · exact induction later
        · obtain ⟨found, present, which⟩ := @induction head later
          exact ⟨found, List.mem_cons_of_mem kept present, which⟩

/-- What is dropped is the same as something kept. -/
theorem exists_mem_dedupBy {item : α} {items : List α} (member : item ∈ items) :
    ∃ found ∈ dedupBy same items, found = item ∨ same item found = true := by
  cases items with
  | nil => simp at member
  | cons first rest =>
      rcases List.mem_cons.mp member with rfl | later
      · exact ⟨item, List.mem_cons_self, .inl rfl⟩
      · exact exists_mem_dedupAfter same later

variable {same}

private theorem dedupAfter_pairwise {kept : α} {items : List α}
    (contiguous : Contiguous same (kept :: items)) :
    (kept :: dedupAfter same kept items).Pairwise fun earlier later =>
      same later earlier = false := by
  induction items generalizing kept with
  | nil => simp [dedupAfter]
  | cons item rest induction =>
      unfold dedupAfter
      split
      · apply induction
        intro first middle last listed
        exact contiguous first middle last
          (listed.trans ((List.sublist_cons_self item rest).cons_cons kept))
      · rename_i different
        have tail : Contiguous same (item :: rest) := by
          intro first middle last listed
          exact contiguous first middle last (listed.cons kept)
        refine List.pairwise_cons.mpr ⟨?_, induction tail⟩
        intro later member
        rcases List.mem_cons.mp member with rfl | behind
        · simpa using different
        · by_contra equal
          have listed : [kept, item, later].Sublist (kept :: item :: rest) :=
            ((List.singleton_sublist.mpr ((dedupAfter_sublist same item
              rest).subset behind)).cons_cons item).cons_cons kept
          exact different (contiguous kept item later listed (by
            simpa using equal))

/-- Of contiguous same items one is kept. -/
theorem dedupBy_pairwise {items : List α} (contiguous : Contiguous same items) :
    (dedupBy same items).Pairwise fun earlier later =>
      same later earlier = false := by
  cases items with
  | nil => exact List.Pairwise.nil
  | cons first rest => exact dedupAfter_pairwise contiguous

end

end Pocketboot.Sorting
