import Pocketboot.Kexec.ChosenTree
import Pocketboot.Kexec.ReservedVisit

/-!
# The edit of the `chosen` nodes

What the edit of a tree leaves alone, and what a second one makes of it.
-/

namespace Pocketboot.Kexec

open DeviceTree

/-! ## What the edit leaves alone -/

section

variable {props : List (Bytes × Bytes)} {body : Content}

theorem nodeChosen_ne : nodeChosen ≠ nodeReservedMemory := by decide

theorem run_rechosen (body : Content) {state : ReservedState}
    (root : state.stack = [[]]) :
    reservedVisit.run (rechosen props body) state =
      reservedVisit.run body state := by
  induction body generalizing state with
  | nil => rfl
  | prop name value rest induction =>
      cases name with
      | none => exact induction root
      | some name =>
          rw [rechosen, Visit.run, Visit.run]
          cases stored : reservedVisit.prop state name value with
          | error fault => rfl
          | ok next => exact induction ((storeProp_stack stored).trans root)
  | node name inner rest _ induction =>
      rw [rechosen]
      by_cases chosen : name = nodeChosen
      · have other : name ≠ nodeReservedMemory := chosen ▸ nodeChosen_ne
        rw [run_node_quiet root other, run_node_quiet root other]
        exact induction root
      · rw [if_neg chosen]
        have split : ∀ rest, Content.node name inner rest =
            (Content.node name inner .nil).append rest := fun _ => rfl
        rw [split, split rest, Visit.run_append, Visit.run_append]
        cases visited : reservedVisit.run (.node name inner .nil) state with
        | error fault => rfl
        | ok next => exact induction ((run_stack visited).trans root)

/-- The loop over the reserved nodes does not see the edit. -/
theorem run_withChosen (body : Content) {state : ReservedState}
    (root : state.stack = [[]]) :
    reservedVisit.run (withChosen props body) state =
      reservedVisit.run body state := by
  unfold withChosen
  split
  · exact run_rechosen body root
  · rw [Visit.run_append, run_rechosen body root]
    cases visited : reservedVisit.run body state with
    | error fault => rfl
    | ok next =>
        exact run_node_quiet ((run_stack visited).trans root) nodeChosen_ne _ _

theorem named_withoutBootProps (named : body.Named) :
    (withoutBootProps body).Named := by
  induction body with
  | nil => exact named
  | prop name value rest induction =>
      rw [withoutBootProps]
      split
      · exact induction named.2
      · exact ⟨named.1, induction named.2⟩
  | node name inner rest _ induction =>
      exact ⟨named.1, induction named.2⟩

theorem named_rechosen (named : body.Named) : (rechosen props body).Named := by
  induction body with
  | nil => exact named
  | prop name value rest induction => exact ⟨named.1, induction named.2⟩
  | node name inner rest _ induction =>
      refine ⟨?_, induction named.2⟩
      split
      · exact Content.named_prepend.mpr (named_withoutBootProps named.1)
      · exact named.1

theorem named_append {first second : Content} (named : first.Named)
    (named' : second.Named) : (first.append second).Named := by
  induction first with
  | nil => exact named'
  | prop name value rest induction => exact ⟨named.1, induction named.2⟩
  | node name inner rest _ induction => exact ⟨named.1, induction named.2⟩

theorem named_withChosen (named : body.Named) :
    (withChosen props body).Named := by
  unfold withChosen
  split
  · exact named_rechosen named
  · exact named_append (named_rechosen named)
      ⟨Content.named_prepend.mpr trivial, trivial⟩

end

/-! ## Patching again -/

section

variable {old new : List (Bytes × Bytes)}

theorem chosenProps_replaced (cmdline : Str) (initrd : Option (Nat × Nat)) :
    ∀ item ∈ chosenProps cmdline initrd,
      shouldReplaceChosenProp item.1 = true := by
  intro item member
  rw [chosenProps, List.mem_append, List.mem_append] at member
  obtain bootargs | range | booted := member
  · split at bootargs
    · cases bootargs
    · obtain rfl := List.mem_singleton.mp bootargs
      rfl
  · cases initrd with
    | none => cases range
    | some range' =>
        simp only [Option.elim_some, List.mem_cons, List.not_mem_nil,
          or_false] at range
        obtain rfl | rfl := range <;> rfl
  · obtain rfl := List.mem_singleton.mp booted
    rfl

theorem withoutBootProps_prepend
    (replaced : ∀ item ∈ old, shouldReplaceChosenProp item.1 = true)
    (rest : Content) :
    withoutBootProps (.prepend old rest) = withoutBootProps rest := by
  induction old with
  | nil => rfl
  | cons item old induction =>
      rw [List.forall_mem_cons] at replaced
      rw [Content.prepend_cons, withoutBootProps, Option.any_some,
        if_pos replaced.1, induction replaced.2]

theorem withoutBootProps_idem (body : Content) :
    withoutBootProps (withoutBootProps body) = withoutBootProps body := by
  induction body with
  | nil => rfl
  | prop name value rest induction =>
      by_cases replaced : name.any shouldReplaceChosenProp = true
      · rw [withoutBootProps, if_pos replaced, induction]
      · rw [withoutBootProps, if_neg replaced, withoutBootProps,
          if_neg replaced, induction]
  | node name inner rest _ induction =>
      rw [withoutBootProps, withoutBootProps, induction]

theorem hasChosen_rechosen (body : Content) :
    hasChosen (rechosen old body) = hasChosen body := by
  induction body with
  | nil => rfl
  | prop name value rest induction => exact induction
  | node name inner rest _ induction =>
      rw [rechosen, hasChosen, hasChosen, induction]

theorem hasChosen_append (first second : Content) :
    hasChosen (first.append second) =
      (hasChosen first || hasChosen second) := by
  induction first with
  | nil => rfl
  | prop name value rest induction => exact induction
  | node name inner rest _ induction =>
      rw [Content.append, hasChosen, hasChosen, induction, Bool.or_assoc]

theorem rechosen_append (first second : Content) :
    rechosen new (first.append second) =
      (rechosen new first).append (rechosen new second) := by
  induction first with
  | nil => rfl
  | prop name value rest induction =>
      rw [Content.append, rechosen, rechosen, induction, Content.append]
  | node name inner rest _ induction =>
      rw [Content.append, rechosen, rechosen, induction, Content.append]

theorem rechosen_rechosen
    (replaced : ∀ item ∈ old, shouldReplaceChosenProp item.1 = true)
    (body : Content) :
    rechosen new (rechosen old body) = rechosen new body := by
  induction body with
  | nil => rfl
  | prop name value rest induction =>
      rw [rechosen, rechosen, rechosen, induction]
  | node name inner rest _ induction =>
      rw [rechosen, rechosen, rechosen, induction]
      by_cases chosen : name = nodeChosen
      · rw [if_pos chosen, if_pos chosen, if_pos chosen,
          withoutBootProps_prepend replaced, withoutBootProps_idem]
      · rw [if_neg chosen, if_neg chosen, if_neg chosen]

/-- The last edit stands. -/
theorem withChosen_withChosen
    (replaced : ∀ item ∈ old, shouldReplaceChosenProp item.1 = true)
    (body : Content) :
    withChosen new (withChosen old body) = withChosen new body := by
  by_cases present : hasChosen body = true
  · rw [withChosen, withChosen, withChosen, if_pos present, if_pos present,
      hasChosen_rechosen, if_pos present, rechosen_rechosen replaced]
  · have added : hasChosen ((rechosen old body).append
        (.node nodeChosen (.prepend old .nil) .nil)) = true := by
      rw [hasChosen_append, hasChosen, decide_eq_true rfl, Bool.true_or,
        Bool.or_true]
    rw [withChosen, withChosen, withChosen, if_neg present, if_neg present,
      if_pos added, rechosen_append, rechosen_rechosen replaced, rechosen,
      if_pos rfl, withoutBootProps_prepend replaced]
    rfl

end

end Pocketboot.Kexec
