import Pocketboot.DeviceTree.Copies

/-!
# Walks over what a forest means

A walk that looks at a property only by its name and its value, and at a node
only by its name, is a visit of the content of the forest.  What such a walk
returns does not depend on padding, no-operations or name offsets.
-/

namespace Pocketboot.DeviceTree

/-- The actions of a visit. -/
structure Visit (ε σ : Type) where
  prop : σ → Bytes → Bytes → Run ε σ
  enter : σ → Bytes → Run ε σ
  leave : σ → Run ε σ

namespace Visit

variable {ε σ : Type}

/-- A property without a name is passed over. -/
def run (visit : Visit ε σ) : Content → σ → Run ε σ
  | .nil, state => .ok state
  | .prop (some name) value rest, state =>
      visit.prop state name value >>= visit.run rest
  | .prop none _ rest, state => visit.run rest state
  | .node name body rest, state => do
      let state ← visit.enter state name
      let state ← visit.run body state
      let state ← visit.leave state
      visit.run rest state

theorem run_append (visit : Visit ε σ) (first second : Content) (state : σ) :
    visit.run (first.append second) state =
      (visit.run first state >>= visit.run second) := by
  induction first generalizing state with
  | nil => rfl
  | prop name value rest induction =>
      cases name with
      | none => exact induction state
      | some name =>
          rw [Content.append, run, run]
          cases visit.prop state name value with
          | error fault => rfl
          | ok state => exact induction state
  | node name body rest _ induction =>
      rw [Content.append, run, run]
      cases visit.enter state name with
      | error fault => rfl
      | ok state =>
          simp only [Run.ok_bind]
          cases visit.run body state with
          | error fault => rfl
          | ok state =>
              simp only [Run.ok_bind]
              cases visit.leave state with
              | error fault => rfl
              | ok state => exact induction state

/-- The walk sees what a forest means and nothing else of it. -/
structure Describes (visit : Visit ε σ) (strings : Bytes)
    (walk : Walk ε σ) : Prop where
  nop : ∀ state, walk.nop state = .ok state
  prop : ∀ {state property name},
    stringAt strings property.nameoff = some name →
    walk.prop state property = visit.prop state name property.value
  enter : ∀ state name inner,
    walk.enter state name inner =
      (visit.enter state name.text).map (·, false)
  leave : ∀ state, walk.leave state = visit.leave state

theorem Describes.run_eq {visit : Visit ε σ} {strings : Bytes}
    {walk : Walk ε σ} (describes : visit.Describes strings walk)
    {forest : Forest} (named : (forest.content strings).Named) (state : σ) :
    walk.run forest state = visit.run (forest.content strings) state := by
  induction forest generalizing state with
  | nil => rfl
  | nop rest induction =>
      rw [Walk.run, describes.nop, Run.ok_bind, Forest.content]
      exact induction named state
  | prop property rest induction =>
      obtain ⟨named, later⟩ := named
      obtain ⟨name, found⟩ := Option.isSome_iff_exists.mp named
      rw [Walk.run, describes.prop found, Forest.content, found, run]
      congr 1
      funext state
      exact induction later state
  | node name body rest bodyInduction restInduction =>
      obtain ⟨inner, later⟩ := named
      rw [Walk.run, describes.enter, Forest.content, run]
      cases visit.enter state name.text with
      | error fault => rfl
      | ok state =>
          simp only [Except.map, Run.ok_bind, Bool.false_eq_true, if_false,
            describes.leave, bodyInduction inner]
          congr 1
          funext state
          congr 1
          funext state
          exact restInduction later state

end Visit

end Pocketboot.DeviceTree
