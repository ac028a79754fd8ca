import Pocketboot.DeviceTree.Loop

/-!
# Walks over a forest

A loop body that goes on after every token, or after a whole node, is a walk:
it has a state and one action for each constructor of `Forest`.  `loop_forest`
replaces the cursor arithmetic of such a loop by the structural recursion
`Walk.run`.
-/

namespace Pocketboot.DeviceTree

/-- The actions of a walk.  `enter` sees the whole node and says whether its
body is passed over. -/
structure Walk (ε σ : Type) where
  nop : σ → Run ε σ
  prop : σ → Property → Run ε σ
  enter : σ → NodeName → Forest → Run ε (σ × Bool)
  leave : σ → Run ε σ

namespace Walk

variable {ε σ : Type}

def run (walk : Walk ε σ) : Forest → σ → Run ε σ
  | .nil, state => .ok state
  | .nop rest, state => walk.nop state >>= walk.run rest
  | .prop property rest, state => walk.prop state property >>= walk.run rest
  | .node name body rest, state => do
      let (state, passed) ← walk.enter state name body
      if passed then walk.run rest state
      else
        let state ← walk.run body state
        let state ← walk.leave state
        walk.run rest state

theorem run_append (walk : Walk ε σ) (first second : Forest) (state : σ) :
    walk.run (first.append second) state =
      (walk.run first state >>= walk.run second) := by
  induction first generalizing state with
  | nil => rfl
  | nop rest induction =>
      simp only [Forest.append, run]
      cases walk.nop state with
      | error fault => rfl
      | ok state => exact induction state
  | prop property rest induction =>
      simp only [Forest.append, run]
      cases walk.prop state property with
      | error fault => rfl
      | ok state => exact induction state
  | node name body rest _ induction =>
      simp only [Forest.append, run]
      cases walk.enter state name body with
      | error fault => rfl
      | ok entered =>
          obtain ⟨state, passed⟩ := entered
          cases passed with
          | true => exact induction state
          | false =>
              simp only [Run.ok_bind, Bool.false_eq_true, if_false]
              cases walk.run body state with
              | error fault => rfl
              | ok state =>
                  simp only [Run.ok_bind]
                  cases walk.leave state with
                  | error fault => rfl
                  | ok state => exact induction state

end Walk

section

variable {ε σ ρ : Type} {reader : BlockReader ε} {block : Bytes}
  {body : Body ε σ ρ}

/-- The loop body performs the actions of the walk. -/
structure Follows (block : Bytes) (body : Body ε σ ρ) (walk : Walk ε σ) :
    Prop where
  nop : ∀ {state cursor rest}, At block cursor (be32 nopToken ++ rest) →
    body state cursor .nop (cursor + 4) =
      (walk.nop state).map (Next.more · (cursor + 4))
  prop : ∀ {state cursor property rest},
    At block cursor (property.bytes ++ rest) →
    body state cursor (.prop property.nameoff property.value)
        (cursor + property.bytes.length) =
      (walk.prop state property).map
        (Next.more · (cursor + property.bytes.length))
  endNode : ∀ {state cursor rest},
    At block cursor (be32 endNodeToken ++ rest) →
    body state cursor .endNode (cursor + 4) =
      (walk.leave state).map (Next.more · (cursor + 4))
  beginNode : ∀ {state cursor name inner rest},
    At block cursor ((Forest.node name inner .nil).bytes ++ rest) →
    body state cursor (.beginNode name.text) (cursor + name.bytes.length) =
      (walk.enter state name inner).map fun (state, passed) =>
        .more state (cursor +
          if passed then (Forest.node name inner .nil).bytes.length
          else name.bytes.length)

/-- The same of the states a loop is in at a level of nesting, when the walk
keeps to such states. -/
structure FollowsWithin (within : Nat → σ → Prop) (block : Bytes)
    (body : Body ε σ ρ) (walk : Walk ε σ) : Prop where
  nop : ∀ {level state cursor rest}, within level state →
    At block cursor (be32 nopToken ++ rest) →
    body state cursor .nop (cursor + 4) =
      (walk.nop state).map (Next.more · (cursor + 4))
  prop : ∀ {level state cursor property rest}, within level state →
    At block cursor (property.bytes ++ rest) →
    body state cursor (.prop property.nameoff property.value)
        (cursor + property.bytes.length) =
      (walk.prop state property).map
        (Next.more · (cursor + property.bytes.length))
  endNode : ∀ {level state cursor rest}, within (level + 1) state →
    At block cursor (be32 endNodeToken ++ rest) →
    body state cursor .endNode (cursor + 4) =
      (walk.leave state).map (Next.more · (cursor + 4))
  beginNode : ∀ {level state cursor name inner rest}, within level state →
    At block cursor ((Forest.node name inner .nil).bytes ++ rest) →
    body state cursor (.beginNode name.text) (cursor + name.bytes.length) =
      (walk.enter state name inner).map fun (state, passed) =>
        .more state (cursor +
          if passed then (Forest.node name inner .nil).bytes.length
          else name.bytes.length)
  keepsNop : ∀ {level state state'}, within level state →
    walk.nop state = .ok state' → within level state'
  keepsProp : ∀ {level state property state'}, within level state →
    walk.prop state property = .ok state' → within level state'
  enters : ∀ {level state name inner state' passed}, within level state →
    walk.enter state name inner = .ok (state', passed) →
      within (if passed then level else level + 1) state'
  leaves : ∀ {level state state'}, within (level + 1) state →
    walk.leave state = .ok state' → within level state'

theorem Follows.within {walk : Walk ε σ} (follows : Follows block body walk) :
    FollowsWithin (fun _ _ => True) block body walk where
  nop := fun _ => follows.nop
  prop := fun _ => follows.prop
  endNode := fun _ => follows.endNode
  beginNode := fun _ => follows.beginNode
  keepsNop := fun _ _ => trivial
  keepsProp := fun _ _ => trivial
  enters := fun _ _ => trivial
  leaves := fun _ _ => trivial

theorem loop_nop (steady : Steady block body) {state : σ} {cursor : Nat}
    {rest : Bytes} (place : At block cursor (be32 nopToken ++ rest)) :
    loop reader block body state cursor =
      (body state cursor .nop (cursor + 4) >>=
        continueLoop reader block body) := by
  have place' : At block cursor (Lexeme.nop.bytes ++ rest) := place
  have step : loop reader block body state cursor = _ := loop_at steady place'
  simpa [Lexeme.bytes, Lexeme.token] using step

theorem loop_endNode (steady : Steady block body) {state : σ} {cursor : Nat}
    {rest : Bytes} (place : At block cursor (be32 endNodeToken ++ rest)) :
    loop reader block body state cursor =
      (body state cursor .endNode (cursor + 4) >>=
        continueLoop reader block body) := by
  have place' : At block cursor (Lexeme.endNode.bytes ++ rest) := place
  have step : loop reader block body state cursor = _ := loop_at steady place'
  simpa [Lexeme.bytes, Lexeme.token] using step

theorem loop_fin (steady : Steady block body) {state : σ} {cursor : Nat}
    {rest : Bytes} (place : At block cursor (be32 endToken ++ rest)) :
    loop reader block body state cursor =
      (body state cursor .fin (cursor + 4) >>=
        continueLoop reader block body) := by
  have place' : At block cursor (Lexeme.fin.bytes ++ rest) := place
  have step : loop reader block body state cursor = _ := loop_at steady place'
  simpa [Lexeme.bytes, Lexeme.token] using step

theorem loop_prop (steady : Steady block body) {state : σ} {cursor : Nat}
    {property : Property} {rest : Bytes}
    (place : At block cursor (property.bytes ++ rest)) :
    loop reader block body state cursor =
      (body state cursor (.prop property.nameoff property.value)
          (cursor + property.bytes.length) >>=
        continueLoop reader block body) := by
  have place' : At block cursor ((Lexeme.prop property).bytes ++ rest) := place
  exact loop_at steady place'

theorem loop_beginNode (steady : Steady block body) {state : σ} {cursor : Nat}
    {name : NodeName} {rest : Bytes}
    (place : At block cursor (name.bytes ++ rest)) :
    loop reader block body state cursor =
      (body state cursor (.beginNode name.text) (cursor + name.bytes.length) >>=
        continueLoop reader block body) := by
  have place' : At block cursor ((Lexeme.beginNode name).bytes ++ rest) := place
  exact loop_at steady place'

theorem At.nop_rest {cursor : Nat} {rest : Bytes}
    (place : At block cursor (be32 nopToken ++ rest)) :
    At block (cursor + 4) rest := place.skip_be32

theorem At.prop_rest {cursor : Nat} {property : Property} {rest : Bytes}
    (place : At block cursor (property.bytes ++ rest)) :
    At block (cursor + property.bytes.length) rest := by
  have place' : At block cursor ((Lexeme.prop property).bytes ++ rest) := place
  exact place'.next

theorem At.name_rest {cursor : Nat} {name : NodeName} {rest : Bytes}
    (place : At block cursor (name.bytes ++ rest)) :
    At block (cursor + name.bytes.length) rest := by
  have place' : At block cursor ((Lexeme.beginNode name).bytes ++ rest) := place
  exact place'.next

theorem At.forest_rest {cursor : Nat} {forest : Forest} {rest : Bytes}
    (place : At block cursor (forest.bytes ++ rest)) :
    At block (cursor + forest.bytes.length) rest :=
  place.advance forest.bytes_length_mod

/-- A walk stays at its level. -/
theorem FollowsWithin.run_within {within : Nat → σ → Prop} {walk : Walk ε σ}
    (follows : FollowsWithin within block body walk) {forest : Forest}
    {level : Nat} {state state' : σ} (inside : within level state)
    (walked : walk.run forest state = .ok state') : within level state' := by
  induction forest generalizing level state state' with
  | nil =>
      cases walked
      exact inside
  | nop more induction =>
      obtain ⟨next, step, walked⟩ := Run.bind_eq_ok.mp walked
      exact induction (follows.keepsNop inside step) walked
  | prop property more induction =>
      obtain ⟨next, step, walked⟩ := Run.bind_eq_ok.mp walked
      exact induction (follows.keepsProp inside step) walked
  | node name inner more innerInduction moreInduction =>
      obtain ⟨⟨next, passed⟩, step, walked⟩ := Run.bind_eq_ok.mp walked
      have entered := follows.enters inside step
      cases passed with
      | true => exact moreInduction entered walked
      | false =>
          obtain ⟨deep, below, walked⟩ := Run.bind_eq_ok.mp walked
          obtain ⟨left, leaving, walked⟩ := Run.bind_eq_ok.mp walked
          exact moreInduction
            (follows.leaves (innerInduction entered below) leaving) walked

/-- The loop passes over a forest as the walk does. -/
theorem loop_forest_within (steady : Steady block body)
    {within : Nat → σ → Prop} {walk : Walk ε σ}
    (follows : FollowsWithin within block body walk) (forest : Forest)
    {level : Nat} {state : σ} {cursor : Nat} {rest : Bytes}
    (inside : within level state)
    (place : At block cursor (forest.bytes ++ rest)) :
    loop reader block body state cursor =
      (walk.run forest state >>= fun state =>
        loop reader block body state (cursor + forest.bytes.length)) := by
  induction forest generalizing level state cursor rest with
  | nil => rfl
  | nop more induction =>
      rw [Forest.bytes, List.append_assoc] at place
      rw [loop_nop steady place, follows.nop inside place, Walk.run]
      cases step : walk.nop state with
      | error fault => rfl
      | ok state =>
          have kept := follows.keepsNop inside step
          have tail := @induction _ state _ _ kept place.nop_rest
          simp only [Except.map, Run.ok_bind, continueLoop, tail]
          simp [Forest.bytes, Nat.add_assoc]
  | prop property more induction =>
      rw [Forest.bytes, List.append_assoc] at place
      rw [loop_prop steady place, follows.prop inside place, Walk.run]
      cases step : walk.prop state property with
      | error fault => rfl
      | ok state =>
          have kept := follows.keepsProp inside step
          have tail := @induction _ state _ _ kept place.prop_rest
          simp only [Except.map, Run.ok_bind, continueLoop, tail]
          simp [Forest.bytes, Nat.add_assoc]
  | node name inner more innerInduction moreInduction =>
      have whole : At block cursor ((Forest.node name inner .nil).bytes ++
          (more.bytes ++ rest)) := by
        simpa [Forest.bytes] using place
      have named : At block cursor (name.bytes ++ (inner.bytes ++
          (be32 endNodeToken ++ (more.bytes ++ rest)))) := by
        simpa [Forest.bytes] using place
      rw [loop_beginNode steady named, follows.beginNode inside whole, Walk.run]
      cases step : walk.enter state name inner with
      | error fault => rfl
      | ok entered =>
          obtain ⟨state, passed⟩ := entered
          have kept := follows.enters inside step
          cases passed with
          | true =>
              have tail := @moreInduction _ state _ _ kept whole.forest_rest
              simp only [Except.map, Run.ok_bind, continueLoop, if_true, tail]
              simp [Forest.bytes, Nat.add_assoc]
          | false =>
              have below := named.name_rest
              have closing := below.forest_rest
              have first := @innerInduction _ state _ _ kept below
              simp only [Except.map, Run.ok_bind, continueLoop,
                Bool.false_eq_true, if_false, first]
              cases walked : walk.run inner state with
              | error fault => rfl
              | ok state =>
                  have deep := follows.run_within kept walked
                  simp only [Run.ok_bind]
                  rw [loop_endNode steady closing,
                    follows.endNode deep closing]
                  cases leaving : walk.leave state with
                  | error fault => rfl
                  | ok state =>
                      have left := follows.leaves deep leaving
                      have tail := @moreInduction _ state _ _ left
                        closing.skip_be32
                      simp only [Except.map, Run.ok_bind, continueLoop, tail]
                      simp [Forest.bytes, Nat.add_assoc]

theorem loop_forest (steady : Steady block body) {walk : Walk ε σ}
    (follows : Follows block body walk) (forest : Forest) {state : σ}
    {cursor : Nat} {rest : Bytes}
    (place : At block cursor (forest.bytes ++ rest)) :
    loop reader block body state cursor =
      (walk.run forest state >>= fun state =>
        loop reader block body state (cursor + forest.bytes.length)) :=
  @loop_forest_within _ _ _ _ _ _ steady _ _ follows.within forest 0 _ _ _
    trivial place

end

end Pocketboot.DeviceTree
