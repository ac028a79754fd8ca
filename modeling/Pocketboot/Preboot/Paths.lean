import Pocketboot.DeviceTree.Document
import Pocketboot.Preboot.Fdt

/-!
# Paths

The components of a path, and the flags that `find_path` keeps of the open
nodes.
-/

namespace Pocketboot.Preboot

open DeviceTree

/-! ## Paths -/

/-- An absolute path of these components. -/
def pathOf : List Bytes → Bytes
  | [] => [slash]
  | components => components.flatMap (slash :: ·)

/-- The components of a path are not empty, and without slashes. -/
def Components (components : List Bytes) : Prop :=
  ∀ component ∈ components, component ≠ [] ∧ slash ∉ component

instance (components : List Bytes) : Decidable (Components components) :=
  inferInstanceAs (Decidable (∀ component ∈ components, _))

/-- What is behind the first slash of a path. -/
def behind (components : List Bytes) : Bytes :=
  (components.flatMap (slash :: ·)).drop 1

theorem takeWhile_component {first : Bytes} (noSlash : slash ∉ first)
    (components : List Bytes) :
    component (first ++ components.flatMap (slash :: ·)) = first ∧
      afterComponent (first ++ components.flatMap (slash :: ·)) =
        behind components := by
  have other : ∀ byte ∈ first, (byte ≠ slash : Bool) = true := by
    intro byte member
    simp only [ne_eq, decide_eq_true_eq]
    exact fun same => noSlash (same ▸ member)
  rw [component, afterComponent, List.takeWhile_append_of_pos other,
    List.dropWhile_append_of_pos other, behind]
  cases components with
  | nil => simp
  | cons second components => simp

theorem behind_cons (first : Bytes) (components : List Bytes) :
    behind (first :: components) =
      first ++ components.flatMap (slash :: ·) := rfl

theorem components_length_le (components : List Bytes) :
    components.length ≤ (components.flatMap (slash :: ·)).length := by
  induction components with
  | nil => exact Nat.le_refl 0
  | cons first components induction =>
      simp only [List.flatMap_cons, List.length_append, List.length_cons]
      omega

theorem countFrom_behind {components : List Bytes}
    (valid : Components components) {fuel count : Nat}
    (enough : components.length < fuel) :
    countFrom fuel count (behind components) =
      .ok (count + components.length) := by
  induction components generalizing fuel count with
  | nil =>
      obtain ⟨fuel, rfl⟩ := Nat.exists_eq_succ_of_ne_zero (by omega : fuel ≠ 0)
      rfl
  | cons first components induction =>
      obtain ⟨fuel, rfl⟩ := Nat.exists_eq_succ_of_ne_zero (by omega : fuel ≠ 0)
      obtain ⟨full, noSlash⟩ := valid first (.head _)
      have next := (takeWhile_component noSlash components).2
      obtain ⟨byte, bytes, rfl⟩ := List.exists_cons_of_ne_nil full
      have other : byte ≠ slash := fun same => noSlash (same ▸ .head _)
      rw [behind_cons] at *
      simp only [List.cons_append] at next ⊢
      rw [countFrom, if_neg other, next, induction
        (fun component member => valid component (.tail _ member))
        (by simpa using enough), List.length_cons]
      exact congrArg Except.ok (by omega)

theorem componentFrom_behind {components : List Bytes}
    (valid : Components components) {index fuel current : Nat}
    (enough : components.length < fuel) (before : current ≤ index) :
    componentFrom index fuel current (behind components) =
      components[index - current]? := by
  induction components generalizing fuel current with
  | nil =>
      obtain ⟨fuel, rfl⟩ := Nat.exists_eq_succ_of_ne_zero (by omega : fuel ≠ 0)
      rfl
  | cons first components induction =>
      obtain ⟨fuel, rfl⟩ := Nat.exists_eq_succ_of_ne_zero (by omega : fuel ≠ 0)
      obtain ⟨full, noSlash⟩ := valid first (.head _)
      obtain ⟨front, next⟩ := takeWhile_component noSlash components
      have some' : first ++ components.flatMap (slash :: ·) ≠ [] := by
        simp [full]
      rw [behind_cons, componentFrom, if_neg some', front, next]
      by_cases here : current = index
      · subst here
        simp
      · rw [if_neg here, induction
          (fun component member => valid component (.tail _ member))
          (by simpa using enough) (by omega)]
        rw [show index - current = index - (current + 1) + 1 by omega,
          List.getElem?_cons_succ]

/-! ## The nodes on a path -/

theorem append_prefix_iff {α : Type} {front whole : List α} {last : α} :
    front ++ [last] <+: whole ↔
      front <+: whole ∧ whole[front.length]? = some last := by
  constructor
  · rintro ⟨back, rfl⟩
    exact ⟨⟨last :: back, by simp⟩, by simp⟩
  · rintro ⟨⟨back, rfl⟩, next⟩
    rw [List.getElem?_append_right (Nat.le_refl _), Nat.sub_self] at next
    obtain ⟨rest, rfl⟩ : ∃ rest, back = last :: rest := by
      cases back with
      | nil => simp at next
      | cons first rest =>
          simp only [List.getElem?_cons_zero, Option.some.injEq] at next
          exact ⟨rest, by rw [next]⟩
    exact ⟨rest, by simp⟩

/-- The flags of the open nodes say which of them are on the path. -/
structure OnPath (components : List Bytes) (chain : List Bytes)
    (state : PathState) : Prop where
  bound : chain.length ≤ maxDepth
  depth : state.depth = chain.length
  size : state.isOnPath.length = maxDepth
  flags : ∀ index < chain.length, state.isOnPath[index]? =
    some (decide (chain.take (index + 1) <+: [] :: components))

theorem OnPath.initially (components : List Bytes) :
    OnPath components [] ⟨0, List.replicate maxDepth false⟩ where
  bound := Nat.zero_le _
  depth := rfl
  size := List.length_replicate
  flags := by simp

theorem OnPath.leave {components chain : List Bytes} {name : Bytes}
    {state : PathState} (onPath : OnPath components (chain ++ [name]) state) :
    OnPath components chain { state with depth := chain.length } where
  bound := by
    have := onPath.bound
    rw [List.length_append, List.length_singleton] at this
    omega
  depth := rfl
  size := onPath.size
  flags index below := by
    have same := onPath.flags index (by simp; omega)
    rwa [List.take_append_of_le_length (by omega)] at same

theorem OnPath.enter {components chain : List Bytes} {name : Bytes}
    {state : PathState} (onPath : OnPath components chain state)
    (bound : chain.length + 1 ≤ maxDepth) :
    OnPath components (chain ++ [name])
      ⟨chain.length + 1, state.isOnPath.set chain.length
        (decide (chain ++ [name] <+: [] :: components))⟩ where
  bound := by simpa using bound
  depth := by simp
  size := by simpa using onPath.size
  flags index below := by
    rw [List.length_append, List.length_singleton] at below
    rw [List.getElem?_set]
    split
    · rename_i last
      subst last
      rw [if_pos (by rw [onPath.size]; omega),
        List.take_of_length_le (by simp)]
    · rename_i earlier
      rw [onPath.flags index (by omega),
        List.take_append_of_le_length (by omega)]

/-- Whether a node is on the path, from its parent and its name. -/
theorem prefix_iff_component {components chain : List Bytes} {name : Bytes}
    (inner : chain ≠ []) :
    chain ++ [name] <+: [] :: components ↔
      chain <+: [] :: components ∧
        components[chain.length - 1]? = some name := by
  rw [append_prefix_iff]
  obtain ⟨size, length⟩ := Nat.exists_eq_succ_of_ne_zero
    (mt List.length_eq_zero_iff.mp inner)
  rw [length, Nat.succ_eq_add_one, List.getElem?_cons_succ,
    Nat.add_sub_cancel]

section

variable {components : List Bytes}

theorem componentAt_pathOf (valid : Components components) {index : Nat}
    (some' : components ≠ []) :
    componentAt (pathOf components) index = components[index]? := by
  have path : pathOf components = components.flatMap (slash :: ·) := by
    cases components with
    | nil => exact absurd rfl some'
    | cons first components => rfl
  have enough : components.length <
      (components.flatMap (slash :: ·)).length + 1 := by
    have := components_length_le components
    omega
  rw [componentAt, path]
  exact componentFrom_behind valid enough (Nat.zero_le _)

theorem countPathComponents_pathOf (valid : Components components)
    (some' : components ≠ []) :
    countPathComponents (pathOf components) = .ok components.length := by
  have path : pathOf components = components.flatMap (slash :: ·) := by
    cases components with
    | nil => exact absurd rfl some'
    | cons first components => rfl
  have enough : components.length <
      (components.flatMap (slash :: ·)).length + 1 := by
    have := components_length_le components
    omega
  have count := @countFrom_behind _ valid _ 0 enough
  rw [Nat.zero_add] at count
  rw [countPathComponents, path]
  exact count

theorem findPath_steady (path block : Bytes) (targetComponents : Nat) :
    Steady block (findPathBody path targetComponents) := by
  refine Steady.of_next ?_
  intro state cursor token next state' cursor' step
  cases token with
  | beginNode name =>
      obtain ⟨newDepth, _, step⟩ := Run.bind_eq_ok.mp step
      obtain ⟨_, _, step⟩ := Run.bind_eq_ok.mp step
      obtain ⟨isMatch, _, step⟩ := Run.bind_eq_ok.mp step
      dsimp only at step
      split at step
      · cases step
      · cases step
        rfl
  | endNode =>
      obtain ⟨_, _, step⟩ := Run.bind_eq_ok.mp step
      cases step
      rfl
  | prop nameoff value =>
      cases step
      rfl
  | nop =>
      cases step
      rfl
  | fin => cases step

theorem isMatch_eq (valid : Components components) (some' : components ≠ [])
    {chain : List Bytes} {state : PathState}
    (onPath : OnPath components chain state) (name : Bytes) :
    isMatch (pathOf components) state (chain.length + 1) name =
      .ok (decide (chain ++ [name] <+: [] :: components)) := by
  rw [isMatch]
  by_cases top : chain = []
  · subst top
    simp
  · have positive : 0 < chain.length := List.length_pos_iff.mpr top
    have parent := onPath.flags (chain.length - 1) (by omega)
    rw [if_neg (by omega), onPath.depth, indexOrPanic, parent,
      componentAt_pathOf valid some', Nat.sub_add_cancel positive,
      List.take_length, show chain.length + 1 - 2 = chain.length - 1 by omega]
    simp only [Run.ok_bind, Run.pure_eq_ok, prefix_iff_component top,
      Bool.decide_and]

/-- What `find_path` does at a node. -/
theorem findPathBody_beginNode (valid : Components components)
    (some' : components ≠ []) {chain : List Bytes} {state : PathState}
    (onPath : OnPath components chain state)
    (bound : chain.length + 1 ≤ maxDepth) (name : Bytes) (cursor next : Nat) :
    findPathBody (pathOf components) components.length state cursor
        (.beginNode name) next =
      if chain ++ [name] = [] :: components then .ok (.done cursor)
      else .ok (.more ⟨chain.length + 1, state.isOnPath.set chain.length
        (decide (chain ++ [name] <+: [] :: components))⟩ next) := by
  have small : maxDepth < 2 ^ 32 := by decide
  have deeper : checkedAdd state.depth 1 = some (chain.length + 1) := by
    rw [onPath.depth, checkedAdd_eq_some]
    exact ⟨by unfold wordSize; omega, rfl⟩
  have wanted : (decide (chain ++ [name] <+: [] :: components) = true ∧
      components.length = chain.length + 1 - 1) ↔
        chain ++ [name] = [] :: components := by
    rw [decide_eq_true_eq]
    constructor
    · rintro ⟨isPrefix, length⟩
      exact isPrefix.eq_of_length (by simp; omega)
    · intro same
      have length := congrArg List.length same
      simp only [List.length_append, List.length_cons, List.length_nil]
        at length
      exact ⟨by rw [same], by omega⟩
  simp only [findPathBody, deeper, Run.ofOption, Run.ok_bind,
    Run.ensure_of bound, isMatch_eq valid some' onPath, wanted]
  split
  · rfl
  · rfl

theorem findPath_searches (valid : Components components)
    (some' : components ≠ []) (block : Bytes) :
    Searches block (findPathBody (pathOf components) components.length)
      (OnPath components) (fun placed => placed.chain.length ≤ maxDepth)
      (fun placed => placed.chain = [] :: components) where
  nop := rfl
  prop := rfl
  found := by
    intro chain state name inner cursor next rest onPath _ bound wanted
    simp only [List.length_append, List.length_singleton] at bound
    rw [findPathBody_beginNode valid some' onPath bound, if_pos wanted]
  enter := by
    intro chain state name inner cursor next rest onPath _ bound unwanted
    simp only [List.length_append, List.length_singleton] at bound
    refine ⟨_, onPath.enter bound, ?_⟩
    rw [findPathBody_beginNode valid some' onPath bound, if_neg unwanted]
  leave := by
    intro chain name state cursor next onPath
    have depth := onPath.depth
    rw [List.length_append, List.length_singleton] at depth
    refine ⟨_, onPath.leave, ?_⟩
    simp [findPathBody, depth, Run.ensure_of]

end

end Pocketboot.Preboot
