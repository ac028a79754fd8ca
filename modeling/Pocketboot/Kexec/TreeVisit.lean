import Pocketboot.DeviceTree.Visit
import Pocketboot.Kexec.Totality
import Pocketboot.Kexec.TreeContent

/-!
# Visits of owned trees

The visit of a node passes its properties and then its children.  Over
properties of distinct names a visit that acts on two of them looks both up,
in whichever order they stand.
-/

namespace Pocketboot.Kexec

open DeviceTree ContractNode

/-! ## Two properties of a node -/

section

variable {ε σ : Type} {good : σ → Prop} {prop : σ → Bytes → Bytes → Run ε σ}
  {first second : Bytes} {onFirst onSecond : σ → Bytes → Run ε σ}

/-- Do something with a value that may be missing. -/
def whenSome (act : σ → Bytes → Run ε σ) (value : Option Bytes) (state : σ) :
    Run ε σ :=
  value.elim (.ok state) (act state)

/-- A visit that acts on two properties, in whichever order they stand, and
passes over all others. -/
structure ReadsPair (good : σ → Prop) (prop : σ → Bytes → Bytes → Run ε σ)
    (first second : Bytes) (onFirst onSecond : σ → Bytes → Run ε σ) :
    Prop where
  distinct : first ≠ second
  atFirst : ∀ {state}, good state → ∀ value,
    prop state first value = onFirst state value
  atSecond : ∀ {state}, good state → ∀ value,
    prop state second value = onSecond state value
  atOther : ∀ {state}, good state → ∀ name value, name ≠ first →
    name ≠ second → prop state name value = .ok state
  keepsFirst : ∀ {state state' value}, good state →
    onFirst state value = .ok state' → good state'
  keepsSecond : ∀ {state state' value}, good state →
    onSecond state value = .ok state' → good state'
  swaps : ∀ {state result} (value value'), good state →
    ((onSecond state value' >>= (onFirst · value)) = .ok result ↔
      (onFirst state value >>= (onSecond · value')) = .ok result)

private theorem bind_ok (run : Run ε σ) :
    (run >>= fun state => Except.ok state) = run := by
  cases run <;> rfl

/-- Over properties of distinct names the order does not matter. -/
theorem ReadsPair.foldlM_eq_ok
    (reads : ReadsPair good prop first second onFirst onSecond)
    {props : List (Bytes × Bytes)} (keys : (props.map Prod.fst).Nodup)
    {state result : σ} (begins : good state) :
    props.foldlM (fun state item => prop state item.1 item.2) state =
        .ok result ↔
      (whenSome onFirst (lookup first props) state >>=
        whenSome onSecond (lookup second props)) = .ok result := by
  induction props generalizing state with
  | nil => rfl
  | cons item props induction =>
      obtain ⟨key, value⟩ := item
      rw [List.map_cons, List.nodup_cons] at keys
      obtain ⟨fresh, keys⟩ := keys
      rw [List.foldlM_cons, lookup, lookup]
      dsimp only
      by_cases isFirst : key = first
      · subst isFirst
        rw [if_pos rfl, if_neg reads.distinct, reads.atFirst begins,
          Run.bind_eq_ok]
        change _ ↔ (onFirst state value >>= _) = _
        rw [Run.bind_eq_ok]
        refine exists_congr fun next => and_congr_right fun step => ?_
        rw [induction keys (reads.keepsFirst begins step),
          lookup_eq_none.mpr fresh]
        rfl
      · by_cases isSecond : key = second
        · subst isSecond
          rw [if_neg isFirst, if_pos rfl, reads.atSecond begins,
            Run.bind_eq_ok]
          have later : (∃ next, onSecond state value = .ok next ∧
              props.foldlM (fun state item => prop state item.1 item.2) next =
                .ok result) ↔
              (onSecond state value >>=
                whenSome onFirst (lookup first props)) = .ok result := by
            rw [Run.bind_eq_ok]
            refine exists_congr fun next => and_congr_right fun step => ?_
            rw [induction keys (reads.keepsSecond begins step),
              lookup_eq_none.mpr fresh]
            exact iff_of_eq (congrArg (· = _) (bind_ok _))
          rw [later]
          cases lookup first props with
          | none => exact iff_of_eq (congrArg (· = _) (bind_ok _))
          | some other => exact reads.swaps other value begins
        · rw [if_neg isFirst, if_neg isSecond,
            reads.atOther begins key value isFirst isSecond, Run.ok_bind]
          exact induction keys begins

end

/-! ## Visits of an owned tree -/

section

variable {ε σ : Type}

/-- The visit of one node. -/
def visitNode (visit : Visit ε σ) (state : σ) (node : ContractNode) :
    Run ε σ := do
  let state ← visit.enter state node.name
  let state ← visit.run node.body state
  visit.leave state

theorem run_propsContent (visit : Visit ε σ) (props : List (Bytes × Bytes))
    (rest : Content) (state : σ) :
    visit.run (propsContent props rest) state =
      (props.foldlM (fun state item => visit.prop state item.1 item.2) state >>=
        visit.run rest) := by
  induction props generalizing state with
  | nil => rfl
  | cons item props induction =>
      obtain ⟨name, value⟩ := item
      rw [propsContent, Visit.run, List.foldlM_cons]
      cases visit.prop state name value with
      | error fault => rfl
      | ok state => exact induction state

theorem run_siblings (visit : Visit ε σ) (nodes : List ContractNode)
    (state : σ) :
    visit.run (siblings nodes) state = nodes.foldlM (visitNode visit) state := by
  induction nodes generalizing state with
  | nil => rfl
  | cons node nodes induction =>
      rw [siblings, Visit.run, List.foldlM_cons, visitNode]
      cases visit.enter state node.name with
      | error fault => rfl
      | ok state =>
          simp only [Run.ok_bind]
          cases visit.run node.body state with
          | error fault => rfl
          | ok state =>
              simp only [Run.ok_bind]
              cases visit.leave state with
              | error fault => rfl
              | ok state => exact induction state

theorem run_body (visit : Visit ε σ) (node : ContractNode) (state : σ) :
    visit.run node.body state =
      (node.props.foldlM (fun state item => visit.prop state item.1 item.2)
        state >>= node.children.foldlM (visitNode visit)) := by
  cases node with
  | mk name props children =>
      rw [body, run_propsContent]
      congr 1
      funext state
      exact run_siblings visit children state

end

/-! ## Cell properties -/

/-- A cell property is one cell, where it is there. -/
def OneCell (value : Option Bytes) : Prop :=
  ∀ cell, value = some cell → cell.length = 4

section

variable {σ : Type} {good : σ → Prop} {prop : σ → Bytes → Bytes → Result σ}
  {first second : Bytes} {update update' : σ → Nat → σ}

/-- A visit that stores two cell properties. -/
structure ReadsCells (good : σ → Prop) (prop : σ → Bytes → Bytes → Result σ)
    (first second : Bytes) (update update' : σ → Nat → σ) : Prop where
  distinct : first ≠ second
  atFirst : ∀ {state}, good state → ∀ value,
    prop state first value = update state <$> propertyU32 value first
  atSecond : ∀ {state}, good state → ∀ value,
    prop state second value = update' state <$> propertyU32 value second
  atOther : ∀ {state}, good state → ∀ name value, name ≠ first →
    name ≠ second → prop state name value = .ok state
  keeps : ∀ {state}, good state → ∀ cells,
    good (update state cells) ∧ good (update' state cells)
  commutes : ∀ state cells cells',
    update (update' state cells') cells = update' (update state cells) cells'

/-- The state with the number of a cell property that may be missing. -/
def storeCells (update : σ → Nat → σ) (value : Option Bytes) (state : σ) : σ :=
  value.elim state fun cell => update state (Bytes.ofBe cell)

theorem update_eq_ok {update : σ → Nat → σ} {state result : σ}
    {value name : Bytes} :
    update state <$> propertyU32 value name = .ok result ↔
      value.length = 4 ∧ result = update state (Bytes.ofBe value) := by
  rw [Run.map_eq_ok]
  constructor
  · rintro ⟨cells, read, rfl⟩
    obtain ⟨one, rfl⟩ := propertyU32_eq_ok.mp read
    exact ⟨one, rfl⟩
  · rintro ⟨one, rfl⟩
    exact ⟨_, propertyU32_eq_ok.mpr ⟨one, rfl⟩, rfl⟩

theorem whenSome_update {update : σ → Nat → σ} {state result : σ}
    {value : Option Bytes} {name : Bytes} :
    whenSome (fun state value => update state <$> propertyU32 value name)
        value state = .ok result ↔
      OneCell value ∧ result = storeCells update value state := by
  cases value with
  | none => simp [whenSome, OneCell, storeCells, eq_comm]
  | some cell => simp [whenSome, OneCell, storeCells, update_eq_ok]

theorem ReadsCells.foldlM_eq_ok
    (reads : ReadsCells good prop first second update update')
    {props : List (Bytes × Bytes)} (keys : (props.map Prod.fst).Nodup)
    {state result : σ} (begins : good state) :
    props.foldlM (fun state item => prop state item.1 item.2) state =
        .ok result ↔
      OneCell (lookup first props) ∧ OneCell (lookup second props) ∧
        result = storeCells update' (lookup second props)
          (storeCells update (lookup first props) state) := by
  have pair : ReadsPair good prop first second
      (fun state value => update state <$> propertyU32 value first)
      (fun state value => update' state <$> propertyU32 value second) := by
    refine ⟨reads.distinct, reads.atFirst, reads.atSecond, reads.atOther,
      ?_, ?_, ?_⟩
    · intro state state' value holds stored
      obtain ⟨_, rfl⟩ := update_eq_ok.mp stored
      exact (reads.keeps holds _).1
    · intro state state' value holds stored
      obtain ⟨_, rfl⟩ := update_eq_ok.mp stored
      exact (reads.keeps holds _).2
    · intro state result value value' _
      simp only [Run.bind_eq_ok, update_eq_ok]
      constructor
      · rintro ⟨_, ⟨one', rfl⟩, one, rfl⟩
        exact ⟨_, ⟨one, rfl⟩, one', reads.commutes _ _ _⟩
      · rintro ⟨_, ⟨one, rfl⟩, one', rfl⟩
        exact ⟨_, ⟨one', rfl⟩, one, (reads.commutes _ _ _).symm⟩
  rw [pair.foldlM_eq_ok keys begins, Run.bind_eq_ok]
  simp only [whenSome_update]
  constructor
  · rintro ⟨_, ⟨one, rfl⟩, one', rfl⟩
    exact ⟨one, one', rfl⟩
  · rintro ⟨one, one', rfl⟩
    exact ⟨_, ⟨one, rfl⟩, one', rfl⟩

end

end Pocketboot.Kexec
