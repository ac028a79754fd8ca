import Pocketboot.Base.Utf8
import Pocketboot.DeviceTree.Listing
import Pocketboot.DtboMask.Fdt

/-!
# What the parser returns of a tree

A blob that the parser accepts encodes a tree.  The set of paths and the map of
properties are those of the tree, with the names that lead to a node joined
into one path.
-/

namespace Pocketboot.DtboMask

open DeviceTree

/-! ## The readers -/

theorem fdtU32_word {bytes : Bytes} {offset value : Nat}
    (read : fdtU32 bytes offset = .ok value) : WordAt bytes offset value := by
  obtain ⟨stop, bounded, read⟩ := Run.bind_eq_ok.mp read
  rw [Run.ofOption_eq_ok, Option.filter_eq_some_iff, checkedAdd_eq_some]
    at bounded
  obtain ⟨⟨_, rfl⟩, inside⟩ := bounded
  obtain ⟨piece, sliced, read⟩ := Run.bind_eq_ok.mp read
  obtain ⟨_, _, rfl⟩ := sliceOrPanic_eq_ok.mp sliced
  exact ⟨of_decide_eq_true inside, Except.ok.inj read⟩

theorem fdtUsize_word {bytes : Bytes} {offset value : Nat}
    (read : fdtUsize bytes offset = .ok value) : WordAt bytes offset value := by
  obtain ⟨word, read, checked⟩ := Run.bind_eq_ok.mp read
  obtain ⟨_, _, same⟩ := Run.bind_eq_ok.mp checked
  rw [← Except.ok.inj same]
  exact fdtU32_word read

private theorem textAt_slice {bytes text rest : Bytes} {offset stop : Nat}
    (split : (bytes.take stop).drop offset = text ++ 0 :: rest) :
    offset + text.length < stop ∧ offset + text.length < bytes.length ∧
      Bytes.slice bytes offset (offset + text.length) = text := by
  have length := congrArg List.length split
  simp only [List.length_drop, List.length_take, List.length_append,
    List.length_cons] at length
  refine ⟨by omega, by omega, ?_⟩
  have front := congrArg (List.take text.length) split
  rw [List.take_left, List.drop_take, List.take_take,
    Nat.min_eq_left (by omega)] at front
  rwa [Bytes.slice, Nat.add_sub_cancel_left]

theorem fdtCStringAt_eq_ok {bytes : Bytes} {offset stop next : Nat}
    {text : Text} : fdtCStringAt bytes offset stop = .ok (text, next) ↔
      stop ≤ bytes.length ∧ textAt bytes stop offset = some text.utf8 ∧
        next = offset + text.utf8.length + 1 := by
  rw [fdtCStringAt, Run.bind_eq_ok, textAt, stringAt_eq_some]
  have piece : Bytes.slice bytes offset stop =
      (bytes.take stop).drop offset := by
    rw [Bytes.slice, List.drop_take]
  constructor
  · rintro ⟨_, ordered, read⟩
    rw [Run.ensure_eq_ok, not_or, not_le, not_lt] at ordered
    rw [sliceOrPanic_of ordered.1.le ordered.2, Run.ok_bind,
      Run.bind_eq_ok] at read
    obtain ⟨relativeEnd, found, read⟩ := read
    rw [Run.ofOption_eq_ok, nulPosition_eq_some, piece] at found
    obtain ⟨name, rest, noNul, split, rfl⟩ := found
    obtain ⟨_, inside, named⟩ := textAt_slice split
    dsimp only at read
    rw [sliceOrPanic_of (by omega) (by omega), Run.ok_bind, named,
      Run.bind_eq_ok] at read
    obtain ⟨value, valid, read⟩ := read
    rw [Run.ofOption_eq_ok] at valid
    obtain ⟨rfl, rfl⟩ := Prod.mk.inj (Except.ok.inj read)
    rw [Text.utf8_of_ofUtf8 valid]
    exact ⟨ordered.2, ⟨noNul, rest, split⟩, rfl⟩
  · rintro ⟨whole, ⟨noNul, rest, split⟩, rfl⟩
    obtain ⟨before, inside, named⟩ := textAt_slice split
    have found : nulPosition (Bytes.slice bytes offset stop) =
        some text.utf8.length :=
      nulPosition_eq_some.mpr ⟨text.utf8, rest, noNul, piece.trans split, rfl⟩
    refine ⟨(), Run.ensure_of (by omega) _, ?_⟩
    rw [sliceOrPanic_of (by omega) whole, Run.ok_bind, found]
    dsimp only [Run.ofOption, Run.ok_bind]
    rw [sliceOrPanic_of (by omega) (by omega), Run.ok_bind, named,
      Text.ofUtf8_utf8]
    rfl

/-- A value is a string when it is the string's bytes and one zero. -/
theorem fdtString_eq_ok {value : Bytes} {text : Text} :
    fdtString value = .ok text ↔
      (0 : UInt8) ∉ text.utf8 ∧ value = text.utf8 ++ [0] := by
  rw [fdtString, Run.bind_eq_ok]
  constructor
  · rintro ⟨⟨text', next⟩, read, checked⟩
    obtain ⟨_, ended, same⟩ := Run.bind_eq_ok.mp checked
    obtain rfl := Except.ok.inj same
    rw [Run.ensure_eq_ok] at ended
    rw [fdtCStringAt_eq_ok, textAt, stringAt_eq_some, List.take_length,
      List.drop_zero] at read
    obtain ⟨_, ⟨noNul, rest, split⟩, whole⟩ := read
    have length := congrArg List.length split
    simp only [List.length_append, List.length_cons] at length
    obtain rfl : rest = [] := List.length_eq_zero_iff.mp (by omega)
    exact ⟨noNul, split⟩
  · rintro ⟨noNul, rfl⟩
    refine ⟨(text, text.utf8.length + 1), ?_, ?_⟩
    · rw [fdtCStringAt_eq_ok, textAt, stringAt_eq_some, List.take_length,
        List.drop_zero]
      exact ⟨le_refl _, ⟨noNul, [], rfl⟩, by omega⟩
    · rw [Run.bind_eq_ok]
      exact ⟨(), Run.ensure_of (by simp) _, rfl⟩

theorem alignFdt_eq {value aligned : Nat}
    (result : alignFdt value = .ok aligned) : aligned = align4 value := by
  rw [alignFdt, Run.ofOption_eq_ok, Option.map_eq_some_iff] at result
  obtain ⟨sum, added, rfl⟩ := result
  obtain ⟨small, rfl⟩ := checkedAdd_eq_some.mp added
  exact maskDown_four small

/-! ## One token -/

/-- What reading a token does to the variables of the loop. -/
inductive Moves (bytes : Bytes) (extents : Extents) (state : Parse) :
    Option Parse → Prop where
  | beginNode {name path : Text}
      (word : WordAt bytes state.cursor beginNodeToken)
      (named : textAt bytes extents.structEnd (state.cursor + 4) =
        some name.utf8)
      (inside : align4 (state.cursor + 4 + name.utf8.length + 1) ≤
        extents.structEnd)
      (joined : nodePath state.stack.head? name = .ok path)
      (fresh : state.nodes.get path = none) :
      Moves bytes extents state (some
        ⟨align4 (state.cursor + 4 + name.utf8.length + 1),
          path :: state.stack, state.nodes.insert path (),
          state.properties⟩)
  | endNode {top : Text} {stack : List Text}
      (word : WordAt bytes state.cursor endNodeToken)
      (opened : state.stack = top :: stack) :
      Moves bytes extents state (some
        ⟨state.cursor + 4, stack, state.nodes, state.properties⟩)
  | prop {nameoff : Nat} {value : Bytes} {name top : Text}
      {stack : List Text}
      (word : WordAt bytes state.cursor propToken)
      (size : WordAt bytes (state.cursor + 4) value.length)
      (offset : WordAt bytes (state.cursor + 8) nameoff)
      (held : Bytes.slice bytes (state.cursor + 12)
        (state.cursor + 12 + value.length) = value)
      (inside : align4 (state.cursor + 12 + value.length) ≤
        extents.structEnd)
      (named : textAt bytes extents.stringsEnd
        (extents.stringsStart + nameoff) = some name.utf8)
      (opened : state.stack = top :: stack)
      (fresh : state.properties.get (toLex (top, name)) = none) :
      Moves bytes extents state (some
        ⟨align4 (state.cursor + 12 + value.length), state.stack, state.nodes,
          state.properties.insert (toLex (top, name)) value⟩)
  | nop (word : WordAt bytes state.cursor nopToken) :
      Moves bytes extents state (some { state with cursor := state.cursor + 4 })
  | fin (word : WordAt bytes state.cursor endToken)
      (closed : state.stack = []) : Moves bytes extents state none

theorem addOrPanic_eq_ok {size left right sum : Nat}
    (added : (addOrPanic size left right : Run String Nat) = .ok sum) :
    sum = left + right := by
  unfold addOrPanic at added
  split at added
  · exact (Except.ok.inj added).symm
  · cases added

private theorem beginNode_moves {bytes : Bytes} {extents : Extents}
    {state next : Parse} (word : WordAt bytes state.cursor beginNodeToken)
    (step : beginNode bytes extents
      { state with cursor := state.cursor + 4 } = .ok next) :
    Moves bytes extents state (some next) := by
  obtain ⟨⟨name, after⟩, read, step⟩ := Run.bind_eq_ok.mp step
  obtain ⟨cursor, aligned, step⟩ := Run.bind_eq_ok.mp step
  obtain ⟨_, inside, step⟩ := Run.bind_eq_ok.mp step
  obtain ⟨path, joined, step⟩ := Run.bind_eq_ok.mp step
  obtain ⟨_, fresh, same⟩ := Run.bind_eq_ok.mp step
  obtain ⟨_, named, rfl⟩ := fdtCStringAt_eq_ok.mp read
  obtain rfl := alignFdt_eq aligned
  rw [Run.ensure_eq_ok] at inside fresh
  rw [← Except.ok.inj same]
  exact .beginNode word named inside joined fresh

private theorem property_moves {bytes : Bytes} {extents : Extents}
    {state next : Parse} (word : WordAt bytes state.cursor propToken)
    (step : property bytes extents
      { state with cursor := state.cursor + 4 } = .ok next) :
    Moves bytes extents state (some next) := by
  obtain ⟨valueLen, size, step⟩ := Run.bind_eq_ok.mp step
  obtain ⟨second, added, step⟩ := Run.bind_eq_ok.mp step
  obtain ⟨nameOffset, offset, step⟩ := Run.bind_eq_ok.mp step
  obtain ⟨cursor, skipped, step⟩ := Run.bind_eq_ok.mp step
  obtain ⟨valueEnd, bounded, step⟩ := Run.bind_eq_ok.mp step
  obtain ⟨value, sliced, step⟩ := Run.bind_eq_ok.mp step
  obtain ⟨after, aligned, step⟩ := Run.bind_eq_ok.mp step
  obtain ⟨_, inside, step⟩ := Run.bind_eq_ok.mp step
  obtain ⟨nameStart, started, step⟩ := Run.bind_eq_ok.mp step
  obtain ⟨⟨name, _⟩, read, step⟩ := Run.bind_eq_ok.mp step
  obtain ⟨top, opened, step⟩ := Run.bind_eq_ok.mp step
  obtain ⟨_, fresh, same⟩ := Run.bind_eq_ok.mp step
  obtain rfl := addOrPanic_eq_ok added
  obtain rfl := addOrPanic_eq_ok skipped
  obtain rfl := alignFdt_eq aligned
  rw [Run.ofOption_eq_ok, Option.filter_eq_some_iff, checkedAdd_eq_some]
    at bounded started
  obtain ⟨⟨_, rfl⟩, _⟩ := bounded
  obtain ⟨⟨_, rfl⟩, _⟩ := started
  obtain ⟨_, whole, rfl⟩ := sliceOrPanic_eq_ok.mp sliced
  obtain ⟨_, named, _⟩ := fdtCStringAt_eq_ok.mp read
  rw [Run.ofOption_eq_ok] at opened
  obtain ⟨stack, opened⟩ := List.head?_eq_some_iff.mp opened
  rw [Run.ensure_eq_ok] at inside fresh
  rw [← Except.ok.inj same]
  dsimp only at *
  have length : (Bytes.slice bytes (state.cursor + 4 + 8)
      (state.cursor + 4 + 8 + valueLen)).length = valueLen := by
    rw [Bytes.slice_length_of_le whole]
    omega
  have place : state.cursor + 4 + 8 = state.cursor + 12 := rfl
  rw [place] at *
  have moves := Moves.prop word (by rw [length]; exact fdtUsize_word size)
    (fdtUsize_word offset) (by rw [length]) (by rw [length]; exact inside)
    named opened fresh
  rw [length] at moves
  exact moves

/-- Reading a token, when it succeeds. -/
theorem parseToken_moves {bytes : Bytes} {extents : Extents} {state : Parse}
    {next : Option Parse}
    (step : parseToken bytes extents state = .ok next) :
    Moves bytes extents state next := by
  obtain ⟨token, read, step⟩ := Run.bind_eq_ok.mp step
  obtain ⟨cursor, added, step⟩ := Run.bind_eq_ok.mp step
  obtain rfl := addOrPanic_eq_ok added
  have word := fdtU32_word read
  dsimp only at step
  split at step
  · rename_i isBegin
    obtain ⟨state', begun, same⟩ := Run.bind_eq_ok.mp step
    rw [← Except.ok.inj same]
    exact beginNode_moves (isBegin ▸ word) begun
  · split at step
    · rename_i isEnd
      obtain ⟨state', ended, same⟩ := Run.bind_eq_ok.mp step
      obtain ⟨_, opened, ended⟩ := Run.bind_eq_ok.mp ended
      rw [Run.ensure_eq_ok] at opened
      obtain ⟨top, stack, opened⟩ := List.exists_cons_of_ne_nil opened
      rw [← Except.ok.inj same, ← Except.ok.inj ended]
      dsimp only at opened ⊢
      rw [opened]
      exact .endNode (isEnd ▸ word) opened
    · split at step
      · rename_i isProp
        obtain ⟨state', held, same⟩ := Run.bind_eq_ok.mp step
        rw [← Except.ok.inj same]
        exact property_moves (isProp ▸ word) held
      · split at step
        · rename_i isNop
          rw [← Except.ok.inj step]
          exact .nop (isNop ▸ word)
        · split at step
          · rename_i isFin
            obtain ⟨_, closed, same⟩ := Run.bind_eq_ok.mp step
            rw [Run.ensure_eq_ok] at closed
            rw [← Except.ok.inj same]
            exact .fin (isFin ▸ word) closed
          · exact absurd step (Run.fail_ne_ok _ _)

/-! ## Paths of chains -/

def slash : UInt8 := 47

/-- The path of a child of the node of a path; the root has no parent. -/
def childPath : Option Bytes → Bytes → Bytes
  | none, _ => [slash]
  | some parent, name =>
      if parent = [slash] then slash :: name else parent ++ slash :: name

/-- The paths of the nodes of a chain, the last one first. -/
def stackOf (chain : List Bytes) : List Bytes :=
  chain.foldl (fun stack name => childPath stack.head? name :: stack) []

/-- The path of the last node of a chain. -/
def flatPath (chain : List Bytes) : Bytes := (stackOf chain).headD []

/-- The chain of a node: the root has no name, the other nodes have one. -/
def Rooted (chain : List Bytes) : Prop :=
  ∃ names : List Bytes, chain = [] :: names ∧ [] ∉ names

@[simp] theorem stackOf_nil : stackOf [] = [] := rfl

theorem stackOf_concat (chain : List Bytes) (name : Bytes) :
    stackOf (chain ++ [name]) =
      childPath (stackOf chain).head? name :: stackOf chain := by
  rw [stackOf, List.foldl_append]
  rfl

theorem flatPath_concat (chain : List Bytes) (name : Bytes) :
    flatPath (chain ++ [name]) = childPath (stackOf chain).head? name := by
  rw [flatPath, stackOf_concat]
  rfl

theorem head_stackOf {chain : List Bytes} (nonempty : chain ≠ []) :
    (stackOf chain).head? = some (flatPath chain) := by
  obtain rfl | ⟨front, last, rfl⟩ := List.eq_nil_or_concat' chain
  · exact absurd rfl nonempty
  · rw [flatPath, stackOf_concat]
    rfl

theorem stackOf_eq_nil {chain : List Bytes} : stackOf chain = [] ↔ chain = [] := by
  constructor
  · intro empty
    by_contra nonempty
    have head := head_stackOf nonempty
    rw [empty] at head
    cases head
  · rintro rfl
    rfl

theorem Rooted.ne_nil {chain : List Bytes} (rooted : Rooted chain) :
    chain ≠ [] := by
  obtain ⟨names, rfl, _⟩ := rooted
  exact List.cons_ne_nil _ _

theorem Rooted.concat {chain : List Bytes} {name : Bytes}
    (rooted : Rooted chain) (named : name ≠ []) : Rooted (chain ++ [name]) := by
  obtain ⟨names, rfl, full⟩ := rooted
  refine ⟨names ++ [name], rfl, ?_⟩
  rw [List.mem_append, not_or, List.mem_singleton]
  exact ⟨full, named.symm⟩

/-- The path of a chain is its names, each behind a slash. -/
theorem flatPath_rooted {names : List Bytes} (full : [] ∉ names) :
    flatPath ([] :: names) =
      if names = [] then [slash] else names.flatMap (slash :: ·) := by
  induction names using List.reverseRecOn with
  | nil => rfl
  | append_singleton names name induction =>
      rw [List.mem_append, not_or, List.mem_singleton] at full
      have parent := induction full.1
      rw [← List.cons_append, flatPath_concat,
        head_stackOf (List.cons_ne_nil _ _), parent, childPath,
        if_neg (by simp : names ++ [name] ≠ [])]
      by_cases top : names = []
      · subst top
        simp
      · have longer : names.flatMap (slash :: ·) ≠ [slash] := by
          obtain ⟨first, rest, rfl⟩ := List.exists_cons_of_ne_nil top
          intro single
          rw [List.flatMap_cons, List.cons_append, List.cons.injEq,
            List.append_eq_nil_iff] at single
          exact full.1 (single.2.1 ▸ .head _)
        rw [if_neg top, if_neg longer, List.flatMap_append]
        simp

theorem utf8_root : Text.utf8 ['/'] = [slash] := by
  rw [Text.utf8_of_ascii (by simp)]
  rfl

theorem utf8_slash (text : Text) :
    Text.utf8 ('/' :: text) = slash :: text.utf8 := by
  rw [← List.singleton_append, Text.utf8_append, utf8_root]
  rfl

/-- The path that the parser makes is that of the chain. -/
theorem nodePath_eq {parent : Option Text} {name path : Text}
    (joined : nodePath parent name = .ok path) :
    path.utf8 = childPath (parent.map Text.utf8) name.utf8 ∧
      (name = [] ↔ parent = none) := by
  cases parent with
  | none =>
      obtain ⟨_, empty, same⟩ := Run.bind_eq_ok.mp joined
      rw [Run.ensure_eq_ok] at empty
      rw [← Except.ok.inj same]
      exact ⟨utf8_root, by simpa using empty⟩
  | some parent =>
      obtain ⟨_, named, same⟩ := Run.bind_eq_ok.mp joined
      rw [Run.ensure_eq_ok] at named
      refine ⟨?_, by simpa using named⟩
      rw [← Except.ok.inj same, Option.map_some, childPath, ← utf8_root]
      by_cases top : parent = ['/']
      · rw [if_pos top, if_pos (congrArg Text.utf8 top), utf8_slash]
      · rw [if_neg top, if_neg fun same => top (Text.utf8_inj same),
          Text.utf8_append, utf8_slash]

/-! ## The loop -/

/-- What is listed of the rest of every node of a chain, the last one first. -/
def gather {β : Type} (list : List Bytes → Content → List β) :
    List Bytes → List Content → List β
  | _, [] => []
  | chain, content :: rests =>
      list chain content ++ gather list chain.dropLast rests

/-- A property as the parser holds it, in bytes. -/
def flatProperty (entry : (Text ×ₗ Text) × Bytes) :
    Bytes × Option Bytes × Bytes :=
  ((ofLex entry.1).1.utf8, some (ofLex entry.1).2.utf8, entry.2)

/-- The result of the loop, told from the variables at some token inside of the
nodes of a chain: what follows in the blob, and what it adds. -/
structure Rest (bytes : Bytes) (extents : Extents) (state : Parse)
    (contents : FdtContents) (chain : List Bytes) (rests : List Content) :
    Prop where
  count : rests.length = chain.length + 1
  finishes : Finishes bytes extents state.cursor rests
  nodes : (contents.nodes.keys.map Text.utf8).Perm
    ((gather Content.nodes chain rests).map (fun node => flatPath node.1) ++
      state.nodes.keys.map Text.utf8)
  properties : (contents.properties.entries.map flatProperty).Perm
    ((gather Content.properties chain rests).map
        (fun property => (flatPath property.1, property.2)) ++
      state.properties.entries.map flatProperty)
  rooted : ∀ node ∈ gather Content.nodes chain rests, Rooted node.1
  owned : ∀ property ∈ gather Content.properties chain rests,
    Rooted property.1

/-- The chain fits the variables of the loop. -/
structure Inside (state : Parse) (chain : List Bytes) : Prop where
  stack : state.stack.map Text.utf8 = stackOf chain
  rooted : chain = [] ∨ Rooted chain

section

variable {bytes : Bytes} {extents : Extents} {state next : Parse}
  {contents : FdtContents} {chain : List Bytes} {rests : List Content}

theorem Inside.nil_iff (inside : Inside state chain) :
    state.stack = [] ↔ chain = [] := by
  rw [← stackOf_eq_nil, ← inside.stack, List.map_eq_nil_iff]

theorem Inside.head {top : Text} {stack : List Text}
    (inside : Inside state chain) (opened : state.stack = top :: stack) :
    top.utf8 = flatPath chain ∧ Rooted chain := by
  have same := inside.stack
  have rooted : Rooted chain := inside.rooted.resolve_left fun empty => by
    rw [inside.nil_iff.mpr empty] at opened
    cases opened
  have head := head_stackOf rooted.ne_nil
  rw [← same, opened] at head
  exact ⟨Option.some.inj head, rooted⟩

theorem Inside.beginNode {name path : Text} (inside : Inside state chain)
    (joined : nodePath state.stack.head? name = .ok path) :
    path.utf8 = flatPath (chain ++ [name.utf8]) ∧
      (chain ++ [name.utf8] = [] ∨ Rooted (chain ++ [name.utf8])) := by
  obtain ⟨path', root⟩ := nodePath_eq joined
  have head : state.stack.head?.map Text.utf8 = (stackOf chain).head? := by
    rw [← inside.stack, List.head?_map]
  refine ⟨by rw [path', head, flatPath_concat], .inr ?_⟩
  rw [List.head?_eq_none_iff, inside.nil_iff] at root
  rcases inside.rooted with rfl | rooted
  · exact ⟨[], by rw [root.mpr rfl, Text.utf8_nil]; rfl, nofun⟩
  · refine rooted.concat fun empty => rooted.ne_nil (root.mp ?_)
    exact Text.utf8_inj (empty.trans Text.utf8_nil.symm)

theorem Inside.endNode {top : Text} {stack : List Text} {cursor : Nat}
    {nodes : OrderedSet Text} {properties : OrderedMap (Text ×ₗ Text) Bytes}
    (inside : Inside state chain) (opened : state.stack = top :: stack) :
    Inside ⟨cursor, stack, nodes, properties⟩ chain.dropLast := by
  obtain ⟨names, rfl, full⟩ := (inside.head opened).2
  have same := inside.stack
  rw [opened] at same
  obtain rfl | ⟨front, last, rfl⟩ := List.eq_nil_or_concat' names
  · rw [show ([] :: [] : List Bytes) = [] ++ [[]] from rfl,
      stackOf_concat] at same
    exact ⟨(List.cons.inj same).2, .inl rfl⟩
  · rw [← List.cons_append, stackOf_concat] at same
    rw [← List.cons_append, List.dropLast_concat]
    rw [List.mem_append, not_or] at full
    exact ⟨(List.cons.inj same).2, .inr ⟨front, rfl, full.1⟩⟩

/-- One token in front of what is told of the variables after it. -/
theorem Rest.beginNode {name path : Text}
    (inside : Inside state chain)
    (word : WordAt bytes state.cursor beginNodeToken)
    (named : textAt bytes extents.structEnd (state.cursor + 4) =
      some name.utf8)
    (fits : align4 (state.cursor + 4 + name.utf8.length + 1) ≤
      extents.structEnd)
    (joined : nodePath state.stack.head? name = .ok path)
    (fresh : state.nodes.get path = none)
    (rest : Rest bytes extents
      ⟨align4 (state.cursor + 4 + name.utf8.length + 1), path :: state.stack,
        state.nodes.insert path (), state.properties⟩
      contents (chain ++ [name.utf8]) rests) :
    ∃ rests, Rest bytes extents state contents chain rests := by
  obtain ⟨count, finishes, nodes, properties, rooted, owned⟩ := rest
  obtain ⟨path', rooted'⟩ := inside.beginNode joined
  rcases rests with _ | ⟨body, _ | ⟨content, rests⟩⟩
  · simp at count
  · simp at count
  have listed : gather Content.nodes chain
      (.node name.utf8 body content :: rests) =
        (chain ++ [name.utf8], body) :: gather Content.nodes
          (chain ++ [name.utf8]) (body :: content :: rests) := by
    simp [gather, Content.nodes]
  have held : gather Content.properties chain
      (.node name.utf8 body content :: rests) = gather Content.properties
        (chain ++ [name.utf8]) (body :: content :: rests) := by
    simp [gather, Content.properties]
  refine ⟨.node name.utf8 body content :: rests, ?_,
    finishes.node word named fits, ?_, ?_, ?_, ?_⟩
  · simpa using count
  · have inserted : (state.nodes.insert path ()).entries.Perm
        ((path, ()) :: state.nodes.entries) := OrderedMap.insert_perm fresh
    have more := (inserted.map Prod.fst).map Text.utf8
    rw [listed, List.map_cons, List.cons_append, ← path']
    refine nodes.trans ((more.append_left _).trans ?_)
    exact List.perm_middle
  · rw [held]
    exact properties
  · rw [listed]
    exact List.forall_mem_cons.mpr ⟨rooted'.resolve_left (by simp), rooted⟩
  · rw [held]
    exact owned

theorem Rest.endNode {stack : List Text}
    (word : WordAt bytes state.cursor endNodeToken)
    (opened : Rooted chain)
    (rest : Rest bytes extents
      ⟨state.cursor + 4, stack, state.nodes, state.properties⟩ contents
      chain.dropLast rests) :
    Rest bytes extents state contents chain (.nil :: rests) := by
  obtain ⟨count, finishes, nodes, properties, rooted, owned⟩ := rest
  have positive := List.length_pos_iff.mpr opened.ne_nil
  rw [List.length_dropLast] at count
  rcases rests with _ | ⟨content, rests⟩
  · simp at count
  · refine ⟨?_, .close .nil word finishes, nodes, properties, rooted, owned⟩
    rw [List.length_cons, count]
    omega

theorem Rest.prop {nameoff : Nat} {value : Bytes} {name top : Text}
    (head : top.utf8 = flatPath chain ∧ Rooted chain)
    (word : WordAt bytes state.cursor propToken)
    (size : WordAt bytes (state.cursor + 4) value.length)
    (offset : WordAt bytes (state.cursor + 8) nameoff)
    (held : Bytes.slice bytes (state.cursor + 12)
      (state.cursor + 12 + value.length) = value)
    (fits : align4 (state.cursor + 12 + value.length) ≤ extents.structEnd)
    (named : textAt bytes extents.stringsEnd
      (extents.stringsStart + nameoff) = some name.utf8)
    (fresh : state.properties.get (toLex (top, name)) = none)
    (rest : Rest bytes extents
      ⟨align4 (state.cursor + 12 + value.length), state.stack, state.nodes,
        state.properties.insert (toLex (top, name)) value⟩
      contents chain rests) :
    ∃ rests, Rest bytes extents state contents chain rests := by
  obtain ⟨count, finishes, nodes, properties, rooted, owned⟩ := rest
  rcases rests with _ | ⟨content, rests⟩
  · simp at count
  · refine ⟨.prop (some name.utf8) value content :: rests, count,
      finishes.front (.prop word size offset held fits named), nodes, ?_,
      rooted, List.forall_mem_cons.mpr ⟨head.2, owned⟩⟩
    have inserted : (state.properties.insert (toLex (top, name))
        value).entries.Perm ((toLex (top, name), value) ::
          state.properties.entries) := OrderedMap.insert_perm fresh
    have more := inserted.map flatProperty
    have listed : gather Content.properties chain
        (.prop (some name.utf8) value content :: rests) =
          (chain, some name.utf8, value) ::
            gather Content.properties chain (content :: rests) := rfl
    rw [listed, List.map_cons, List.cons_append, ← head.1]
    exact (properties.trans (more.append_left _)).trans List.perm_middle

theorem Rest.nop (word : WordAt bytes state.cursor nopToken)
    (rest : Rest bytes extents { state with cursor := state.cursor + 4 }
      contents chain rests) :
    ∃ rests, Rest bytes extents state contents chain rests := by
  obtain ⟨count, finishes, nodes, properties, rooted, owned⟩ := rest
  rcases rests with _ | ⟨content, rests⟩
  · simp at count
  · exact ⟨content :: rests, count, finishes.front (.nop word), nodes,
      properties, rooted, owned⟩

theorem Rest.fin (inside : state.cursor < extents.structEnd)
    (word : WordAt bytes state.cursor endToken) :
    Rest bytes extents state ⟨state.nodes, state.properties⟩ [] [.nil] where
  count := rfl
  finishes := .last .nil inside word
  nodes := .refl _
  properties := .refl _
  rooted := List.forall_mem_nil _
  owned := List.forall_mem_nil _

/-- The loop, when it returns. -/
theorem parseTokens_rest {fuel : Nat}
    (returns : parseTokens bytes extents fuel state = .ok contents)
    (inside : Inside state chain) :
    ∃ rests, Rest bytes extents state contents chain rests := by
  induction fuel generalizing state chain with
  | zero => cases returns
  | succ fuel induction =>
      rw [parseTokens] at returns
      split at returns
      · rename_i before
        obtain ⟨next, step, returns⟩ := Run.bind_eq_ok.mp returns
        cases parseToken_moves step with
        | beginNode word named fits joined fresh =>
            obtain ⟨path, rooted⟩ := inside.beginNode joined
            obtain ⟨rests, rest⟩ := induction returns ⟨by
              rw [List.map_cons, stackOf_concat, ← flatPath_concat, path,
                inside.stack], rooted⟩
            exact rest.beginNode inside word named fits joined fresh
        | endNode word opened =>
            obtain ⟨rests, rest⟩ := induction returns (inside.endNode opened)
            exact ⟨_, rest.endNode word (inside.head opened).2⟩
        | prop word size offset held fits named opened fresh =>
            obtain ⟨rests, rest⟩ := induction returns
              ⟨inside.stack, inside.rooted⟩
            exact rest.prop (inside.head opened) word size offset held fits
              named fresh
        | nop word =>
            obtain ⟨rests, rest⟩ := induction returns
              ⟨inside.stack, inside.rooted⟩
            exact rest.nop word
        | fin word closed =>
            obtain rfl := inside.nil_iff.mp closed
            rw [← Except.ok.inj returns]
            exact ⟨_, .fin before word⟩
      · exact absurd returns (Run.fail_ne_ok _ _)

end

/-- What the parser returns of a tree. -/
structure Flattened (contents : FdtContents) (tree : Content) : Prop where
  nodes : (contents.nodes.keys.map Text.utf8).Perm
    ((tree.nodes []).map fun node => flatPath node.1)
  properties : (contents.properties.entries.map flatProperty).Perm
    ((tree.properties []).map fun property =>
      (flatPath property.1, property.2))
  rooted : ∀ node ∈ tree.nodes [], Rooted node.1
  owned : ∀ property ∈ tree.properties [], Rooted property.1

/-- The header, when it passes its checks. -/
theorem fdtExtents_eq {bytes : Bytes} {extents : Extents}
    (read : fdtExtents bytes = .ok extents) :
    extents = extentsOf bytes ∧ 40 ≤ bytes.length ∧
      WordAt bytes 0 fdtMagic ∧ (headerOf bytes).totalsize ≤ bytes.length ∧
      extents.structEnd ≤ (headerOf bytes).totalsize ∧
      extents.stringsEnd ≤ (headerOf bytes).totalsize := by
  obtain ⟨_, long, read⟩ := Run.bind_eq_ok.mp read
  obtain ⟨magic, first, read⟩ := Run.bind_eq_ok.mp read
  obtain ⟨_, isMagic, read⟩ := Run.bind_eq_ok.mp read
  obtain ⟨totalSize, total, read⟩ := Run.bind_eq_ok.mp read
  obtain ⟨_, whole, read⟩ := Run.bind_eq_ok.mp read
  obtain ⟨structureOffset, structStart, read⟩ := Run.bind_eq_ok.mp read
  obtain ⟨stringsOffset, stringsStart, read⟩ := Run.bind_eq_ok.mp read
  obtain ⟨stringsSize, stringsLen, read⟩ := Run.bind_eq_ok.mp read
  obtain ⟨structureSize, structLen, read⟩ := Run.bind_eq_ok.mp read
  obtain ⟨structureEnd, structEnd, read⟩ := Run.bind_eq_ok.mp read
  obtain ⟨stringsEnd, ended, same⟩ := Run.bind_eq_ok.mp read
  rw [Run.ensure_eq_ok] at long isMagic whole
  rw [Run.ofOption_eq_ok, Option.filter_eq_some_iff, checkedAdd_eq_some,
    decide_eq_true_eq] at structEnd ended
  obtain ⟨⟨_, rfl⟩, inStruct⟩ := structEnd
  obtain ⟨⟨_, rfl⟩, inStrings⟩ := ended
  obtain ⟨_, rfl⟩ := fdtUsize_word total
  obtain ⟨_, rfl⟩ := fdtUsize_word structStart
  obtain ⟨_, rfl⟩ := fdtUsize_word stringsStart
  obtain ⟨_, rfl⟩ := fdtUsize_word stringsLen
  obtain ⟨_, rfl⟩ := fdtUsize_word structLen
  obtain rfl := Except.ok.inj same
  exact ⟨rfl, not_lt.mp long, isMagic ▸ fdtU32_word first, not_lt.mp whole,
    inStruct, inStrings⟩

/-- What the parser accepts encodes a tree, and it returns the paths and
properties of that tree. -/
theorem parseFdt_encodes {bytes : Bytes} {contents : FdtContents}
    (parsed : parseFdt bytes = .ok contents) :
    ∃ tree, Encodes bytes tree ∧ Flattened contents tree := by
  obtain ⟨extents, header, returns⟩ := Run.bind_eq_ok.mp parsed
  obtain ⟨rfl, headed, magic, whole, inStruct, inStrings⟩ :=
    fdtExtents_eq header
  obtain ⟨rests, count, finishes, nodes, properties, rooted, owned⟩ :
      ∃ rests, Rest bytes _ _ contents [] rests :=
    parseTokens_rest returns ⟨rfl, .inl rfl⟩
  obtain ⟨tree, rfl⟩ := List.length_eq_one_iff.mp count
  simp only [gather, List.append_nil] at nodes properties rooted owned
  refine ⟨tree, ⟨headed, magic, whole, inStruct, inStrings, ?_⟩,
    ?_, ?_, rooted, owned⟩
  · cases finishes with
    | last spells inside fin => exact ⟨_, inside, spells, fin⟩
  · simpa [OrderedMap.keys, OrderedMap.empty] using nodes
  · simpa [OrderedMap.empty] using properties

/-! ## The parser returns -/

theorem fdtU32_returns (bytes : Bytes) (offset : Nat) :
    (fdtU32 bytes offset).Returns := by
  refine (Run.returns_ofOption _ _).bind fun stop bounded => ?_
  rw [Run.ofOption_eq_ok, Option.filter_eq_some_iff, checkedAdd_eq_some,
    decide_eq_true_eq] at bounded
  obtain ⟨⟨_, rfl⟩, inside⟩ := bounded
  rw [sliceOrPanic_of (by omega) inside]
  exact Run.returns_ok _

theorem fdtUsize_returns (bytes : Bytes) (offset : Nat) :
    (fdtUsize bytes offset).Returns :=
  (fdtU32_returns bytes offset).bind fun _ _ =>
    (Run.returns_ensure _ _).bind fun _ _ => Run.returns_pure _

theorem fdtCStringAt_returns (bytes : Bytes) (offset stop : Nat) :
    (fdtCStringAt bytes offset stop).Returns := by
  refine (Run.returns_ensure _ _).bind fun _ ordered => ?_
  rw [Run.ensure_eq_ok, not_or, not_le, not_lt] at ordered
  rw [sliceOrPanic_of ordered.1.le ordered.2, Run.ok_bind]
  refine (Run.returns_ofOption _ _).bind fun relativeEnd found => ?_
  rw [Run.ofOption_eq_ok, nulPosition_eq_some] at found
  obtain ⟨name, rest, _, split, rfl⟩ := found
  have length := congrArg List.length split
  rw [Bytes.slice_length_of_le ordered.2, List.length_append,
    List.length_cons] at length
  dsimp only
  rw [sliceOrPanic_of (by omega) (by omega), Run.ok_bind]
  exact (Run.returns_ofOption _ _).bind fun _ _ => Run.returns_pure _

theorem nodePath_returns (parent : Option Text) (name : Text) :
    (nodePath parent name).Returns := by
  cases parent with
  | none => exact (Run.returns_ensure _ _).bind fun _ _ => Run.returns_pure _
  | some parent =>
      exact (Run.returns_ensure _ _).bind fun _ _ => Run.returns_pure _

section

variable {bytes : Bytes} {extents : Extents} {state : Parse}

theorem beginNode_returns : (beginNode bytes extents state).Returns :=
  (fdtCStringAt_returns _ _ _).bind fun _ _ =>
    (Run.returns_ofOption _ _).bind fun _ _ =>
      (Run.returns_ensure _ _).bind fun _ _ =>
        (nodePath_returns _ _).bind fun _ _ =>
          (Run.returns_ensure _ _).bind fun _ _ => Run.returns_pure _

theorem property_returns (whole : extents.structEnd ≤ bytes.length)
    (small : state.cursor + 8 < wordSize) :
    (property bytes extents state).Returns := by
  refine (fdtUsize_returns _ _).bind fun valueLen _ => ?_
  rw [addOrPanic_of (by omega), Run.ok_bind]
  refine (fdtUsize_returns _ _).bind fun nameOffset _ => ?_
  rw [addOrPanic_of small, Run.ok_bind]
  refine (Run.returns_ofOption _ _).bind fun valueEnd bounded => ?_
  rw [Run.ofOption_eq_ok, Option.filter_eq_some_iff, checkedAdd_eq_some,
    decide_eq_true_eq] at bounded
  obtain ⟨⟨_, rfl⟩, inside⟩ := bounded
  rw [sliceOrPanic_of (by omega) (by omega), Run.ok_bind]
  exact (Run.returns_ofOption _ _).bind fun _ _ =>
    (Run.returns_ensure _ _).bind fun _ _ =>
      (Run.returns_ofOption _ _).bind fun _ _ =>
        (fdtCStringAt_returns _ _ _).bind fun _ _ =>
          (Run.returns_ofOption _ _).bind fun _ _ =>
            (Run.returns_ensure _ _).bind fun _ _ => Run.returns_pure _

theorem parseToken_returns (whole : extents.structEnd ≤ bytes.length)
    (small : state.cursor + 12 < wordSize) :
    (parseToken bytes extents state).Returns := by
  refine (fdtU32_returns _ _).bind fun token _ => ?_
  rw [addOrPanic_of (by omega), Run.ok_bind]
  dsimp only
  split
  · exact beginNode_returns.bind fun _ _ => Run.returns_pure _
  · split
    · exact ((Run.returns_ensure _ _).bind fun _ _ => Run.returns_pure _).bind
        fun _ _ => Run.returns_pure _
    · split
      · exact (property_returns whole (by dsimp only; omega)).bind
          fun _ _ => Run.returns_pure _
      · split
        · exact Run.returns_pure _
        · split
          · exact (Run.returns_ensure _ _).bind fun _ _ => Run.returns_pure _
          · exact Run.returns_fail _

/-- A token is at least one word. -/
theorem Moves.forward {next : Parse}
    (moves : Moves bytes extents state (some next)) :
    state.cursor + 4 ≤ next.cursor := by
  cases moves with
  | beginNode => simp only [align4]; omega
  | endNode => exact le_refl _
  | prop => simp only [align4]; omega
  | nop => exact le_refl _

theorem parseTokens_returns {fuel : Nat}
    (whole : extents.structEnd ≤ bytes.length)
    (small : extents.structEnd + 12 < wordSize)
    (enough : extents.structEnd < state.cursor + fuel) (positive : 0 < fuel) :
    (parseTokens bytes extents fuel state).Returns := by
  induction fuel generalizing state with
  | zero => cases positive
  | succ fuel induction =>
      rw [parseTokens]
      split
      · refine (parseToken_returns whole (by omega)).bind fun next step => ?_
        cases next with
        | none => exact Run.returns_pure _
        | some next =>
            have forward := (parseToken_moves step).forward
            exact induction (by omega) (by omega)
      · exact Run.returns_fail _

end

/-- The parser ends on every input, with contents or with an error. -/
theorem parseFdt_returns (bytes : Bytes) : (parseFdt bytes).Returns := by
  refine Run.Returns.bind ?_ fun extents header => ?_
  · exact (Run.returns_ensure _ _).bind fun _ _ =>
      (fdtU32_returns _ _).bind fun _ _ =>
        (Run.returns_ensure _ _).bind fun _ _ =>
          (fdtUsize_returns _ _).bind fun _ _ =>
            (Run.returns_ensure _ _).bind fun _ _ =>
              (fdtUsize_returns _ _).bind fun _ _ =>
                (fdtUsize_returns _ _).bind fun _ _ =>
                  (fdtUsize_returns _ _).bind fun _ _ =>
                    (fdtUsize_returns _ _).bind fun _ _ =>
                      (Run.returns_ofOption _ _).bind fun _ _ =>
                        (Run.returns_ofOption _ _).bind fun _ _ =>
                          Run.returns_pure _
  · obtain ⟨_, _, _, whole, inStruct, _⟩ := fdtExtents_eq header
    have total := be32At_lt bytes 4
    have size : (headerOf bytes).totalsize = be32At bytes 4 := rfl
    exact parseTokens_returns (by omega) (by unfold wordSize; omega)
      (by dsimp only; omega) (Nat.succ_pos _)

end Pocketboot.DtboMask
