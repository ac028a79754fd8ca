import Pocketboot.Kexec.ChosenEdit
import Pocketboot.Kexec.MemoryWalk

/-!
# What `graft_memory` writes

The memory nodes of the live tree take the place of those of the target: they
stand before the first node that is left, or at the end of the root.
-/

namespace Pocketboot.Kexec

open DeviceTree

/-! ## The edit of a tree -/

/-- The memory nodes of a body. -/
def memoryNodes : Content → Content
  | .nil => .nil
  | .prop _ _ rest => memoryNodes rest
  | .node name body rest =>
      if isMemoryNodeName name then .node name body (memoryNodes rest)
      else memoryNodes rest

/-- A body without its memory nodes. -/
def withoutMemory : Content → Content
  | .nil => .nil
  | .prop name value rest => .prop name value (withoutMemory rest)
  | .node name body rest =>
      if isMemoryNodeName name then withoutMemory rest
      else .node name body (withoutMemory rest)

/-- Nodes in front of the first node, or at the end. -/
def beforeNodes (new : Content) : Content → Content
  | .nil => new
  | .prop name value rest => .prop name value (beforeNodes new rest)
  | .node name body rest => new.append (.node name body rest)

/-- A body with other memory nodes. -/
def withMemory (new body : Content) : Content :=
  beforeNodes new (withoutMemory body)

/-! ## The copies of the live nodes -/

/-- A forest with the content of another one, of the same length. -/
structure CopyOf (strings strings' : Bytes) (forest copied : Forest) :
    Prop where
  content : copied.content strings' = forest.content strings
  length : copied.bytes.length = forest.bytes.length

section

variable {strings : Bytes}

/-- A copy has the content of what was copied, in a strings block that grew by
the names. -/
theorem copyWalk_eq_ok {forest : Forest} {state state' : CopyState}
    (aligned : state.output.length % 4 = 0)
    (walked : (copyWalk strings).run forest state = .ok state') :
    state'.depth = state.depth ∧ (forest.content strings).Named ∧
      state'.outputStrings =
        withNames state.outputStrings (forest.content strings) ∧
      ∃ copied, state'.output = state.output ++ copied.bytes ∧
        CopyOf strings state'.outputStrings forest copied := by
  induction forest generalizing state state' with
  | nil =>
      cases walked
      exact ⟨rfl, trivial, rfl, .nil, (List.append_nil _).symm, rfl, rfl⟩
  | nop rest induction =>
      obtain ⟨next, step, walked⟩ := Run.bind_eq_ok.mp walked
      cases step
      obtain ⟨depth, named, names, copied, output, copy⟩ := @induction
        { state with output := state.output ++ be32 nopToken } state' (by
          rw [List.length_append, Bytes.toBe_length]
          omega) walked
      refine ⟨depth, named, names, .nop copied, ?_, copy.content, ?_⟩
      · rw [output, Forest.bytes, List.append_assoc]
      · rw [Forest.bytes, Forest.bytes, List.length_append, List.length_append,
          copy.length]
  | prop property rest induction =>
      obtain ⟨next, step, walked⟩ := Run.bind_eq_ok.mp walked
      obtain ⟨name, found, step⟩ := Run.bind_eq_ok.mp step
      obtain ⟨⟨outputStrings, nameoff⟩, ensured, same⟩ :=
        Run.bind_eq_ok.mp step
      cases same
      rw [Run.ofOption_eq_ok, stringAt_eq] at found
      obtain ⟨small, known, _⟩ :=
        ensureString_eq_ok (stringAt_noNul found) ensured
      obtain rfl := ensureString_withString ensured
      have written := writeProp_bytes nameoff property.value aligned
      rw [propBytes_plain small property.value_lt] at written
      have whole := (Lexeme.prop (.plain nameoff property.value small
        property.value_lt)).bytes_length_mod
      rw [Lexeme.bytes] at whole
      obtain ⟨depth, named, names, copied, output, copy⟩ := @induction
        { state with
          output := writeProp state.output nameoff property.value
          outputStrings := withString state.outputStrings name } state' (by
            dsimp only
            rw [written, List.length_append]
            omega) walked
      rw [Forest.content, found]
      refine ⟨depth, ⟨rfl, named⟩, names,
        .prop (.plain nameoff property.value small property.value_lt) copied,
        ?_, ?_, ?_⟩
      · rw [output]
        dsimp only
        rw [written, Forest.bytes, List.append_assoc]
      · obtain ⟨more, grown⟩ := withNames_grown
          (withString state.outputStrings name) (rest.content strings)
        have content := copy.content
        rw [Forest.content, content, Forest.content]
        congr 1
        rw [names, grown, found]
        exact stringAt_append known more
      · rw [Forest.bytes, Forest.bytes, List.length_append, List.length_append,
          copy.length, Property.bytes_length, Property.bytes_length]
        rfl
  | node name inner rest innerInduction restInduction =>
      have whole : name.bytes.length % 4 = 0 :=
        (Lexeme.beginNode name).bytes_length_mod
      obtain ⟨⟨entered, passed⟩, step, walked⟩ := Run.bind_eq_ok.mp walked
      obtain ⟨_, added, same⟩ := Run.bind_eq_ok.mp step
      cases same
      obtain ⟨_, rfl⟩ := addOrPanic_eq_ok.mp added
      obtain ⟨below, inside, walked⟩ := Run.bind_eq_ok.mp walked
      obtain ⟨depthInner, namedInner, namesInner, copiedInner, outputInner,
        copyInner⟩ := @innerInduction
          { state with
            depth := state.depth + 1
            output := state.output ++ name.bytes } below (by
              rw [List.length_append]
              omega) inside
      have wholeInner := copiedInner.bytes_length_mod
      obtain ⟨left, leaving, walked⟩ := Run.bind_eq_ok.mp walked
      obtain ⟨_, _, leaving⟩ := Run.bind_eq_ok.mp leaving
      obtain ⟨_, lower, same⟩ := Run.bind_eq_ok.mp leaving
      cases same
      rw [depthInner, subOrPanic_of (Nat.le_add_left _ _)] at lower
      cases lower
      obtain ⟨depth, named, names, copied, output, copy⟩ := @restInduction
        { below with
          depth := state.depth + 1 - 1
          output := below.output ++ be32 endNodeToken } state' (by
            dsimp only
            rw [outputInner]
            simp only [List.length_append, Bytes.toBe_length]
            omega) walked
      obtain ⟨more, grown⟩ := withNames_grown below.outputStrings
        (rest.content strings)
      refine ⟨depth, ⟨namedInner, named⟩, ?_, .node name copiedInner copied, ?_,
        ?_, ?_⟩
      · rw [names]
        dsimp only
        rw [namesInner, Forest.content, withNames]
      · rw [output]
        dsimp only
        rw [outputInner]
        simp [Forest.bytes]
      · have namedCopy :
            (copiedInner.content below.outputStrings).Named := by
          rw [copyInner.content]
          exact namedInner
        have content := copy.content
        rw [Forest.content, content, Forest.content]
        congr 1
        rw [names]
        dsimp only
        rw [grown, Forest.content_grown more namedCopy, copyInner.content]
      · simp only [Forest.bytes, List.length_append, copyInner.length,
          copy.length]

/-- Copying ends in a copy or in an error, and in a copy while the strings
block is short. -/
theorem copyWalk_ends {forest : Forest} {state : CopyState}
    (named : (forest.content strings).Named)
    (aligned : state.output.length % 4 = 0)
    (shallow : state.depth + forest.bytes.length < wordSize) :
    ((copyWalk strings).run forest state).Returns ∧
      ((withNames state.outputStrings
          (forest.content strings)).length < 2 ^ 32 →
        ∃ state', (copyWalk strings).run forest state = .ok state') := by
  induction forest generalizing state with
  | nil => exact ⟨Run.returns_ok _, fun _ => ⟨state, rfl⟩⟩
  | nop rest induction =>
      rw [Forest.bytes, List.length_append] at shallow
      exact @induction { state with output := state.output ++ be32 nopToken }
        named (by
          rw [List.length_append, Bytes.toBe_length]
          omega) (by dsimp only; omega)
  | prop property rest induction =>
      rw [Forest.bytes, List.length_append] at shallow
      obtain ⟨first, later⟩ := named
      obtain ⟨name, found⟩ := Option.isSome_iff_exists.mp first
      have step : (copyWalk strings).prop state property =
          (ensureString state.outputStrings name >>= fun added =>
            .ok { state with
              output := writeProp state.output added.2 property.value
              outputStrings := added.1 }) := by
        change (Run.ofOption _ (stringAt strings property.nameoff) >>= _) = _
        rw [stringAt_eq, found]
        rfl
      rw [Walk.run, step, Forest.content, found, withNames, Option.getD_some]
      have shortName := withNames_length_le
        (withString state.outputStrings name) (rest.content strings)
      cases ensured : ensureString state.outputStrings name with
      | error fault =>
          refine ⟨(ensureString_returns _ _).error ensured, fun short => ?_⟩
          obtain ⟨_, fits, _⟩ := @ensureString_short state.outputStrings name
            (stringAt_noNul found) (by omega)
          cases ensured.symm.trans fits
      | ok result =>
          obtain ⟨strings', nameoff⟩ := result
          obtain ⟨small, _, _⟩ :=
            ensureString_eq_ok (stringAt_noNul found) ensured
          obtain rfl := ensureString_withString ensured
          have written := writeProp_bytes nameoff property.value aligned
          rw [propBytes_plain small property.value_lt] at written
          have whole := (Lexeme.prop (.plain nameoff property.value small
            property.value_lt)).bytes_length_mod
          rw [Lexeme.bytes] at whole
          exact @induction
            { state with
              output := writeProp state.output nameoff property.value
              outputStrings := withString state.outputStrings name } later (by
                dsimp only
                rw [written, List.length_append]
                omega) (by dsimp only; omega)
  | node name inner rest innerInduction restInduction =>
      simp only [Forest.bytes, List.length_append, Bytes.toBe_length]
        at shallow
      have wide : 4 ≤ name.bytes.length :=
        (Lexeme.beginNode name).four_le_bytes_length
      have whole : name.bytes.length % 4 = 0 :=
        (Lexeme.beginNode name).bytes_length_mod
      have entered : (copyWalk strings).enter state name inner = .ok
          ({ state with
            depth := state.depth + 1
            output := state.output ++ name.bytes }, false) := by
        change (addOrPanic wordSize state.depth 1 >>= _) = _
        rw [addOrPanic_of (by omega)]
        rfl
      have alignedInner : (state.output ++ name.bytes).length % 4 = 0 := by
        rw [List.length_append]
        omega
      have ends := @innerInduction
        { state with
          depth := state.depth + 1
          output := state.output ++ name.bytes } named.1 alignedInner
        (by dsimp only; omega)
      rw [Walk.run, entered, Run.ok_bind, Forest.content, withNames]
      dsimp only
      rw [if_neg (by decide)]
      have shortInner := withNames_length_le
        (withNames state.outputStrings (inner.content strings))
        (rest.content strings)
      cases inside : (copyWalk strings).run inner
          { state with
            depth := state.depth + 1
            output := state.output ++ name.bytes } with
      | error fault =>
          refine ⟨ends.1.error inside, fun short => ?_⟩
          obtain ⟨_, copied⟩ := ends.2 (shortInner.trans_lt short)
          cases inside.symm.trans copied
      | ok below =>
          obtain ⟨depth, _, names, copied, output, _⟩ :=
            copyWalk_eq_ok alignedInner inside
          have wholeInner := copied.bytes_length_mod
          have left : (copyWalk strings).leave below = .ok
              { below with
                depth := state.depth
                output := below.output ++ be32 endNodeToken } := by
            change (Run.ensure (below.depth ≠ 0) _ >>= _) = _
            rw [depth, Run.ensure_of (Nat.succ_ne_zero _), Run.ok_bind,
              subOrPanic_of (Nat.le_add_left _ _)]
            rfl
          rw [Run.ok_bind, left, Run.ok_bind, ← names]
          exact @restInduction
            { below with
              depth := state.depth
              output := below.output ++ be32 endNodeToken } named.2 (by
                dsimp only
                rw [output]
                simp only [List.length_append, Bytes.toBe_length]
                omega) (by dsimp only; omega)

/-! ## The pass over the live tree -/

theorem leaveDepth_succ (depth : Nat) : leaveDepth (depth + 1) = .ok depth := by
  rw [leaveDepth, Run.ensure_of (Nat.succ_ne_zero _), Run.ok_bind,
    subOrPanic_of (Nat.le_add_left _ _)]
  rfl

/-- Below a child of the root nothing is collected. -/
theorem extractWalk_deep {forest : Forest} {state : ExtractState}
    (deep : 2 ≤ state.depth)
    (shallow : state.depth + forest.bytes.length < wordSize) :
    (extractWalk strings).run forest state = .ok state := by
  induction forest generalizing state with
  | nil => rfl
  | nop rest induction =>
      rw [Forest.bytes, List.length_append] at shallow
      exact induction deep (by omega)
  | prop property rest induction =>
      rw [Forest.bytes, List.length_append] at shallow
      exact induction deep (by omega)
  | node name inner rest innerInduction restInduction =>
      simp only [Forest.bytes, List.length_append] at shallow
      have wide : 4 ≤ name.bytes.length :=
        (Lexeme.beginNode name).four_le_bytes_length
      have entered : (extractWalk strings).enter state name inner =
          .ok ({ state with depth := state.depth + 1 }, false) := by
        have other : (state.depth = 1 && isMemoryNodeName name.text) = false := by
          rw [decide_eq_false (by omega), Bool.false_and]
        simp only [extractWalk]
        rw [if_neg (by omega), if_neg (by rw [other]; decide),
          addOrPanic_of (by omega)]
        rfl
      have left : (extractWalk strings).leave
          { state with depth := state.depth + 1 } = .ok state := by
        change (leaveDepth (state.depth + 1) >>= _) = _
        rw [leaveDepth_succ]
        rfl
      rw [Walk.run, entered, Run.ok_bind]
      dsimp only
      rw [if_neg (by decide), innerInduction (by dsimp only; omega)
        (by dsimp only; omega), Run.ok_bind, left, Run.ok_bind]
      exact restInduction deep (by omega)

/-- The memory nodes of a forest. -/
def memoryForest : Forest → Forest
  | .nil => .nil
  | .nop rest => memoryForest rest
  | .prop _ rest => memoryForest rest
  | .node name inner rest =>
      if isMemoryNodeName name.text then .node name inner (memoryForest rest)
      else memoryForest rest

/-- The memory nodes in the root of a forest. -/
def rootMemory : Forest → Forest
  | .nil => .nil
  | .nop rest => rootMemory rest
  | .prop _ rest => rootMemory rest
  | .node _ inner _ => memoryForest inner

theorem rootMemory_single (before : Nat) (name : NodeName)
    (inner rest : Forest) :
    rootMemory ((Forest.nops before).append (.node name inner rest)) =
      memoryForest inner := by
  induction before with
  | zero => rfl
  | succ before induction => exact induction

theorem memoryForest_length_le (forest : Forest) :
    (memoryForest forest).bytes.length ≤ forest.bytes.length := by
  induction forest with
  | nil => rfl
  | nop rest induction =>
      simp only [memoryForest, Forest.bytes, List.length_append]
      omega
  | prop property rest induction =>
      simp only [memoryForest, Forest.bytes, List.length_append]
      omega
  | node name inner rest _ induction =>
      rw [memoryForest]
      split
      · simp only [Forest.bytes, List.length_append]
        omega
      · simp only [Forest.bytes, List.length_append]
        omega

/-- The memory nodes that were collected hold those of the live tree. -/
structure CollectedFrom (strings strings' : Bytes) (forest copied : Forest)
    (fragments : List MemoryFragment) : Prop where
  bytes : fragments.flatMap (·.data) = copied.bytes
  content : copied.content strings' = memoryNodes (forest.content strings)
  length : copied.bytes.length = (memoryForest forest).bytes.length
  empty : fragments = [] ↔ memoryNodes (forest.content strings) = .nil

/-- A child of the root that is not a memory node is passed over. -/
theorem extractWalk_other {name : NodeName} {inner rest : Forest}
    {state : ExtractState} (root : state.depth = 1)
    (other : isMemoryNodeName name.text ≠ true)
    (shallow : 2 + inner.bytes.length < wordSize) :
    (extractWalk strings).run (.node name inner rest) state =
      (extractWalk strings).run rest state := by
  have entered : (extractWalk strings).enter state name inner =
      .ok ({ state with depth := state.depth + 1 }, false) := by
    have unknown : (state.depth = 1 && isMemoryNodeName name.text) ≠ true := by
      rw [decide_eq_true root, Bool.true_and]
      exact other
    simp only [extractWalk]
    rw [if_neg (by omega), if_neg unknown,
      addOrPanic_of (by unfold wordSize; omega)]
    rfl
  have left : (extractWalk strings).leave
      { state with depth := state.depth + 1 } = .ok state := by
    change (leaveDepth (state.depth + 1) >>= _) = _
    rw [leaveDepth_succ]
    rfl
  rw [Walk.run, entered, Run.ok_bind]
  dsimp only
  rw [if_neg (by decide), extractWalk_deep (by dsimp only; omega)
    (by dsimp only; omega), Run.ok_bind, left, Run.ok_bind]

/-- A memory node is copied. -/
theorem extractWalk_memory {name : NodeName} {inner rest : Forest}
    {state : ExtractState} (root : state.depth = 1)
    (known : isMemoryNodeName name.text = true) :
    (extractWalk strings).run (.node name inner rest) state = (do
      let copied ←
        (copyWalk strings).run inner ⟨1, name.bytes, state.outputStrings⟩
      (extractWalk strings).run rest { state with
        memory := state.memory ++ [⟨copied.output ++ be32 endNodeToken⟩]
        outputStrings := copied.outputStrings }) := by
  have both : (state.depth = 1 && isMemoryNodeName name.text) = true := by
    rw [decide_eq_true root, known]
    rfl
  rw [Walk.run]
  simp only [extractWalk]
  rw [if_neg (by omega), if_pos both]
  cases (copyWalk strings).run inner ⟨1, name.bytes, state.outputStrings⟩ <;>
    rfl

/-- What was collected holds the memory nodes. -/
theorem extractWalk_eq_ok {forest : Forest} {state state' : ExtractState}
    (root : state.depth = 1) (shallow : 2 + forest.bytes.length < wordSize)
    (walked : (extractWalk strings).run forest state = .ok state') :
    state'.depth = 1 ∧ state'.sawRoot = state.sawRoot ∧
      state'.outputStrings = withNames state.outputStrings
        (memoryNodes (forest.content strings)) ∧
      ∃ fragments copied, state'.memory = state.memory ++ fragments ∧
        CollectedFrom strings state'.outputStrings forest copied fragments := by
  induction forest generalizing state state' with
  | nil =>
      cases walked
      refine ⟨root, rfl, rfl, [], .nil, (List.append_nil _).symm, rfl, rfl, rfl,
        ?_⟩
      simp [Forest.content, memoryNodes]
  | nop rest induction =>
      rw [Forest.bytes, List.length_append] at shallow
      obtain ⟨depth, sawRoot, names, fragments, copied, memory, collected⟩ :=
        induction root (by omega) walked
      exact ⟨depth, sawRoot, names, fragments, copied, memory,
        collected.bytes, collected.content, collected.length, collected.empty⟩
  | prop property rest induction =>
      rw [Forest.bytes, List.length_append] at shallow
      obtain ⟨depth, sawRoot, names, fragments, copied, memory, collected⟩ :=
        induction root (by omega) walked
      exact ⟨depth, sawRoot, names, fragments, copied, memory,
        collected.bytes, collected.content, collected.length, collected.empty⟩
  | node name inner rest _ induction =>
      simp only [Forest.bytes, List.length_append] at shallow
      have whole : name.bytes.length % 4 = 0 :=
        (Lexeme.beginNode name).bytes_length_mod
      rw [Forest.content, memoryNodes]
      by_cases known : isMemoryNodeName name.text = true
      · rw [extractWalk_memory root known] at walked
        rw [if_pos known, withNames]
        obtain ⟨inside, copies, walked⟩ := Run.bind_eq_ok.mp walked
        obtain ⟨_, namedInner, namesInner, copiedInner, outputInner,
          copyInner⟩ := copyWalk_eq_ok whole copies
        obtain ⟨depth, sawRoot, names, fragments, copied, memory,
          collected⟩ := @induction { state with
            memory := state.memory ++ [⟨inside.output ++ be32 endNodeToken⟩]
            outputStrings := inside.outputStrings } state' root (by omega)
            walked
        obtain ⟨more, grown⟩ := withNames_grown inside.outputStrings
          (memoryNodes (rest.content strings))
        have skipped : memoryNodes ((Forest.node name inner rest).content
            strings) = .node name.text (inner.content strings)
              (memoryNodes (rest.content strings)) := by
          rw [Forest.content, memoryNodes, if_pos known]
        refine ⟨depth, sawRoot, ?_,
          ⟨inside.output ++ be32 endNodeToken⟩ :: fragments,
          .node name copiedInner copied, ?_, ?_, ?_, ?_, ?_⟩
        · rw [names]
          dsimp only
          rw [namesInner]
        · rw [memory]
          simp
        · rw [List.flatMap_cons, collected.bytes, outputInner]
          simp [Forest.bytes]
        · have namedCopy :
              (copiedInner.content inside.outputStrings).Named := by
            rw [copyInner.content]
            exact namedInner
          have content := collected.content
          rw [skipped, Forest.content, content]
          congr 1
          rw [names]
          dsimp only
          rw [grown, Forest.content_grown more namedCopy, copyInner.content]
        · rw [memoryForest, if_pos known]
          simp only [Forest.bytes, List.length_append, copyInner.length,
            collected.length]
        · rw [skipped]
          simp
      · rw [extractWalk_other root known (by omega)] at walked
        rw [if_neg known]
        have skipped : memoryNodes ((Forest.node name inner rest).content
            strings) = memoryNodes (rest.content strings) := by
          rw [Forest.content, memoryNodes, if_neg known]
        obtain ⟨depth, sawRoot, names, fragments, copied, memory,
          collected⟩ := induction root (by omega) walked
        refine ⟨depth, sawRoot, names, fragments, copied, memory,
          collected.bytes, collected.content.trans skipped.symm, ?_, ?_⟩
        · rw [memoryForest, if_neg known]
          exact collected.length
        · rw [skipped]
          exact collected.empty

theorem extractWalk_ends {forest : Forest} {state : ExtractState}
    (named : (forest.content strings).Named) (root : state.depth = 1)
    (shallow : 2 + forest.bytes.length < wordSize) :
    ((extractWalk strings).run forest state).Returns ∧
      ((withNames state.outputStrings
          (memoryNodes (forest.content strings))).length < 2 ^ 32 →
        ∃ state', (extractWalk strings).run forest state = .ok state') := by
  induction forest generalizing state with
  | nil => exact ⟨Run.returns_ok _, fun _ => ⟨state, rfl⟩⟩
  | nop rest induction =>
      rw [Forest.bytes, List.length_append] at shallow
      exact induction named root (by omega)
  | prop property rest induction =>
      rw [Forest.bytes, List.length_append] at shallow
      exact induction named.2 root (by omega)
  | node name inner rest _ induction =>
      simp only [Forest.bytes, List.length_append] at shallow
      have whole : name.bytes.length % 4 = 0 :=
        (Lexeme.beginNode name).bytes_length_mod
      rw [Forest.content, memoryNodes]
      by_cases known : isMemoryNodeName name.text = true
      · rw [extractWalk_memory root known, if_pos known, withNames]
        have shortInner := withNames_length_le
          (withNames state.outputStrings (inner.content strings))
          (memoryNodes (rest.content strings))
        have ends := @copyWalk_ends strings inner
          ⟨1, name.bytes, state.outputStrings⟩ named.1 whole
          (by dsimp only; omega)
        cases inside : (copyWalk strings).run inner
            ⟨1, name.bytes, state.outputStrings⟩ with
        | error fault =>
            refine ⟨ends.1.error inside, fun short => ?_⟩
            obtain ⟨_, copied⟩ := ends.2 (shortInner.trans_lt short)
            cases inside.symm.trans copied
        | ok copied =>
            obtain ⟨_, _, names, _⟩ := copyWalk_eq_ok whole inside
            rw [Run.ok_bind, ← names]
            exact @induction { state with
              memory := state.memory ++ [⟨copied.output ++ be32 endNodeToken⟩]
              outputStrings := copied.outputStrings } named.2 root (by omega)
      · rw [extractWalk_other root known (by omega), if_neg known]
        exact induction named.2 root (by omega)

theorem extractWalk_nops (count : Nat) (state : ExtractState) :
    (extractWalk strings).run (.nops count) state = .ok state := by
  induction count with
  | zero => rfl
  | succ count induction => exact induction

variable {block outputStrings : Bytes} {forest : Forest} {body : Content}
  {trailing : Bytes}

/-- The pass over a single root is that over its body. -/
theorem extractMemoryFragments_eq (short : block.length < 2 ^ 32)
    (holds : block = forest.bytes ++ (be32 endToken ++ trailing))
    (content : forest.content strings = .node [] body .nil) :
    ∃ inner, inner.content strings = body ∧
      inner.bytes.length ≤ block.length ∧
      rootMemory forest = memoryForest inner ∧
      extractMemoryFragments block strings outputStrings = (do
        let state ← (extractWalk strings).run inner
          ⟨1, true, [], outputStrings⟩
        let depth ← leaveDepth state.depth
        checkEnd state.sawRoot depth
        return (state.memory, state.outputStrings)) := by
  have place : At block 0 (forest.bytes ++ (be32 endToken ++ trailing)) :=
    ⟨holds, rfl, Nat.zero_le _, short⟩
  obtain ⟨before, after, name, inner, rfl, unnamed, rfl⟩ :=
    Forest.exists_single content
  refine ⟨inner, rfl, ?_, rootMemory_single before name inner _, ?_⟩
  · rw [holds, Forest.bytes_append, Forest.bytes]
    simp only [List.length_append]
    omega
  have entered : (extractWalk strings).enter ⟨0, false, [], outputStrings⟩ name
      inner = .ok (⟨1, true, [], outputStrings⟩, false) := by
    simp only [extractWalk, checkRoot]
    rw [unnamed]
    rfl
  rw [extractMemoryFragments, loop_forest (extractBody_steady short)
    (extractWalk_follows block strings) _ place, Walk.run_append,
    extractWalk_nops, Run.ok_bind, Walk.run, entered, Run.ok_bind]
  dsimp only
  rw [if_neg (by decide)]
  cases (extractWalk strings).run inner ⟨1, true, [], outputStrings⟩ with
  | error fault => rfl
  | ok state =>
      simp only [Run.ok_bind]
      change (((leaveDepth state.depth >>= _) >>= _) >>= _) = _
      cases leaveDepth state.depth with
      | error fault => rfl
      | ok depth =>
          simp only [Run.ok_bind]
          change ((extractWalk strings).run (.nops after)
            { state with depth } >>= _) = _
          rw [extractWalk_nops, Run.ok_bind,
            loop_fin (extractBody_steady short) place.forest_rest]
          change ((checkEnd state.sawRoot depth >>= _) >>= _) = _
          cases checkEnd state.sawRoot depth <;> rfl

end

end Pocketboot.Kexec
