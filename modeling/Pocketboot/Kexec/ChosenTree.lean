import Pocketboot.Kexec.ChosenWalk

/-!
# What `patch_chosen` writes

The new structure block is that of the old tree with the boot properties of
the root's `chosen` nodes replaced, and with such a node added when there was
none.
-/

namespace Pocketboot.Kexec

open DeviceTree

/-! ## The edit of a tree -/

section

variable (new : List (Bytes × Bytes))

/-- A body without its old boot properties. -/
def withoutBootProps : Content → Content
  | .nil => .nil
  | .prop name value rest =>
      if name.any shouldReplaceChosenProp then withoutBootProps rest
      else .prop name value (withoutBootProps rest)
  | .node name body rest => .node name body (withoutBootProps rest)

/-- The body of the root with the properties of its `chosen` nodes replaced. -/
def rechosen : Content → Content
  | .nil => .nil
  | .prop name value rest => .prop name value (rechosen rest)
  | .node name body rest =>
      .node name
        (if name = nodeChosen then .prepend new (withoutBootProps body)
          else body)
        (rechosen rest)

def hasChosen : Content → Bool
  | .nil => false
  | .prop _ _ rest => hasChosen rest
  | .node name _ rest => name = nodeChosen || hasChosen rest

/-- The same with a `chosen` node added at the end when there was none. -/
def withChosen (body : Content) : Content :=
  if hasChosen body then rechosen new body
  else (rechosen new body).append (.node nodeChosen (.prepend new .nil) .nil)

end

/-- The boot properties of a command line and an initrd. -/
def chosenProps (cmdline : Str) (initrd : Option (Nat × Nat)) :
    List (Bytes × Bytes) :=
  (if cmdline.bytes = [] then [] else [(propBootargs, cmdline.bytes ++ [0])]) ++
    ((initrd.elim [] fun range =>
        [(propInitrdStart, Bytes.toBe 8 range.1),
          (propInitrdEnd, Bytes.toBe 8 range.2)]) ++
      [(propBootedFromKexec, [])])

/-! ## The bytes that are written -/

section

variable (strings new : Bytes)

theorem nodeChosen_noNul : (0 : UInt8) ∉ nodeChosen := by decide

/-- A body without its old boot properties, padded anew. -/
def stripped : Forest → Forest
  | .nil => .nil
  | .nop rest => .nop (stripped rest)
  | .prop property rest =>
      if shouldReplaceChosenProp
        ((DeviceTree.stringAt strings property.nameoff).getD [])
      then stripped rest
      else .prop property (stripped rest)
  | .node name body rest =>
      .node (.plain name.text name.noNul) body.plain (stripped rest)

def rechosenBytes : Forest → Bytes
  | .nil => []
  | .nop rest => be32 nopToken ++ rechosenBytes rest
  | .prop property rest => property.bytes ++ rechosenBytes rest
  | .node name body rest =>
      (NodeName.plain name.text name.noNul).bytes ++
        ((if name.text = nodeChosen then new ++ (stripped strings body).bytes
          else body.plain.bytes) ++ (be32 endNodeToken ++ rechosenBytes rest))

/-- The `chosen` node that is added when there was none. -/
def addedBytes : Bytes :=
  (NodeName.plain nodeChosen nodeChosen_noNul).bytes ++
    (new ++ be32 endNodeToken)

theorem rechosenBytes_length_mod {new : Bytes} (whole : new.length % 4 = 0)
    (forest : Forest) :
    (rechosenBytes strings new forest).length % 4 = 0 := by
  induction forest with
  | nil => rfl
  | nop rest induction =>
      rw [rechosenBytes, List.length_append, Bytes.toBe_length]
      omega
  | prop property rest induction =>
      have width := (Lexeme.prop property).bytes_length_mod
      rw [Lexeme.bytes] at width
      rw [rechosenBytes, List.length_append]
      omega
  | node name body rest _ induction =>
      have width := (Lexeme.beginNode
        (NodeName.plain name.text name.noNul)).bytes_length_mod
      rw [Lexeme.bytes] at width
      have stripped := (stripped strings body).bytes_length_mod
      have copied := body.plain.bytes_length_mod
      rw [rechosenBytes]
      split <;> simp only [List.length_append, Bytes.toBe_length] <;> omega

/-- The body of the root. -/
def rootBytes (body : Forest) : Bytes :=
  rechosenBytes strings new body ++
    if hasChosen (body.content strings) then [] else addedBytes new

/-- The whole block up to its end token. -/
def patchedBytes : Forest → Bytes
  | .nil => []
  | .nop rest => be32 nopToken ++ patchedBytes rest
  | .prop property rest => property.bytes ++ patchedBytes rest
  | .node name body rest =>
      (NodeName.plain name.text name.noNul).bytes ++
        (rootBytes strings new body ++ (be32 endNodeToken ++ patchedBytes rest))

end

/-! ## Runs of the walk -/

section

variable {strings : Bytes} {offsets : ChosenOffsets} {cmdline : Str}
  {initrd : Option (Nat × Nat)}

/-- Neither here nor below is there anything to write. -/
def Untouched (stack : List Bytes) : Prop :=
  stack ≠ [] ∧ ∀ more,
    isRoot (stack ++ more) = false ∧ isChosen (stack ++ more) = false

theorem Untouched.inner {stack : List Bytes} (untouched : Untouched stack)
    (name : Bytes) : Untouched (stack ++ [name]) := by
  refine ⟨by simp, fun more => ?_⟩
  rw [List.append_assoc]
  exact untouched.2 _

theorem Untouched.here {stack : List Bytes} (untouched : Untouched stack) :
    isRoot stack = false ∧ isChosen stack = false := by
  have := untouched.2 []
  rwa [List.append_nil] at this

theorem untouched_of_ne {name : Bytes} (other : name ≠ nodeChosen) :
    Untouched [[], name] := by
  refine ⟨by simp, fun more => ⟨rfl, ?_⟩⟩
  cases more with
  | nil => exact decide_eq_false other
  | cons _ _ => rfl

theorem untouched_of_deep (name inner : Bytes) :
    Untouched [[], name, inner] :=
  ⟨by simp, fun _ => ⟨rfl, rfl⟩⟩

namespace PatchState

/-- The state with more output. -/
def wrote (state : PatchState) (bytes : Bytes) : PatchState :=
  { state with output := state.output ++ bytes }

/-- The state in a node. -/
def inside (state : PatchState) (name : Bytes) : PatchState :=
  { state with stack := state.stack ++ [name] }

@[simp] theorem wrote_stack (state : PatchState) (bytes : Bytes) :
    (state.wrote bytes).stack = state.stack := rfl

@[simp] theorem inside_stack (state : PatchState) (name : Bytes) :
    (state.inside name).stack = state.stack ++ [name] := rfl

@[simp] theorem inside_output (state : PatchState) (name : Bytes) :
    (state.inside name).output = state.output := rfl

@[simp] theorem wrote_nil (state : PatchState) : state.wrote [] = state := by
  rw [wrote, List.append_nil]

@[simp] theorem wrote_wrote (state : PatchState) (first second : Bytes) :
    (state.wrote first).wrote second = state.wrote (first ++ second) := by
  rw [wrote, wrote, wrote, List.append_assoc]

theorem inside_wrote (state : PatchState) (name bytes : Bytes) :
    (state.inside name).wrote bytes = (state.wrote bytes).inside name := rfl

theorem wrote_aligned {state : PatchState} {bytes : Bytes}
    (aligned : state.output.length % 4 = 0)
    (whole : bytes.length % 4 = 0) :
    (state.wrote bytes).output.length % 4 = 0 := by
  rw [wrote, List.length_append]
  omega

/-- The state with what is known of `chosen` nodes. -/
def marked (state : PatchState) (sawChosen : Bool) : PatchState :=
  { state with sawChosen }

end PatchState

/-- The name of a node as it is written. -/
abbrev nameBytes (name : NodeName) : Bytes :=
  (NodeName.plain name.text name.noNul).bytes

theorem nameBytes_length_mod (name : NodeName) :
    (nameBytes name).length % 4 = 0 :=
  (Lexeme.beginNode (NodeName.plain name.text name.noNul)).bytes_length_mod

theorem endNode_length_mod : (be32 endNodeToken).length % 4 = 0 := by
  rw [Bytes.toBe_length]

theorem enter_untouched {state : PatchState} {name : NodeName}
    (inner : Forest) (untouched : Untouched (state.stack ++ [name.text]))
    (nonempty : state.stack ≠ []) (aligned : state.output.length % 4 = 0) :
    (patchWalk strings offsets cmdline initrd).enter state name inner =
      .ok ((state.wrote (nameBytes name)).inside name.text, false) := by
  have notEmpty : state.stack.isEmpty = false :=
    List.isEmpty_eq_false_iff.mpr nonempty
  simp only [patchWalk, Run.ensure_of (show state.stack = [] → name.text = []
    from fun absurd => (nonempty absurd).elim), Run.ok_bind, enterNode,
    untouched.here.2, notEmpty, writeBeginNode_eq name.noNul aligned,
    Bool.false_eq_true, if_false, Bool.or_false]
  rfl

theorem leave_inner {state : PatchState} {name : Bytes}
    (notRoot : isRoot (state.stack ++ [name]) = false) :
    (patchWalk strings offsets cmdline initrd).leave (state.inside name) =
      .ok (state.wrote (be32 endNodeToken)) := by
  have nothing : ensureChosen offsets cmdline initrd (state.inside name) =
      .ok (state.inside name) := by
    rw [ensureChosen, PatchState.inside_stack, notRoot]
    rfl
  change (ensureChosen offsets cmdline initrd (state.inside name) >>= _) = _
  rw [nothing, Run.ok_bind, Run.ensure_of (by simp), Run.ok_bind,
    PatchState.inside_stack, List.dropLast_concat]
  rfl

/-- Where nothing is to be written, a forest is copied. -/
theorem run_untouched (forest : Forest) {state : PatchState}
    (untouched : Untouched state.stack)
    (aligned : state.output.length % 4 = 0) :
    (patchWalk strings offsets cmdline initrd).run forest state =
      .ok (state.wrote forest.plain.bytes) := by
  induction forest generalizing state with
  | nil => exact congrArg Except.ok state.wrote_nil.symm
  | nop rest induction =>
      have next := @induction (state.wrote (be32 nopToken)) untouched
        (state.wrote_aligned aligned (by rw [Bytes.toBe_length]))
      rw [Walk.run]
      change (patchWalk strings offsets cmdline initrd).run rest
        (state.wrote (be32 nopToken)) = _
      rw [next, PatchState.wrote_wrote, Forest.plain, Forest.bytes]
  | prop property rest induction =>
      have whole := (Lexeme.prop property).bytes_length_mod
      have next := @induction (state.wrote property.bytes) untouched
        (PatchState.wrote_aligned aligned whole)
      have step : (patchWalk strings offsets cmdline initrd).prop state
          property = .ok (state.wrote property.bytes) := by
        simp only [patchWalk, untouched.here.2, Bool.false_and,
          Bool.false_eq_true, if_false, PatchState.wrote]
      rw [Walk.run, step, Run.ok_bind, next, PatchState.wrote_wrote,
        Forest.plain, Forest.bytes]
  | node name body rest bodyInduction restInduction =>
      have below := untouched.inner name.text
      have named := PatchState.wrote_aligned aligned (nameBytes_length_mod name)
      have filled := PatchState.wrote_aligned named body.plain.bytes_length_mod
      have closed := PatchState.wrote_aligned filled endNode_length_mod
      rw [Walk.run, enter_untouched body below untouched.1 aligned]
      simp only [Run.ok_bind, Bool.false_eq_true, if_false]
      rw [@bodyInduction ((state.wrote (nameBytes name)).inside name.text) below
        named, Run.ok_bind, PatchState.inside_wrote,
        @leave_inner _ _ _ _ ((state.wrote _).wrote _) _ below.here.1,
        Run.ok_bind, @restInduction (((state.wrote _).wrote _).wrote _)
          untouched closed, Forest.plain, Forest.bytes]
      simp only [PatchState.wrote_wrote, List.append_assoc]

/-- In a `chosen` node of the root the old boot properties are left out. -/
theorem run_chosen (forest : Forest) {state : PatchState}
    (here : state.stack = [[], nodeChosen])
    (aligned : state.output.length % 4 = 0) :
    (patchWalk strings offsets cmdline initrd).run forest state =
      .ok (state.wrote (stripped strings forest).bytes) := by
  have chosen : isChosen state.stack = true := by
    rw [here]
    exact decide_eq_true (p := nodeChosen = nodeChosen) rfl
  induction forest generalizing state with
  | nil => exact congrArg Except.ok state.wrote_nil.symm
  | nop rest induction =>
      have next := @induction (state.wrote (be32 nopToken)) here
        (PatchState.wrote_aligned aligned (by rw [Bytes.toBe_length])) chosen
      rw [Walk.run]
      change (patchWalk strings offsets cmdline initrd).run rest
        (state.wrote (be32 nopToken)) = _
      rw [next, PatchState.wrote_wrote, stripped, Forest.bytes]
  | prop property rest induction =>
      have whole := (Lexeme.prop property).bytes_length_mod
      have step : (patchWalk strings offsets cmdline initrd).prop state
          property = if shouldReplaceChosenProp
            ((DeviceTree.stringAt strings property.nameoff).getD [])
          then .ok state else .ok (state.wrote property.bytes) := by
        simp only [patchWalk, chosen, Bool.true_and, stringAt_eq,
          PatchState.wrote]
      rw [Walk.run, step, stripped]
      split
      · exact induction here aligned chosen
      · have next := @induction (state.wrote property.bytes) here
          (PatchState.wrote_aligned aligned whole) chosen
        rw [Run.ok_bind, next, PatchState.wrote_wrote, Forest.bytes]
  | node name body rest _ induction =>
      have below : Untouched (state.stack ++ [name.text]) := by
        rw [here]
        exact untouched_of_deep nodeChosen name.text
      have nonempty : state.stack ≠ [] := by
        rw [here]
        simp
      have named := PatchState.wrote_aligned aligned (nameBytes_length_mod name)
      have filled := PatchState.wrote_aligned named body.plain.bytes_length_mod
      have closed := PatchState.wrote_aligned filled endNode_length_mod
      rw [Walk.run, enter_untouched body below nonempty aligned]
      simp only [Run.ok_bind, Bool.false_eq_true, if_false]
      rw [@run_untouched _ _ _ _ body ((state.wrote _).inside name.text) below
        named, Run.ok_bind, PatchState.inside_wrote,
        @leave_inner _ _ _ _ ((state.wrote _).wrote _) _ below.here.1,
        Run.ok_bind, @induction (((state.wrote _).wrote _).wrote _) here closed
          chosen, stripped, Forest.bytes]
      simp only [PatchState.wrote_wrote, List.append_assoc]

/-- In a `chosen` node of the root the new properties come first. -/
theorem enter_chosen {state : PatchState} {name : NodeName} (inner : Forest)
    (root : state.stack = [[]]) (chosen : name.text = nodeChosen)
    (aligned : state.output.length % 4 = 0) :
    (patchWalk strings offsets cmdline initrd).enter state name inner =
      .ok ((((state.wrote (nameBytes name)).wrote
        (chosenBytes offsets cmdline initrd)).inside name.text).marked true,
        false) := by
  have here : isChosen (state.stack ++ [name.text]) = true := by
    rw [root, chosen]
    exact decide_eq_true (p := nodeChosen = nodeChosen) rfl
  have notEmpty : state.stack.isEmpty = false := by
    rw [root]
    rfl
  have nonempty : state.stack = [] → name.text = [] := by
    rw [root]
    simp
  have named := PatchState.wrote_aligned aligned (nameBytes_length_mod name)
  have appended : ∀ stack sawRoot sawChosen, enterNode offsets cmdline initrd
      ⟨(state.wrote (nameBytes name)).output, stack, sawRoot, sawChosen⟩ =
      if isChosen stack then .ok ⟨(state.wrote (nameBytes name)).output ++
        chosenBytes offsets cmdline initrd, stack, sawRoot, true⟩
      else .ok ⟨(state.wrote (nameBytes name)).output, stack, sawRoot,
        sawChosen⟩ := by
    intro stack sawRoot sawChosen
    rw [enterNode]
    dsimp only
    rw [appendChosenProps_eq named]
    rfl
  change (Run.ensure (state.stack = [] → name.text = []) _ >>= _) = _
  rw [Run.ensure_of nonempty, Run.ok_bind, writeBeginNode_eq name.noNul aligned,
    notEmpty]
  change (enterNode offsets cmdline initrd ⟨(state.wrote (nameBytes name)).output,
    _, _, _⟩ >>= _) = _
  rw [appended, if_pos here, Bool.or_false]
  rfl

/-- In the root its `chosen` nodes are rewritten and the rest is copied. -/
theorem run_root (forest : Forest) {state : PatchState}
    (root : state.stack = [[]]) (aligned : state.output.length % 4 = 0) :
    (patchWalk strings offsets cmdline initrd).run forest state =
      .ok ((state.wrote (rechosenBytes strings
          (chosenBytes offsets cmdline initrd) forest)).marked
        (state.sawChosen || hasChosen (forest.content strings))) := by
  have plain : isChosen state.stack = false := by
    rw [root]
    rfl
  induction forest generalizing state with
  | nil =>
      rw [rechosenBytes, PatchState.wrote_nil, Forest.content, hasChosen,
        Bool.or_false]
      rfl
  | nop rest induction =>
      have next := @induction (state.wrote (be32 nopToken)) root
        (PatchState.wrote_aligned aligned (by rw [Bytes.toBe_length])) plain
      rw [Walk.run]
      change (patchWalk strings offsets cmdline initrd).run rest
        (state.wrote (be32 nopToken)) = _
      rw [next, PatchState.wrote_wrote, rechosenBytes, Forest.content]
      rfl
  | prop property rest induction =>
      have whole := (Lexeme.prop property).bytes_length_mod
      have next := @induction (state.wrote property.bytes) root
        (PatchState.wrote_aligned aligned whole) plain
      have step : (patchWalk strings offsets cmdline initrd).prop state
          property = .ok (state.wrote property.bytes) := by
        simp only [patchWalk, plain, Bool.false_and, Bool.false_eq_true,
          if_false, PatchState.wrote]
      rw [Walk.run, step, Run.ok_bind, next, PatchState.wrote_wrote,
        rechosenBytes, Forest.content, hasChosen]
      rfl
  | node name body rest _ induction =>
      have named := PatchState.wrote_aligned aligned (nameBytes_length_mod name)
      have notRoot : isRoot (state.stack ++ [name.text]) = false := by
        rw [root]
        rfl
      rw [Walk.run, rechosenBytes, Forest.content, hasChosen]
      by_cases chosen : name.text = nodeChosen
      · have headed := PatchState.wrote_aligned named
          (@chosenBytes_length_mod offsets cmdline initrd)
        have filled := PatchState.wrote_aligned headed
          (stripped strings body).bytes_length_mod
        have closed := PatchState.wrote_aligned filled endNode_length_mod
        have inside := @run_chosen strings offsets cmdline initrd body
          ((((state.wrote (nameBytes name)).wrote
            (chosenBytes offsets cmdline initrd)).inside name.text).marked true)
          (by
            change state.stack ++ [name.text] = _
            rw [root, chosen]
            rfl) headed
        have leaving := @leave_inner strings offsets cmdline initrd
          ((((state.wrote (nameBytes name)).wrote
            (chosenBytes offsets cmdline initrd)).wrote
            (stripped strings body).bytes).marked true) name.text notRoot
        have next := @induction (((((state.wrote (nameBytes name)).wrote
          (chosenBytes offsets cmdline initrd)).wrote
          (stripped strings body).bytes).wrote (be32 endNodeToken)).marked true)
          root closed plain
        rw [enter_chosen body root chosen aligned]
        simp only [Run.ok_bind, Bool.false_eq_true, if_false]
        rw [inside, Run.ok_bind]
        change ((patchWalk strings offsets cmdline initrd).leave
          (PatchState.inside (((( state.wrote (nameBytes name)).wrote
            (chosenBytes offsets cmdline initrd)).wrote
            (stripped strings body).bytes).marked true) name.text) >>= _) = _
        rw [leaving, Run.ok_bind]
        change (patchWalk strings offsets cmdline initrd).run rest
          (((((state.wrote (nameBytes name)).wrote
            (chosenBytes offsets cmdline initrd)).wrote
            (stripped strings body).bytes).wrote
              (be32 endNodeToken)).marked true) = _
        have seen : decide (name.text = nodeChosen) = true :=
          decide_eq_true chosen
        rw [next, if_pos chosen, seen]
        simp only [Bool.true_or, Bool.or_true, PatchState.wrote,
          PatchState.marked, List.append_assoc]
      · have below : Untouched (state.stack ++ [name.text]) := by
          rw [root]
          exact untouched_of_ne chosen
        have nonempty : state.stack ≠ [] := by
          rw [root]
          simp
        have filled := PatchState.wrote_aligned named
          body.plain.bytes_length_mod
        have closed := PatchState.wrote_aligned filled endNode_length_mod
        rw [enter_untouched body below nonempty aligned]
        simp only [Run.ok_bind, Bool.false_eq_true, if_false]
        rw [@run_untouched _ _ _ _ body ((state.wrote _).inside name.text) below
          named, Run.ok_bind, PatchState.inside_wrote,
          @leave_inner _ _ _ _ ((state.wrote _).wrote _) _ notRoot, Run.ok_bind,
          @induction (((state.wrote _).wrote _).wrote _) root closed plain,
          if_neg chosen]
        simp only [chosen, decide_false, Bool.false_or, PatchState.wrote,
          List.append_assoc]

/-- Outside of the root only no-operations are copied. -/
theorem run_blank (forest : Forest) {state : PatchState}
    (blank : forest.content strings = .nil) :
    (patchWalk strings offsets cmdline initrd).run forest state =
      .ok (state.wrote (patchedBytes strings
        (chosenBytes offsets cmdline initrd) forest)) := by
  induction forest generalizing state with
  | nil => exact congrArg Except.ok state.wrote_nil.symm
  | nop rest induction =>
      rw [Walk.run]
      change (patchWalk strings offsets cmdline initrd).run rest
        (state.wrote (be32 nopToken)) = _
      rw [@induction (state.wrote (be32 nopToken)) blank,
        PatchState.wrote_wrote, patchedBytes]
  | prop property rest _ => cases blank
  | node name body rest _ _ => cases blank

/-- The end of the root adds a `chosen` node when there was none. -/
theorem leave_root {state : PatchState} (empty : state.stack = [])
    (aligned : state.output.length % 4 = 0) :
    (patchWalk strings offsets cmdline initrd).leave (state.inside []) =
      .ok (((state.wrote (if state.sawChosen then []
        else addedBytes (chosenBytes offsets cmdline initrd))).wrote
          (be32 endNodeToken)).marked true) := by
  obtain ⟨output, stack, sawRoot, sawChosen⟩ := state
  obtain rfl : stack = [] := empty
  have named : (output ++ (NodeName.plain nodeChosen
      nodeChosen_noNul).bytes).length % 4 = 0 :=
    @PatchState.wrote_aligned ⟨output, [], sawRoot, sawChosen⟩ _ aligned
      (nameBytes_length_mod (NodeName.plain nodeChosen nodeChosen_noNul))
  have ensured : ensureChosen offsets cmdline initrd
      ⟨output, [[]], sawRoot, sawChosen⟩ =
      .ok ⟨output ++ (if sawChosen then []
        else addedBytes (chosenBytes offsets cmdline initrd)), [[]], sawRoot,
        true⟩ := by
    cases sawChosen with
    | true =>
        rw [if_pos rfl, List.append_nil]
        rfl
    | false =>
        change (appendChosenProps (writeBeginNode output nodeChosen)
          offsets cmdline initrd >>= _) = _
        rw [writeBeginNode_eq nodeChosen_noNul aligned,
          appendChosenProps_eq named, if_neg (by simp)]
        simp only [Run.ok_bind, writeBe32, addedBytes, List.append_assoc]
        rfl
  change (ensureChosen offsets cmdline initrd
    ⟨output, [[]], sawRoot, sawChosen⟩ >>= _) = _
  rw [ensured]
  rfl

/-- The whole block. -/
theorem run_ground (forest : Forest) {body : Content} {state : PatchState}
    (content : forest.content strings = .node [] body .nil)
    (empty : state.stack = []) (fresh : state.sawChosen = false)
    (aligned : state.output.length % 4 = 0) :
    (patchWalk strings offsets cmdline initrd).run forest state =
      .ok ({ state.wrote (patchedBytes strings
        (chosenBytes offsets cmdline initrd) forest) with
          sawRoot := true, sawChosen := true }) := by
  induction forest generalizing state with
  | nil => cases content
  | nop rest induction =>
      rw [Walk.run]
      change (patchWalk strings offsets cmdline initrd).run rest
        (state.wrote (be32 nopToken)) = _
      rw [@induction (state.wrote (be32 nopToken)) content empty fresh
        (PatchState.wrote_aligned aligned (by rw [Bytes.toBe_length])),
        PatchState.wrote_wrote, patchedBytes]
  | prop property rest _ => cases content
  | node name inner rest _ _ =>
      obtain ⟨unnamed, rfl, blank⟩ := Content.node.inj content
      have named := PatchState.wrote_aligned aligned (nameBytes_length_mod name)
      let entered : PatchState :=
        { (state.wrote (nameBytes name)) with sawRoot := true }
      have enters : (patchWalk strings offsets cmdline initrd).enter state name
          inner = .ok (entered.inside [], false) := by
        change (Run.ensure (state.stack = [] → name.text = []) _ >>= _) = _
        rw [Run.ensure_of (fun _ => unnamed), Run.ok_bind,
          writeBeginNode_eq name.noNul aligned]
        obtain ⟨output, stack, sawRoot, sawChosen⟩ := state
        obtain ⟨text, pad, noNul, padded, pad_lt⟩ := name
        obtain rfl : stack = [] := empty
        obtain rfl : text = [] := unnamed
        dsimp only
        rw [List.isEmpty_nil, Bool.or_true]
        rfl
      have inside := @run_root strings offsets cmdline initrd inner
        (entered.inside []) (by
          change state.stack ++ [[]] = _
          rw [empty]
          rfl) named
      have filled := PatchState.wrote_aligned named
        (rechosenBytes_length_mod strings
          (@chosenBytes_length_mod offsets cmdline initrd) inner)
      have leaves := @leave_root strings offsets cmdline initrd
        ((entered.wrote (rechosenBytes strings
          (chosenBytes offsets cmdline initrd) inner)).marked
            (hasChosen (inner.content strings))) empty filled
      have marks : (entered.inside []).sawChosen = false := fresh
      rw [Walk.run, enters]
      simp only [Run.ok_bind, Bool.false_eq_true, if_false]
      rw [inside, Run.ok_bind, marks, Bool.false_or]
      change ((patchWalk strings offsets cmdline initrd).leave
        (PatchState.inside ((entered.wrote (rechosenBytes strings
          (chosenBytes offsets cmdline initrd) inner)).marked
            (hasChosen (inner.content strings))) []) >>= _) = _
      rw [leaves, Run.ok_bind, run_blank rest blank, patchedBytes, rootBytes]
      simp only [entered, PatchState.wrote, PatchState.marked,
        List.append_assoc]

end

end Pocketboot.Kexec
