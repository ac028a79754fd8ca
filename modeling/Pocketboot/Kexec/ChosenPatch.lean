import Pocketboot.Kexec.ChosenEdit
import Pocketboot.Kexec.TreeWrite

/-!
# `patch_chosen` as an edit of the tree

The blob that `patch_chosen` returns decodes to the old tree with its `chosen`
nodes edited, and its reserved ranges are those of the old blob.
-/

namespace Pocketboot.Kexec

open DeviceTree

/-! ## The forest that is written -/

section

variable (strings : Bytes) (new : List Property)

def rechosenForest : Forest → Forest
  | .nil => .nil
  | .nop rest => .nop (rechosenForest rest)
  | .prop property rest => .prop property (rechosenForest rest)
  | .node name body rest =>
      .node (.plain name.text name.noNul)
        (if name.text = nodeChosen then .prepend new (stripped strings body)
          else body.plain)
        (rechosenForest rest)

/-- The `chosen` node that is added when there was none. -/
def addedForest (body : Forest) : Forest :=
  if hasChosen (body.content strings) then .nil
  else .node (.plain nodeChosen nodeChosen_noNul) (.prepend new .nil) .nil

def patchedForest : Forest → Forest
  | .nil => .nil
  | .nop rest => .nop (patchedForest rest)
  | .prop property rest => .prop property (patchedForest rest)
  | .node name body rest =>
      .node (.plain name.text name.noNul)
        ((rechosenForest strings new body).append
          (addedForest strings new body))
        (patchedForest rest)

theorem rechosenForest_bytes (forest : Forest) :
    (rechosenForest strings new forest).bytes =
      rechosenBytes strings (new.flatMap Property.bytes) forest := by
  induction forest with
  | nil => rfl
  | nop rest induction =>
      rw [rechosenForest, Forest.bytes, induction, rechosenBytes]
  | prop property rest induction =>
      rw [rechosenForest, Forest.bytes, induction, rechosenBytes]
  | node name body rest _ induction =>
      rw [rechosenForest, Forest.bytes, induction, rechosenBytes]
      split
      · rw [Forest.prepend_bytes]
      · rfl

theorem patchedForest_bytes (forest : Forest) :
    (patchedForest strings new forest).bytes =
      patchedBytes strings (new.flatMap Property.bytes) forest := by
  induction forest with
  | nil => rfl
  | nop rest induction =>
      rw [patchedForest, Forest.bytes, induction, patchedBytes]
  | prop property rest induction =>
      rw [patchedForest, Forest.bytes, induction, patchedBytes]
  | node name body rest _ induction =>
      rw [patchedForest, Forest.bytes, induction, patchedBytes, rootBytes,
        Forest.bytes_append, rechosenForest_bytes, addedForest]
      split
      · simp [Forest.bytes]
      · simp [Forest.bytes, addedBytes]

end

section

variable {strings : Bytes} {new : List Property} {props : List (Bytes × Bytes)}

/-- The properties as the strings block names them. -/
def Spelled (strings : Bytes) (new : List Property)
    (props : List (Bytes × Bytes)) : Prop :=
  new.map (fun property =>
      (DeviceTree.stringAt strings property.nameoff, property.value)) =
    props.map fun item => (some item.1, item.2)

theorem prepend_content (spelled : Spelled strings new props)
    (rest : Forest) :
    (Forest.prepend new rest).content strings =
      Content.prepend props (rest.content strings) := by
  induction new generalizing props with
  | nil =>
      cases props with
      | nil => rfl
      | cons item props => cases spelled
  | cons property new induction =>
      cases props with
      | nil => cases spelled
      | cons item props =>
          obtain ⟨head, tail⟩ := List.cons.inj spelled
          obtain ⟨named, same⟩ := Prod.mk.inj head
          rw [Content.prepend_cons, ← induction tail, ← same, ← named]
          rfl

theorem stripped_content (forest : Forest) :
    (stripped strings forest).content strings =
      withoutBootProps (forest.content strings) := by
  induction forest with
  | nil => rfl
  | nop rest induction => exact induction
  | prop property rest induction =>
      rw [stripped, Forest.content, withoutBootProps, ← induction]
      cases found : DeviceTree.stringAt strings property.nameoff with
      | none =>
          rw [Option.getD_none, if_neg (by decide), Option.any_none,
            if_neg (by simp), Forest.content, found]
      | some name =>
          rw [Option.getD_some, Option.any_some]
          split
          · rfl
          · rw [Forest.content, found]
  | node name body rest _ induction =>
      rw [stripped, Forest.content, Forest.content, withoutBootProps,
        Forest.plain_content, induction]
      rfl

theorem rechosenForest_content (spelled : Spelled strings new props)
    (forest : Forest) :
    (rechosenForest strings new forest).content strings =
      rechosen props (forest.content strings) := by
  induction forest with
  | nil => rfl
  | nop rest induction => exact induction
  | prop property rest induction =>
      rw [rechosenForest, Forest.content, Forest.content, rechosen, induction]
  | node name body rest _ induction =>
      rw [rechosenForest, Forest.content, Forest.content, rechosen, induction]
      congr 1
      rw [apply_ite (Forest.content strings), prepend_content spelled,
        stripped_content, Forest.plain_content]

theorem patchedForest_content (spelled : Spelled strings new props)
    {forest : Forest} {body : Content}
    (content : forest.content strings = .node [] body .nil) :
    (patchedForest strings new forest).content strings =
      .node [] (withChosen props body) .nil := by
  have blank : ∀ forest : Forest, forest.content strings = .nil →
      (patchedForest strings new forest).content strings = .nil := by
    intro forest blank
    induction forest with
    | nil => rfl
    | nop rest induction => exact induction blank
    | prop property rest _ => cases blank
    | node name body rest _ _ => cases blank
  induction forest with
  | nil => cases content
  | nop rest induction => exact induction content
  | prop property rest _ => cases content
  | node name inner rest _ _ =>
      obtain ⟨unnamed, rfl, after⟩ := Content.node.inj content
      rw [patchedForest, Forest.content, blank rest after,
        Forest.content_append, rechosenForest_content spelled, addedForest,
        withChosen]
      congr 1
      split
      · exact Content.append_nil _
      · rw [Forest.content, prepend_content spelled]
        rfl

end

/-! ## The structure block -/

section

variable {block strings trailing : Bytes} {offsets : ChosenOffsets}
  {cmdline : Str} {initrd : Option (Nat × Nat)} {forest : Forest}
  {body : Content}

theorem patchStructureBlock_eq (short : block.length < 2 ^ 32)
    (holds : block = forest.bytes ++ (be32 endToken ++ trailing))
    (content : forest.content strings = .node [] body .nil) :
    patchStructureBlock block strings offsets cmdline initrd =
      .ok (patchedBytes strings (chosenBytes offsets cmdline initrd) forest ++
        be32 endToken) := by
  have place : At block 0 (forest.bytes ++ (be32 endToken ++ trailing)) :=
    ⟨holds, rfl, Nat.zero_le _, short⟩
  have length := cmdline.length_lt
  rw [patchStructureBlock, addOrPanic_of (by unfold wordSize; omega),
    Run.ok_bind, addOrPanic_of (by unfold wordSize; omega), Run.ok_bind,
    loop_forest patchBody_steady
      (patchWalk_follows strings offsets cmdline initrd block) forest place,
    run_ground forest content rfl rfl rfl, Run.ok_bind,
    loop_fin patchBody_steady place.forest_rest]
  change ((Run.ensure (true = true) _ >>= _) >>= _) = _
  rw [Run.ensure_of rfl, Run.ok_bind]
  change ((Run.ensure (([] : List Bytes) = []) _ >>= _) >>= _) = _
  rw [Run.ensure_of rfl, Run.ok_bind]
  rfl

/-- The new properties are written at least once. -/
theorem length_le_patchedBytes {new : Bytes}
    (content : forest.content strings = .node [] body .nil) :
    new.length ≤ (patchedBytes strings new forest).length := by
  have inChosen : ∀ forest : Forest,
      hasChosen (forest.content strings) = true →
      new.length ≤ (rechosenBytes strings new forest).length := by
    intro forest present
    induction forest with
    | nil => cases present
    | nop rest induction =>
        rw [rechosenBytes, List.length_append]
        exact (induction present).trans (Nat.le_add_left _ _)
    | prop property rest induction =>
        rw [rechosenBytes, List.length_append]
        exact (induction present).trans (Nat.le_add_left _ _)
    | node name body rest _ induction =>
        rw [Forest.content, hasChosen, Bool.or_eq_true,
          decide_eq_true_eq] at present
        rw [rechosenBytes]
        simp only [List.length_append]
        split
        · simp only [List.length_append]
          omega
        · rename_i other
          have := induction (present.resolve_left other)
          omega
  induction forest with
  | nil => cases content
  | nop rest induction =>
      rw [patchedBytes, List.length_append]
      exact (induction content).trans (Nat.le_add_left _ _)
  | prop property rest _ => cases content
  | node name inner rest _ _ =>
      rw [patchedBytes, rootBytes]
      simp only [List.length_append]
      split
      · rename_i present
        have := inChosen inner present
        omega
      · simp only [addedBytes, List.length_append]
        omega

/-- The command line is part of what is written. -/
theorem cmdline_short
    (content : forest.content strings = .node [] body .nil)
    (small : (patchedBytes strings
      (chosenBytes offsets cmdline initrd) forest).length < 2 ^ 32) :
    cmdline.bytes.length + 1 < 2 ^ 32 := by
  have written := (length_le_patchedBytes content).trans_lt small
  rw [chosenBytes, List.length_append, bootargsBytes] at written
  split at written
  · rename_i empty
    rw [empty]
    decide
  · rw [propBytes_length, List.length_append] at written
    have padded : cmdline.bytes.length + 1 ≤
        align4 (cmdline.bytes.length + 1) := by
      unfold align4
      omega
    simp only [List.length_singleton] at written
    omega

/-- How long the block becomes depends only on how long the properties are. -/
theorem patchedBytes_length_congr {new new' : Bytes}
    (same : new.length = new'.length) (forest : Forest) :
    (patchedBytes strings new forest).length =
      (patchedBytes strings new' forest).length := by
  have inRoot : ∀ forest : Forest, (rechosenBytes strings new forest).length =
      (rechosenBytes strings new' forest).length := by
    intro forest
    induction forest with
    | nil => rfl
    | nop rest induction =>
        rw [rechosenBytes, rechosenBytes, List.length_append,
          List.length_append, induction]
    | prop property rest induction =>
        rw [rechosenBytes, rechosenBytes, List.length_append,
          List.length_append, induction]
    | node name body rest _ induction =>
        rw [rechosenBytes, rechosenBytes]
        split <;> simp only [List.length_append, induction, same]
  induction forest with
  | nil => rfl
  | nop rest induction =>
      rw [patchedBytes, patchedBytes, List.length_append, List.length_append,
        induction]
  | prop property rest induction =>
      rw [patchedBytes, patchedBytes, List.length_append, List.length_append,
        induction]
  | node name body rest _ induction =>
      rw [patchedBytes, patchedBytes, rootBytes, rootBytes]
      split <;>
        simp only [List.length_append, inRoot, induction, addedBytes, same]

end

/-! ## The strings block -/

/-- The strings block with the names of the boot properties. -/
def withBootStrings (strings : Bytes) : Bytes :=
  withString (withString (withString (withString strings propBootargs)
    propInitrdStart) propInitrdEnd) propBootedFromKexec

/-- The four offsets name the four boot properties. -/
structure ChosenOffsets.Names (offsets : ChosenOffsets) (strings : Bytes) :
    Prop where
  bootargs_lt : offsets.bootargs < 2 ^ 32
  initrdStart_lt : offsets.initrdStart < 2 ^ 32
  initrdEnd_lt : offsets.initrdEnd < 2 ^ 32
  bootedFromKexec_lt : offsets.bootedFromKexec < 2 ^ 32
  bootargs : DeviceTree.stringAt strings offsets.bootargs = some propBootargs
  initrdStart :
    DeviceTree.stringAt strings offsets.initrdStart = some propInitrdStart
  initrdEnd : DeviceTree.stringAt strings offsets.initrdEnd = some propInitrdEnd
  bootedFromKexec : DeviceTree.stringAt strings offsets.bootedFromKexec =
    some propBootedFromKexec

section

variable {strings : Bytes} {offsets : ChosenOffsets} {cmdline : Str}
  {initrd : Option (Nat × Nat)}

/-- What is written is a list of properties with the right names. -/
theorem exists_chosenProperties (names : offsets.Names strings)
    (short : cmdline.bytes.length + 1 < 2 ^ 32) :
    ∃ new, chosenBytes offsets cmdline initrd = new.flatMap Property.bytes ∧
      Spelled strings new (chosenProps cmdline initrd) := by
  have bootargs : ∃ new,
      bootargsBytes offsets cmdline = new.flatMap Property.bytes ∧
      Spelled strings new (if cmdline.bytes = [] then []
        else [(propBootargs, cmdline.bytes ++ [0])]) := by
    unfold bootargsBytes
    split
    · exact ⟨[], rfl, rfl⟩
    · refine ⟨[.plain offsets.bootargs (cmdline.bytes ++ [0])
        names.bootargs_lt (by simpa using short)], ?_, ?_⟩
      · rw [propBytes_plain names.bootargs_lt (by simpa using short)]
        simp
      · exact congrArg (fun name => [(name, cmdline.bytes ++ [0])])
          names.bootargs
  have range : ∃ new,
      initrdBytes offsets initrd = new.flatMap Property.bytes ∧
      Spelled strings new (initrd.elim [] fun range =>
        [(propInitrdStart, Bytes.toBe 8 range.1),
          (propInitrdEnd, Bytes.toBe 8 range.2)]) := by
    cases initrd with
    | none => exact ⟨[], rfl, rfl⟩
    | some range =>
        refine ⟨[.plain offsets.initrdStart (Bytes.toBe 8 range.1)
          names.initrdStart_lt (by simp),
          .plain offsets.initrdEnd (Bytes.toBe 8 range.2)
          names.initrdEnd_lt (by simp)], ?_, ?_⟩
        · rw [initrdBytes, Option.elim_some,
            propBytes_plain names.initrdStart_lt (by simp),
            propBytes_plain names.initrdEnd_lt (by simp)]
          simp
        · change [(_, _), (_, _)] = [(_, _), (_, _)]
          rw [show (Property.plain offsets.initrdStart _ _ _).nameoff =
              offsets.initrdStart from rfl,
            show (Property.plain offsets.initrdEnd _ _ _).nameoff =
              offsets.initrdEnd from rfl, names.initrdStart, names.initrdEnd]
          rfl
  obtain ⟨first, firstBytes, firstSpelled⟩ := bootargs
  obtain ⟨second, secondBytes, secondSpelled⟩ := range
  refine ⟨first ++ (second ++ [.plain offsets.bootedFromKexec []
    names.bootedFromKexec_lt (by simp)]), ?_, ?_⟩
  · rw [chosenBytes, firstBytes, secondBytes,
      propBytes_plain names.bootedFromKexec_lt (by simp)]
    simp
  · unfold Spelled chosenProps at *
    rw [List.map_append, List.map_append, firstSpelled, secondSpelled,
      List.map_append, List.map_append]
    congr 2
    exact congrArg (fun name => [(name, ([] : Bytes))]) names.bootedFromKexec

end

/-! ## Whole blobs -/

/-- A blob of one unnamed root, in which every property has a name. -/
structure HoldsRoot (dtb : Bytes) (forest : Forest) (body : Content) :
    Prop where
  accepted : Accepted dtb
  block : ∃ trailing,
    structBlock dtb = forest.bytes ++ (be32 endToken ++ trailing)
  content : forest.content (stringsBlock dtb) = .node [] body .nil
  named : body.Named

/-- The same with a reserve map. -/
structure DecodesTo (dtb : Bytes) (forest : Forest) (body : Content)
    (entries : List Reservation) : Prop extends HoldsRoot dtb forest body where
  reserved : reservations dtb = some entries

section

variable {dtb : Bytes} {forest : Forest} {body : Content}
  {entries : List Reservation}

theorem DecodesTo.decode (decodes : DecodesTo dtb forest body entries) :
    DeviceTree.decode dtb = some (.node [] body .nil) := by
  obtain ⟨trailing, block⟩ := decodes.block
  rw [decode_forest decodes.accepted.toWellPlaced block, decodes.content]

/-- The reserved ranges of a blob in terms of what it decodes to. -/
theorem DecodesTo.reservedRanges (decodes : DecodesTo dtb forest body entries) :
    reservedRanges dtb = (do
      let ranges ← entryRanges entries
      let state ← reservedVisit.run (.node [] body .nil) startRanges
      return ranges ++ (← finishRanges state)) := by
  obtain ⟨trailing, block⟩ := decodes.block
  have accepted := decodes.accepted
  have named : (forest.content (stringsBlock dtb)).Named := by
    rw [decodes.content]
    exact ⟨decodes.named, trivial⟩
  rw [Kexec.reservedRanges, headerParse_eq_ok.mpr ⟨rfl, accepted⟩,
    Run.ok_bind, checkedSlice_struct accepted, checkedSlice_strings accepted,
    reserveMapRanges_eq accepted decodes.reserved]
  simp only [Run.ok_bind, reservedMemoryNodeRanges_eq
    (structBlock_short accepted.toWellPlaced) block named, decodes.content,
    bind_assoc]

/-- Blobs in whose roots the loop over the reserved nodes sees the same have
the same reserved ranges. -/
theorem reservedRanges_congr {blob : Bytes} {forest' : Forest} {body' : Content}
    (decodes : DecodesTo dtb forest body entries)
    (after : DecodesTo blob forest' body' entries)
    (alike : ∀ state : ReservedState, state.stack = [[]] →
      reservedVisit.run body' state = reservedVisit.run body state) :
    reservedRanges blob = reservedRanges dtb := by
  have same : reservedVisit.run (.node [] body' .nil) startRanges =
      reservedVisit.run (.node [] body .nil) startRanges := by
    rw [Visit.run, Visit.run]
    change (reservedVisit.run body'
      { startRanges with stack := [[]] } >>= _) = (reservedVisit.run body
        { startRanges with stack := [[]] } >>= _)
    rw [alike _ rfl]
  rw [after.reservedRanges, decodes.reservedRanges, same]

theorem reservedRanges_withChosen {blob : Bytes} {forest' : Forest}
    {props : List (Bytes × Bytes)}
    (decodes : DecodesTo dtb forest body entries)
    (patched : DecodesTo blob forest' (withChosen props body) entries) :
    reservedRanges blob = reservedRanges dtb :=
  reservedRanges_congr decodes patched fun _ root => run_withChosen body root

/-- How long the blob with the boot properties becomes. -/
def patchedSize (dtb : Bytes) (forest : Forest) (entries : List Reservation)
    (cmdline : Str) (initrd : Option (Nat × Nat)) : Nat :=
  40 + (reserveMapBytes entries).length +
    (patchedBytes (withBootStrings (stringsBlock dtb))
      (chosenBytes ⟨0, 0, 0, 0⟩ cmdline initrd) forest ++
        be32 endToken).length +
    (withBootStrings (stringsBlock dtb)).length

theorem chosenBytes_length (offsets offsets' : ChosenOffsets) (cmdline : Str)
    (initrd : Option (Nat × Nat)) :
    (chosenBytes offsets cmdline initrd).length =
      (chosenBytes offsets' cmdline initrd).length := by
  have bootargs : (bootargsBytes offsets cmdline).length =
      (bootargsBytes offsets' cmdline).length := by
    unfold bootargsBytes
    split
    · rfl
    · rw [propBytes_length, propBytes_length]
  have range : (initrdBytes offsets initrd).length =
      (initrdBytes offsets' initrd).length := by
    cases initrd with
    | none => rfl
    | some range =>
        simp only [initrdBytes, Option.elim_some, List.length_append,
          propBytes_length]
  simp only [chosenBytes, List.length_append, propBytes_length, bootargs,
    range]

theorem withBootStrings_grown (strings : Bytes) :
    ∃ more, withBootStrings strings = strings ++ more := by
  obtain ⟨first, firstSame⟩ := withString_grown strings propBootargs
  obtain ⟨second, secondSame⟩ := withString_grown (strings ++ first)
    propInitrdStart
  obtain ⟨third, thirdSame⟩ := withString_grown (strings ++ first ++ second)
    propInitrdEnd
  obtain ⟨fourth, fourthSame⟩ :=
    withString_grown (strings ++ first ++ second ++ third) propBootedFromKexec
  refine ⟨first ++ (second ++ (third ++ fourth)), ?_⟩
  rw [withBootStrings, firstSame, secondSame, thirdSame, fourthSame]
  simp

variable {cmdline : Str} {initrd : Option (Nat × Nat)} {blob : Bytes}

/-- The tree with the names of the boot properties in the strings block. -/
theorem DecodesTo.content_withBootStrings
    (decodes : DecodesTo dtb forest body entries) :
    forest.content (withBootStrings (stringsBlock dtb)) =
      .node [] body .nil := by
  obtain ⟨more, grown⟩ := withBootStrings_grown (stringsBlock dtb)
  have named : (forest.content (stringsBlock dtb)).Named := by
    rw [decodes.content]
    exact ⟨decodes.named, trivial⟩
  rw [grown, Forest.content_grown more named, decodes.content]

/-- The blocks for given offsets of the boot properties. -/
theorem patchStructureBlock_decodes
    (decodes : DecodesTo dtb forest body entries) (offsets : ChosenOffsets) :
    patchStructureBlock (structBlock dtb)
        (withBootStrings (stringsBlock dtb)) offsets cmdline initrd =
      .ok (patchedBytes (withBootStrings (stringsBlock dtb))
        (chosenBytes offsets cmdline initrd) forest ++ be32 endToken) := by
  obtain ⟨trailing, block⟩ := decodes.block
  exact patchStructureBlock_eq (structBlock_short decodes.accepted.toWellPlaced)
    block decodes.content_withBootStrings

/-- The size does not depend on where the names are. -/
theorem patchedSize_eq (offsets : ChosenOffsets) :
    patchedSize dtb forest entries cmdline initrd =
      40 + (reserveMapBytes entries).length +
        (patchedBytes (withBootStrings (stringsBlock dtb))
          (chosenBytes offsets cmdline initrd) forest ++
            be32 endToken).length +
        (withBootStrings (stringsBlock dtb)).length := by
  rw [patchedSize, List.length_append, List.length_append,
    patchedBytes_length_congr
      (chosenBytes_length ⟨0, 0, 0, 0⟩ offsets cmdline initrd)]

/-- The blocks of the patched blob, while its size fits the header. -/
theorem exists_patchedBlocks (decodes : DecodesTo dtb forest body entries)
    (small : (withBootStrings (stringsBlock dtb)).length < 2 ^ 32) :
    ∃ offsets : ChosenOffsets,
      offsets.Names (withBootStrings (stringsBlock dtb)) ∧
      patchedBlocks dtb (headerOf dtb) cmdline initrd =
        .ok (patchedBytes (withBootStrings (stringsBlock dtb))
            (chosenBytes offsets cmdline initrd) forest ++ be32 endToken,
          withBootStrings (stringsBlock dtb)) := by
  have accepted := decodes.accepted
  let first := withString (stringsBlock dtb) propBootargs
  let second := withString first propInitrdStart
  let third := withString second propInitrdEnd
  let fourth := withString third propBootedFromKexec
  have firstLe : first.length ≤ second.length := withString_length_le _ _
  have secondLe : second.length ≤ third.length := withString_length_le _ _
  have thirdLe : third.length ≤ fourth.length := withString_length_le _ _
  have fourthShort : fourth.length < 2 ^ 32 := small
  obtain ⟨bootargs, ensuredBootargs, bootargsLt, bootargsNamed⟩ :=
    @ensureString_short (stringsBlock dtb) propBootargs
      (by decide) (show first.length < 2 ^ 32 by omega)
  obtain ⟨initrdStart, ensuredStart, startLt, startNamed⟩ :=
    @ensureString_short first propInitrdStart
      (by decide) (show second.length < 2 ^ 32 by omega)
  obtain ⟨initrdEnd, ensuredEnd, endLt, endNamed⟩ :=
    @ensureString_short second propInitrdEnd
      (by decide) (show third.length < 2 ^ 32 by omega)
  obtain ⟨bootedFromKexec, ensuredBooted, bootedLt, bootedNamed⟩ :=
    @ensureString_short third propBootedFromKexec
      (by decide) fourthShort
  refine ⟨⟨bootargs, initrdStart, initrdEnd, bootedFromKexec⟩,
    ⟨bootargsLt, startLt, endLt, bootedLt, ?_, ?_, ?_, bootedNamed⟩, ?_⟩
  · exact stringAt_withString (stringAt_withString
      (stringAt_withString bootargsNamed _) _) _
  · exact stringAt_withString (stringAt_withString startNamed _) _
  · exact stringAt_withString endNamed _
  · rw [patchedBlocks, checkedSlice_struct accepted, Run.ok_bind,
      checkedSlice_strings accepted, Run.ok_bind, ensuredBootargs,
      Run.ok_bind]
    change (ensureString first propInitrdStart >>= _) = _
    rw [ensuredStart, Run.ok_bind]
    change (ensureString second propInitrdEnd >>= _) = _
    rw [ensuredEnd, Run.ok_bind]
    change (ensureString third propBootedFromKexec >>= _) = _
    rw [ensuredBooted, Run.ok_bind]
    change (patchStructureBlock (structBlock dtb)
      (withBootStrings (stringsBlock dtb)) _ cmdline initrd >>= _) = _
    rw [patchStructureBlock_decodes decodes, Run.ok_bind]
    rfl

/-- A patched blob is no longer than its header can say. -/
theorem patchedSize_lt (decodes : DecodesTo dtb forest body entries)
    (patched : patchChosen dtb cmdline initrd = .ok blob) :
    patchedSize dtb forest entries cmdline initrd < 2 ^ 32 := by
  have accepted := decodes.accepted
  have aligned := reserveMapBytes_aligned entries
  have map : reserveMap dtb (headerOf dtb) = .ok (reserveMapBytes entries) :=
    (reserveMap_eq_ok accepted).mpr ⟨entries, decodes.reserved, rfl⟩
  rw [patchChosen, headerParse_eq_ok.mpr ⟨rfl, accepted⟩, Run.ok_bind, map,
    Run.ok_bind] at patched
  obtain ⟨⟨newStruct, strings⟩, patching, built⟩ := Run.bind_eq_ok.mp patched
  rw [patchedBlocks, checkedSlice_struct accepted, Run.ok_bind,
    checkedSlice_strings accepted, Run.ok_bind] at patching
  obtain ⟨⟨first, bootargs⟩, ensured, patching⟩ := Run.bind_eq_ok.mp patching
  obtain rfl := ensureString_withString ensured
  obtain ⟨⟨second, initrdStart⟩, ensured, patching⟩ :=
    Run.bind_eq_ok.mp patching
  obtain rfl := ensureString_withString ensured
  obtain ⟨⟨third, initrdEnd⟩, ensured, patching⟩ := Run.bind_eq_ok.mp patching
  obtain rfl := ensureString_withString ensured
  obtain ⟨⟨fourth, bootedFromKexec⟩, ensured, patching⟩ :=
    Run.bind_eq_ok.mp patching
  obtain rfl := ensureString_withString ensured
  obtain ⟨written, writing, same⟩ := Run.bind_eq_ok.mp patching
  change patchStructureBlock (structBlock dtb)
    (withBootStrings (stringsBlock dtb)) _ cmdline initrd = _ at writing
  rw [patchStructureBlock_decodes decodes] at writing
  cases writing
  cases same
  change buildDtb _ _ _ (withBootStrings (stringsBlock dtb)) = _ at built
  rw [patchedSize_eq ⟨bootargs, initrdStart, initrdEnd, bootedFromKexec⟩]
  by_contra large
  rw [buildDtb_eq _ _ _ aligned, if_neg large] at built
  exact Run.fail_ne_ok _ _ built

/-- A blob that the header can describe is patched. -/
theorem patchChosen_decodesTo (decodes : DecodesTo dtb forest body entries)
    (small : patchedSize dtb forest entries cmdline initrd < 2 ^ 32) :
    ∃ blob forest', patchChosen dtb cmdline initrd = .ok blob ∧
      DecodesTo blob forest'
        (withChosen (chosenProps cmdline initrd) body) entries ∧
      (headerOf blob).version = (headerOf dtb).version ∧
      (headerOf blob).lastCompVersion = (headerOf dtb).lastCompVersion ∧
      (headerOf blob).bootCpuidPhys = (headerOf dtb).bootCpuidPhys := by
  have accepted := decodes.accepted
  have aligned := reserveMapBytes_aligned entries
  have fits := headerOf_fits dtb
  have content := decodes.content_withBootStrings
  have map : reserveMap dtb (headerOf dtb) = .ok (reserveMapBytes entries) :=
    (reserveMap_eq_ok accepted).mpr ⟨entries, decodes.reserved, rfl⟩
  have shortStrings : (withBootStrings (stringsBlock dtb)).length < 2 ^ 32 := by
    unfold patchedSize at small
    omega
  obtain ⟨offsets, names, blocks⟩ := @exists_patchedBlocks dtb forest body
    entries cmdline initrd decodes shortStrings
  rw [patchedSize_eq offsets, List.length_append] at small
  have shortNew := cmdline_short content
    (show (patchedBytes _ (chosenBytes offsets cmdline initrd) forest).length <
      2 ^ 32 by omega)
  obtain ⟨new, newBytes, spelled⟩ :=
    @exists_chosenProperties _ _ cmdline initrd names shortNew
  rw [newBytes, ← patchedForest_bytes, ← List.length_append] at small
  rw [newBytes, ← patchedForest_bytes] at blocks
  refine ⟨_, patchedForest (withBootStrings (stringsBlock dtb)) new forest,
    ?_, ⟨⟨accepted_assemble fits small ?_, ⟨[], ?_⟩, ?_, ?_⟩, ?_⟩, ?_, ?_, ?_⟩
  · rw [patchChosen, headerParse_eq_ok.mpr ⟨rfl, accepted⟩, Run.ok_bind, map,
      Run.ok_bind, blocks, Run.ok_bind]
    exact (buildDtb_eq _ _ _ aligned).trans (if_pos small)
  · simp
  · rw [structBlock_assemble fits small, List.append_nil]
  · rw [stringsBlock_assemble fits small]
    exact patchedForest_content spelled content
  · exact named_withChosen decodes.named
  · exact reservations_assemble fits small
      (reservations_eq_some.mp decodes.reserved).2
  all_goals rw [headerOf_assemble fits small]; rfl

/-- The only failure is a blob that its header cannot describe. -/
theorem patchChosen_fails (decodes : DecodesTo dtb forest body entries) :
    (∃ error, patchChosen dtb cmdline initrd = Run.fail error) ↔
      2 ^ 32 ≤ patchedSize dtb forest entries cmdline initrd := by
  constructor
  · rintro ⟨error, fails⟩
    by_contra small
    obtain ⟨blob, _, patched, _⟩ := @patchChosen_decodesTo dtb forest body
      entries cmdline initrd decodes (Nat.lt_of_not_le small)
    rw [fails] at patched
    exact Run.fail_ne_ok _ _ patched
  · intro large
    obtain ⟨notPanic, notFuel⟩ :=
      Run.returns_iff.mp (patchChosen_returns dtb cmdline initrd)
    cases result : patchChosen dtb cmdline initrd with
    | ok blob =>
        have small := patchedSize_lt decodes result
        omega
    | error fault =>
        cases fault with
        | error error => exact ⟨error, rfl⟩
        | panic => exact absurd result notPanic
        | outOfFuel => exact absurd result notFuel

theorem patchChosen_patched (decodes : DecodesTo dtb forest body entries)
    (patched : patchChosen dtb cmdline initrd = .ok blob) :
    ∃ forest', DecodesTo blob forest'
      (withChosen (chosenProps cmdline initrd) body) entries := by
  obtain ⟨_, forest', same, after, _⟩ := patchChosen_decodesTo decodes
    (patchedSize_lt decodes patched)
  cases patched.symm.trans same
  exact ⟨forest', after⟩

end

/-- `patch_chosen` edits the `chosen` nodes of the tree and nothing else: it
keeps the other nodes, the reserve map, the ranges that are reserved and the
words of the header, and a second call overrides the first. It fails exactly
when the new blob does not fit its header. -/
theorem patchChosen_edits (dtb : Bytes) (forest : Forest) (body : Content)
    (entries : List Reservation) (cmdline : Str) (initrd : Option (Nat × Nat))
    (decodes : DecodesTo dtb forest body entries) :
    ((∃ error, patchChosen dtb cmdline initrd = Run.fail error) ↔
      2 ^ 32 ≤ patchedSize dtb forest entries cmdline initrd) ∧
    (patchedSize dtb forest entries cmdline initrd < 2 ^ 32 → ∃ blob,
      patchChosen dtb cmdline initrd = .ok blob ∧
      DeviceTree.decode blob =
        some (.node [] (withChosen (chosenProps cmdline initrd) body) .nil) ∧
      reservations blob = some entries ∧
      reservedRanges blob = reservedRanges dtb ∧
      (headerOf blob).version = (headerOf dtb).version ∧
      (headerOf blob).lastCompVersion = (headerOf dtb).lastCompVersion ∧
      (headerOf blob).bootCpuidPhys = (headerOf dtb).bootCpuidPhys ∧
      ∀ cmdline' initrd' blob',
        patchChosen blob cmdline' initrd' = .ok blob' →
          DeviceTree.decode blob' = some (.node []
            (withChosen (chosenProps cmdline' initrd') body) .nil)) := by
  refine ⟨patchChosen_fails decodes, fun small => ?_⟩
  obtain ⟨blob, forest', patched, after, version, lastCompVersion,
    bootCpuidPhys⟩ := patchChosen_decodesTo decodes small
  refine ⟨blob, patched, after.decode, after.reserved,
    reservedRanges_withChosen decodes after, version, lastCompVersion,
    bootCpuidPhys, ?_⟩
  intro cmdline' initrd' blob' again
  obtain ⟨_, last⟩ := patchChosen_patched after again
  rw [last.decode, withChosen_withChosen (chosenProps_replaced _ _)]

theorem nil_noNul : (0 : UInt8) ∉ ([] : Bytes) := by simp

theorem zero_lt : 0 < 2 ^ 32 := by decide

/-- A root with an older command line. -/
def quietForest : Forest :=
  .node (.plain [] nil_noNul)
    (.node (.plain nodeChosen nodeChosen_noNul)
      (.prop (.plain 0 (byteString "quiet" ++ [0]) zero_lt (by decide))
        .nil) .nil) .nil

def quietBlob : Bytes :=
  assemble ⟨0, 0, 0, 0, 17, 16, 0, 0, 0⟩ (reserveMapBytes [])
    (quietForest.bytes ++ (be32 endToken ++ [])) (propBootargs ++ [0])

theorem quietBlob_decodesTo : DecodesTo quietBlob quietForest
    (.node nodeChosen (.prop (some propBootargs) (byteString "quiet" ++ [0])
      .nil) .nil) [] := by
  have fits : Header.Fits ⟨0, 0, 0, 0, 17, 16, 0, 0, 0⟩ :=
    ⟨by decide, by decide, by decide⟩
  have small : 40 + (reserveMapBytes []).length +
      (quietForest.bytes ++ (be32 endToken ++ [])).length +
        (propBootargs ++ [0]).length < 2 ^ 32 := by decide +kernel
  refine ⟨⟨accepted_assemble fits small (by decide +kernel), ⟨[], ?_⟩, ?_,
    ⟨⟨rfl, trivial⟩, trivial⟩⟩, ?_⟩
  · exact structBlock_assemble fits small
  · rw [quietBlob, stringsBlock_assemble fits small]
    decide +kernel
  · exact reservations_assemble fits small (by simp)

theorem patchChosen_edits_quiet : ∃ blob,
    patchChosen quietBlob ⟨byteString "debug", by decide⟩ none = .ok blob ∧
    DeviceTree.decode blob = some (.node [] (.node nodeChosen
      (.prop (some propBootargs) (byteString "debug" ++ [0])
        (.prop (some propBootedFromKexec) [] .nil)) .nil) .nil) := by
  obtain ⟨blob, patched, decoded, _⟩ := (patchChosen_edits quietBlob
    quietForest _ [] ⟨byteString "debug", by decide⟩ none
    quietBlob_decodesTo).2 (by decide +kernel)
  exact ⟨blob, patched, decoded⟩

end Pocketboot.Kexec
