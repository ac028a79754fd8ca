import Pocketboot.Kexec.Writing

/-!
# The walk of `patch_chosen`

The loop of `patch_structure_block` copies every token but the old boot
properties of the root's `chosen` nodes, and writes new ones there.
-/

namespace Pocketboot.Kexec

open DeviceTree

section

variable (strings : Bytes) (offsets : ChosenOffsets) (cmdline : Str)
  (initrd : Option (Nat × Nat))

/-- The command line as it is written, when there is one. -/
def bootargsBytes : Bytes :=
  if cmdline.bytes = [] then []
  else propBytes offsets.bootargs (cmdline.bytes ++ [0])

/-- The range of the initrd as it is written, when there is one. -/
def initrdBytes : Bytes :=
  initrd.elim [] fun range =>
    propBytes offsets.initrdStart (Bytes.toBe 8 range.1) ++
      propBytes offsets.initrdEnd (Bytes.toBe 8 range.2)

/-- The new properties as they are written. -/
def chosenBytes : Bytes :=
  bootargsBytes offsets cmdline ++
    (initrdBytes offsets initrd ++ propBytes offsets.bootedFromKexec [])

variable {strings offsets cmdline initrd}

theorem bootargsBytes_length_mod :
    (bootargsBytes offsets cmdline).length % 4 = 0 := by
  unfold bootargsBytes
  split
  · rfl
  · exact propBytes_length_mod _ _

theorem initrdBytes_length_mod :
    (initrdBytes offsets initrd).length % 4 = 0 := by
  cases initrd with
  | none => rfl
  | some range =>
      have first := propBytes_length_mod offsets.initrdStart
        (Bytes.toBe 8 range.1)
      have second := propBytes_length_mod offsets.initrdEnd
        (Bytes.toBe 8 range.2)
      rw [initrdBytes, Option.elim_some, List.length_append]
      omega

theorem chosenBytes_length_mod :
    (chosenBytes offsets cmdline initrd).length % 4 = 0 := by
  have bootargs := @bootargsBytes_length_mod offsets cmdline
  have range := @initrdBytes_length_mod offsets initrd
  have last := propBytes_length_mod offsets.bootedFromKexec []
  rw [chosenBytes, List.length_append, List.length_append]
  omega

theorem appendBootargs_eq {output : Bytes} (aligned : output.length % 4 = 0) :
    appendBootargs output offsets cmdline =
      .ok (output ++ bootargsBytes offsets cmdline) := by
  unfold appendBootargs bootargsBytes
  split
  · rw [List.append_nil]
  · have length := cmdline.length_lt
    rw [addOrPanic_of (by unfold wordSize; omega), Run.ok_bind,
      writeProp_bytes _ _ aligned]
    rfl

theorem appendInitrd_eq {output : Bytes} (aligned : output.length % 4 = 0) :
    appendInitrd output offsets initrd =
      output ++ initrdBytes offsets initrd := by
  cases initrd with
  | none => exact (List.append_nil output).symm
  | some range =>
      have first := propBytes_length_mod offsets.initrdStart
        (Bytes.toBe 8 range.1)
      rw [appendInitrd, writeProp_bytes _ _ aligned, writeProp_bytes _ _ (by
        rw [List.length_append]
        omega), List.append_assoc]
      rfl

theorem appendChosenProps_eq {output : Bytes}
    (aligned : output.length % 4 = 0) :
    appendChosenProps output offsets cmdline initrd =
      .ok (output ++ chosenBytes offsets cmdline initrd) := by
  have bootargs := @bootargsBytes_length_mod offsets cmdline
  have range := @initrdBytes_length_mod offsets initrd
  rw [appendChosenProps, appendBootargs_eq aligned, Run.ok_bind]
  dsimp only
  rw [appendInitrd_eq (by
    rw [List.length_append]
    omega), writeProp_bytes _ _ (by
    rw [List.length_append, List.length_append]
    omega), chosenBytes, List.append_assoc, List.append_assoc]
  rfl

/-! ## The walk -/

variable (strings offsets cmdline initrd)

def patchWalk : Walk IoError PatchState where
  nop state := .ok { state with output := state.output ++ be32 nopToken }
  prop state property :=
    let propName := (stringAt strings property.nameoff).getD []
    if isChosen state.stack && shouldReplaceChosenProp propName then .ok state
    else .ok { state with output := state.output ++ property.bytes }
  enter state name _ := do
    let output := writeBeginNode state.output name.text
    Run.ensure (state.stack = [] → name.text = [])
      (invalidData "DTB root node name is not empty")
    let sawRoot := state.sawRoot || state.stack.isEmpty
    let state ← enterNode offsets cmdline initrd
      ⟨output, state.stack ++ [name.text], sawRoot, state.sawChosen⟩
    return (state, false)
  leave state := do
    let state ← ensureChosen offsets cmdline initrd state
    let output := writeBe32 state.output endNodeToken
    Run.ensure (state.stack ≠ [])
      (invalidData "DTB structure has too many END_NODE tokens")
    return { state with output, stack := state.stack.dropLast }

theorem patchWalk_follows (block : Bytes) :
    Follows block (patchBody block strings offsets cmdline initrd)
      (patchWalk strings offsets cmdline initrd) where
  nop := by
    intro state cursor rest place
    have copied := @At.copied IoError _ _ _ _ place
    rw [Bytes.toBe_length] at copied
    change (sliceOrPanic block cursor (cursor + 4) >>= _) = _
    rw [copied]
    rfl
  prop := by
    intro state cursor property rest place
    have copied := @At.copied IoError _ _ _ _ place
    simp only [patchBody, patchWalk]
    split
    · rfl
    · rw [copied]
      rfl
  endNode := by
    intro state cursor rest _
    change (ensureChosen offsets cmdline initrd state >>= _) =
      Except.map _ (ensureChosen offsets cmdline initrd state >>= _)
    cases ensureChosen offsets cmdline initrd state with
    | error fault => rfl
    | ok state =>
        simp only [Run.ok_bind]
        cases (Run.ensure (state.stack ≠ []) (invalidData
          "DTB structure has too many END_NODE tokens") : Result Unit) <;> rfl
  beginNode := by
    intro state cursor name inner rest _
    simp only [patchBody, patchWalk]
    cases (Run.ensure (state.stack = [] → name.text = []) (invalidData
      "DTB root node name is not empty") : Result Unit) with
    | error fault => rfl
    | ok _ =>
        simp only [Run.ok_bind]
        cases enterNode offsets cmdline initrd
          ⟨writeBeginNode state.output name.text, state.stack ++ [name.text],
            state.sawRoot || state.stack.isEmpty, state.sawChosen⟩ <;> rfl

end

end Pocketboot.Kexec
