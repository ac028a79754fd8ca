import Pocketboot.Kexec.MemoryGraft

/-!
# When `graft_memory` returns

Both passes copy the bytes from the start of a token up to the start of the
next one.  Where the padding of a node's name reaches past the end of the
block, that slice panics; in blocks of whole words it does not.
-/

namespace Pocketboot.Kexec

open DeviceTree

section

variable {block strings : Bytes} (short : block.length < 2 ^ 32)
  (whole : block.length % 4 = 0)

/-- No more nodes are open than there are bytes before the cursor. -/
theorem depth_succ {depth cursor next : Nat} {token : Token}
    (bounded : depth ≤ cursor) (reads : ReadsToken block cursor token next) :
    depth + 1 < wordSize ∧ depth + 1 ≤ next := by
  have := reads.forward
  have := reads.near
  unfold wordSize
  omega

include short

theorem skipNodeSubtree_returns {start : Nat} (valid : Cursor start) :
    (skipNodeSubtree block start).Returns := by
  refine loop_returns short skipBody_steady
    (fun depth cursor => depth ≤ cursor) ?_ ?_ valid (Nat.zero_le _)
  · intro depth cursor token next bounded reads
    obtain ⟨small, _⟩ := depth_succ bounded reads
    cases token with
    | beginNode name =>
        change (addOrPanic wordSize depth 1 >>= _).Returns
        rw [addOrPanic_of small]
        exact Run.returns_ok _
    | endNode =>
        refine (Run.returns_ensure _ _).bind fun _ positive => ?_
        rw [Run.ensure_eq_ok] at positive
        rw [subOrPanic_of (by omega), Run.ok_bind]
        split
        · exact Run.returns_ok _
        · exact Run.returns_ok _
    | prop nameoff value => exact Run.returns_ok _
    | nop => exact Run.returns_ok _
    | fin => exact Run.returns_fail _
  · intro depth cursor token next depth' cursor' bounded reads step
    obtain ⟨_, deeper⟩ := depth_succ bounded reads
    have forward := reads.forward
    cases token with
    | beginNode name =>
        obtain ⟨_, added, same⟩ := Run.bind_eq_ok.mp step
        cases same
        obtain ⟨_, rfl⟩ := addOrPanic_eq_ok.mp added
        exact deeper
    | endNode =>
        obtain ⟨_, positive, step⟩ := Run.bind_eq_ok.mp step
        rw [Run.ensure_eq_ok] at positive
        rw [subOrPanic_of (by omega), Run.ok_bind] at step
        split at step
        · cases step
        · cases step
          omega
    | prop nameoff value =>
        cases step
        omega
    | nop =>
        cases step
        omega
    | fin => cases step

include whole

omit short in
/-- The slices of both passes are inside the block. -/
theorem slice_inside {cursor next : Nat} {token : Token}
    (reads : ReadsToken block cursor token next) :
    ∃ copied, (sliceOrPanic block cursor next : Result Bytes) = .ok copied :=
  ⟨_, sliceOrPanic_of reads.forward.le (reads.fits_of_whole whole)⟩

theorem copyNodeSubtree_returns {start : Nat} (valid : Cursor start)
    (outputStrings : Bytes) :
    (copyNodeSubtree block strings start outputStrings).Returns := by
  refine loop_returns short copyBody_steady
    (fun state cursor => state.depth ≤ cursor) ?_ ?_ valid (Nat.zero_le _)
  · intro state cursor token next bounded reads
    obtain ⟨small, _⟩ := depth_succ bounded reads
    obtain ⟨copied, sliced⟩ := slice_inside whole reads
    cases token with
    | beginNode name =>
        change (sliceOrPanic block cursor next >>= _).Returns
        rw [sliced, Run.ok_bind, addOrPanic_of small]
        exact Run.returns_ok _
    | endNode =>
        refine (Run.returns_ensure _ _).bind fun _ positive => ?_
        rw [Run.ensure_eq_ok] at positive
        rw [sliced, Run.ok_bind, subOrPanic_of (by omega), Run.ok_bind]
        split
        · exact Run.returns_ok _
        · exact Run.returns_ok _
    | prop nameoff value =>
        refine (Run.returns_ofOption _ _).bind fun _ _ => ?_
        exact (ensureString_returns _ _).bind fun _ _ => Run.returns_ok _
    | nop =>
        change (sliceOrPanic block cursor next >>= _).Returns
        rw [sliced]
        exact Run.returns_ok _
    | fin => exact Run.returns_fail _
  · intro state cursor token next state' cursor' bounded reads step
    obtain ⟨_, deeper⟩ := depth_succ bounded reads
    have forward := reads.forward
    cases token with
    | beginNode name =>
        obtain ⟨_, _, step⟩ := Run.bind_eq_ok.mp step
        obtain ⟨_, added, same⟩ := Run.bind_eq_ok.mp step
        cases same
        obtain ⟨_, rfl⟩ := addOrPanic_eq_ok.mp added
        exact deeper
    | endNode =>
        obtain ⟨_, positive, step⟩ := Run.bind_eq_ok.mp step
        rw [Run.ensure_eq_ok] at positive
        obtain ⟨_, _, step⟩ := Run.bind_eq_ok.mp step
        rw [subOrPanic_of (by omega), Run.ok_bind] at step
        split at step
        · cases step
        · cases step
          dsimp only
          omega
    | prop nameoff value =>
        obtain ⟨_, _, step⟩ := Run.bind_eq_ok.mp step
        obtain ⟨_, _, same⟩ := Run.bind_eq_ok.mp step
        cases same
        dsimp only
        omega
    | nop =>
        obtain ⟨_, _, same⟩ := Run.bind_eq_ok.mp step
        cases same
        dsimp only
        omega
    | fin => cases step

theorem extractMemoryFragments_returns (outputStrings : Bytes) :
    (extractMemoryFragments block strings outputStrings).Returns := by
  refine loop_returns short (extractBody_steady short)
    (fun state cursor => state.depth ≤ cursor ∧ Cursor cursor) ?_ ?_ Cursor.zero
    ⟨Nat.zero_le _, Cursor.zero⟩
  · rintro state cursor token next ⟨bounded, valid⟩ reads
    obtain ⟨small, _⟩ := depth_succ bounded reads
    cases token with
    | beginNode name =>
        simp only [extractBody]
        split
        · refine Run.Returns.bind ?_ fun _ _ => Run.returns_ok _
          exact (Run.returns_ensure _ _).bind fun _ _ => Run.returns_ensure _ _
        · split
          · exact (copyNodeSubtree_returns short whole valid _).bind
              fun _ _ => Run.returns_ok _
          · rw [addOrPanic_of small]
            exact Run.returns_ok _
    | endNode =>
        refine (Run.returns_ensure _ _).bind fun _ positive => ?_
        rw [Run.ensure_eq_ok] at positive
        rw [subOrPanic_of (by omega)]
        exact Run.returns_ok _
    | prop nameoff value => exact Run.returns_ok _
    | nop => exact Run.returns_ok _
    | fin =>
        refine Run.Returns.bind ?_ fun _ _ => Run.returns_ok _
        exact (Run.returns_ensure _ _).bind fun _ _ => Run.returns_ensure _ _
  · rintro state cursor token next state' cursor' ⟨bounded, valid⟩ reads step
    obtain ⟨forward, valid'⟩ :=
      extractBody_steady short _ _ _ _ _ _ valid reads step
    obtain ⟨_, deeper⟩ := depth_succ bounded reads
    have after := reads.forward
    refine ⟨?_, valid'⟩
    cases token with
    | beginNode name =>
        simp only [extractBody] at step
        split at step
        · obtain ⟨_, _, same⟩ := Run.bind_eq_ok.mp step
          cases same
          dsimp only
          omega
        · split at step
          · obtain ⟨_, _, same⟩ := Run.bind_eq_ok.mp step
            cases same
            dsimp only
            omega
          · obtain ⟨_, added, same⟩ := Run.bind_eq_ok.mp step
            cases same
            obtain ⟨_, rfl⟩ := addOrPanic_eq_ok.mp added
            exact deeper
    | endNode =>
        obtain ⟨_, positive, step⟩ := Run.bind_eq_ok.mp step
        rw [Run.ensure_eq_ok] at positive
        rw [subOrPanic_of (by omega), Run.ok_bind] at step
        cases step
        dsimp only
        omega
    | prop nameoff value =>
        cases step
        omega
    | nop =>
        cases step
        omega
    | fin =>
        obtain ⟨_, _, step⟩ := Run.bind_eq_ok.mp step
        cases step

end

/-! ## How long the fragments are -/

section

variable {block strings : Bytes} (short : block.length < 2 ^ 32)

include short

/-- A copy is as long as what was read. -/
theorem copyNodeSubtree_length {start next : Nat}
    {data outputStrings outputStrings' : Bytes} (valid : Cursor start)
    (copied : copyNodeSubtree block strings start outputStrings =
      .ok (data, next, outputStrings')) : data.length + start = next := by
  have tracks := loop_rule
    (motive := fun state cursor (result : Bytes × Nat × Bytes) =>
      state.output.length % 4 = 0 →
        result.1.length + cursor = state.output.length + result.2.1)
    short copyBody_steady ?_ ?_ valid copied rfl
  · simpa using tracks
  · intro state cursor token next result _ reads done _
    cases token with
    | endNode =>
        obtain ⟨_, _, done⟩ := Run.bind_eq_ok.mp done
        obtain ⟨piece, sliced, done⟩ := Run.bind_eq_ok.mp done
        obtain ⟨_, _, done⟩ := Run.bind_eq_ok.mp done
        obtain ⟨inside, fits, rfl⟩ := sliceOrPanic_eq_ok.mp sliced
        split at done
        · cases done
          rw [List.length_append, Bytes.slice_length_of_le fits]
          dsimp only
          omega
        · cases done
    | beginNode name =>
        obtain ⟨_, _, done⟩ := Run.bind_eq_ok.mp done
        obtain ⟨_, _, done⟩ := Run.bind_eq_ok.mp done
        cases done
    | prop nameoff value =>
        obtain ⟨_, _, done⟩ := Run.bind_eq_ok.mp done
        obtain ⟨_, _, done⟩ := Run.bind_eq_ok.mp done
        cases done
    | nop =>
        obtain ⟨_, _, done⟩ := Run.bind_eq_ok.mp done
        cases done
    | fin => cases done
  · intro state cursor token next state' cursor' result valid reads step later
      aligned
    have whole := reads.aligned
    have wholeCursor := valid.aligned
    cases token with
    | endNode =>
        obtain ⟨_, _, step⟩ := Run.bind_eq_ok.mp step
        obtain ⟨piece, sliced, step⟩ := Run.bind_eq_ok.mp step
        obtain ⟨_, _, step⟩ := Run.bind_eq_ok.mp step
        obtain ⟨inside, fits, rfl⟩ := sliceOrPanic_eq_ok.mp sliced
        split at step
        · cases step
        · cases step
          dsimp only at later
          rw [List.length_append, Bytes.slice_length_of_le fits] at later
          have := later (by omega)
          omega
    | beginNode name =>
        obtain ⟨piece, sliced, step⟩ := Run.bind_eq_ok.mp step
        obtain ⟨_, _, same⟩ := Run.bind_eq_ok.mp step
        obtain ⟨inside, fits, rfl⟩ := sliceOrPanic_eq_ok.mp sliced
        cases same
        dsimp only at later
        rw [List.length_append, Bytes.slice_length_of_le fits] at later
        have := later (by omega)
        omega
    | prop nameoff value =>
        obtain ⟨_, _, step⟩ := Run.bind_eq_ok.mp step
        obtain ⟨⟨strings', offset⟩, _, same⟩ := Run.bind_eq_ok.mp step
        cases same
        obtain ⟨property, _, rfl, rfl, _⟩ := reads.prop_at
        have length := property.bytes_length
        dsimp only at later
        rw [writeProp_bytes _ _ aligned, List.length_append,
          propBytes_length] at later
        have := later (by
          unfold align4
          omega)
        omega
    | nop =>
        obtain ⟨piece, sliced, same⟩ := Run.bind_eq_ok.mp step
        obtain ⟨inside, fits, rfl⟩ := sliceOrPanic_eq_ok.mp sliced
        cases same
        dsimp only at later
        rw [List.length_append, Bytes.slice_length_of_le fits] at later
        have := later (by omega)
        omega
    | fin => cases step

/-- All fragments together are no longer than the block. -/
theorem extractMemoryFragments_length {outputStrings strings' : Bytes}
    {fragments : List MemoryFragment}
    (extracted : extractMemoryFragments block strings outputStrings =
      .ok (fragments, strings')) :
    (fragments.map (·.data.length)).sum < 2 ^ 32 + 4 := by
  refine loop_rule
    (motive := fun state cursor (result : List MemoryFragment × Bytes) =>
      (state.memory.map (·.data.length)).sum ≤ cursor →
        (result.1.map (·.data.length)).sum < 2 ^ 32 + 4)
    short (extractBody_steady short) ?_ ?_ Cursor.zero extracted le_rfl
  · intro state cursor token next result valid reads done bounded
    have near := valid.near
    cases token with
    | fin =>
        obtain ⟨_, _, same⟩ := Run.bind_eq_ok.mp done
        cases same
        exact lt_of_le_of_lt bounded near
    | beginNode name =>
        simp only [extractBody] at done
        split at done
        · obtain ⟨_, _, done⟩ := Run.bind_eq_ok.mp done
          cases done
        · split at done
          · obtain ⟨_, _, done⟩ := Run.bind_eq_ok.mp done
            cases done
          · obtain ⟨_, _, done⟩ := Run.bind_eq_ok.mp done
            cases done
    | endNode =>
        obtain ⟨_, _, done⟩ := Run.bind_eq_ok.mp done
        obtain ⟨_, _, done⟩ := Run.bind_eq_ok.mp done
        cases done
    | prop nameoff value => cases done
    | nop => cases done
  · intro state cursor token next state' cursor' result valid reads step later
      bounded
    have forward := reads.forward
    refine later ?_
    cases token with
    | beginNode name =>
        simp only [extractBody] at step
        split at step
        · obtain ⟨_, _, same⟩ := Run.bind_eq_ok.mp step
          cases same
          exact bounded.trans forward.le
        · split at step
          · obtain ⟨⟨data, behind, strings''⟩, copied, same⟩ :=
              Run.bind_eq_ok.mp step
            cases same
            have length := copyNodeSubtree_length short valid copied
            rw [List.map_append, List.sum_append]
            simp only [List.map_cons, List.map_nil, List.sum_singleton]
            omega
          · obtain ⟨_, _, same⟩ := Run.bind_eq_ok.mp step
            cases same
            exact bounded.trans forward.le
    | endNode =>
        obtain ⟨_, _, step⟩ := Run.bind_eq_ok.mp step
        obtain ⟨_, _, same⟩ := Run.bind_eq_ok.mp step
        cases same
        exact bounded.trans forward.le
    | prop nameoff value =>
        cases step
        exact bounded.trans forward.le
    | nop =>
        cases step
        exact bounded.trans forward.le
    | fin =>
        obtain ⟨_, _, step⟩ := Run.bind_eq_ok.mp step
        cases step

/-- The second pass, over a block of whole words. -/
theorem graftMemoryStructure_returns (whole : block.length % 4 = 0)
    {memory : List MemoryFragment}
    (small : (memory.map (·.data.length)).sum < 2 ^ 32 + 4) :
    (graftMemoryStructure block memory).Returns := by
  rw [graftMemoryStructure, sumOrPanic_eq (by unfold wordSize; omega),
    Run.ok_bind, addOrPanic_of (by unfold wordSize; omega), Run.ok_bind]
  refine loop_returns short (graftBody_steady short)
    (fun state cursor => state.depth ≤ cursor ∧ Cursor cursor) ?_ ?_ Cursor.zero
    ⟨Nat.zero_le _, Cursor.zero⟩
  · rintro state cursor token next ⟨bounded, valid⟩ reads
    obtain ⟨small, _⟩ := depth_succ bounded reads
    obtain ⟨copied, sliced⟩ := slice_inside whole reads
    cases token with
    | beginNode name =>
        simp only [graftBody]
        split
        · refine Run.Returns.bind ?_ fun _ _ => ?_
          · exact (Run.returns_ensure _ _).bind
              fun _ _ => Run.returns_ensure _ _
          · rw [sliced]
            exact Run.returns_ok _
        · split
          · exact (skipNodeSubtree_returns short valid).bind
              fun _ _ => Run.returns_ok _
          · rw [sliced, Run.ok_bind, insertMemory_depth, addOrPanic_of small]
            exact Run.returns_ok _
    | endNode =>
        refine (Run.returns_ensure _ _).bind fun _ positive => ?_
        rw [Run.ensure_eq_ok] at positive
        dsimp only
        rw [sliced, Run.ok_bind, insertMemory_depth, subOrPanic_of (by omega)]
        exact Run.returns_ok _
    | prop nameoff value =>
        change (sliceOrPanic block cursor next >>= _).Returns
        rw [sliced]
        exact Run.returns_ok _
    | nop =>
        change (sliceOrPanic block cursor next >>= _).Returns
        rw [sliced]
        exact Run.returns_ok _
    | fin =>
        change (sliceOrPanic block cursor next >>= _).Returns
        rw [sliced, Run.ok_bind]
        refine Run.Returns.bind ?_ fun _ _ => Run.returns_ok _
        exact (Run.returns_ensure _ _).bind fun _ _ => Run.returns_ensure _ _
  · rintro state cursor token next state' cursor' ⟨bounded, valid⟩ reads step
    obtain ⟨forward, valid'⟩ :=
      graftBody_steady short _ _ _ _ _ _ valid reads step
    obtain ⟨_, deeper⟩ := depth_succ bounded reads
    have after := reads.forward
    refine ⟨?_, valid'⟩
    cases token with
    | beginNode name =>
        simp only [graftBody] at step
        split at step
        · obtain ⟨_, _, step⟩ := Run.bind_eq_ok.mp step
          obtain ⟨_, _, same⟩ := Run.bind_eq_ok.mp step
          cases same
          dsimp only
          omega
        · split at step
          · obtain ⟨_, _, same⟩ := Run.bind_eq_ok.mp step
            cases same
            omega
          · obtain ⟨_, _, step⟩ := Run.bind_eq_ok.mp step
            obtain ⟨_, added, same⟩ := Run.bind_eq_ok.mp step
            cases same
            rw [insertMemory_depth] at added
            obtain ⟨_, rfl⟩ := addOrPanic_eq_ok.mp added
            exact deeper
    | endNode =>
        obtain ⟨_, positive, step⟩ := Run.bind_eq_ok.mp step
        rw [Run.ensure_eq_ok] at positive
        dsimp only at step
        obtain ⟨_, _, step⟩ := Run.bind_eq_ok.mp step
        rw [insertMemory_depth, subOrPanic_of (by omega), Run.ok_bind] at step
        cases step
        dsimp only
        omega
    | prop nameoff value =>
        obtain ⟨_, _, same⟩ := Run.bind_eq_ok.mp step
        cases same
        dsimp only
        omega
    | nop =>
        obtain ⟨_, _, same⟩ := Run.bind_eq_ok.mp step
        cases same
        dsimp only
        omega
    | fin =>
        obtain ⟨_, _, step⟩ := Run.bind_eq_ok.mp step
        obtain ⟨_, _, step⟩ := Run.bind_eq_ok.mp step
        cases step

end

/-! ## The whole function -/

/-- A structure block of whole words. -/
def WholeWords (dtb : Bytes) : Prop := (headerOf dtb).sizeDtStruct % 4 = 0

instance (dtb : Bytes) : Decidable (WholeWords dtb) :=
  inferInstanceAs (Decidable (_ = _))

theorem WholeWords.struct {dtb : Bytes} (whole : WholeWords dtb)
    (placed : WellPlaced dtb) : (structBlock dtb).length % 4 = 0 := by
  rw [structBlock_length placed]
  exact whole

/-- Blobs whose structure blocks are whole words make no slice panic. -/
theorem graftMemory_returns (dtb liveDtb : Bytes) (whole : WholeWords dtb)
    (liveWhole : WholeWords liveDtb) : (graftMemory dtb liveDtb).Returns := by
  refine (headerParse_returns dtb).bind fun header parsed => ?_
  obtain ⟨rfl, accepted⟩ := headerParse_eq_ok.mp parsed
  refine (reserveMap_returns accepted).bind fun map read => ?_
  obtain ⟨entries, _, rfl⟩ := (reserveMap_eq_ok accepted).mp read
  rw [checkedSlice_struct accepted, Run.ok_bind,
    checkedSlice_strings accepted, Run.ok_bind]
  refine (headerParse_returns liveDtb).bind fun liveHeader liveParsed => ?_
  obtain ⟨rfl, liveAccepted⟩ := headerParse_eq_ok.mp liveParsed
  rw [checkedSlice_struct liveAccepted, Run.ok_bind,
    checkedSlice_strings liveAccepted, Run.ok_bind]
  have short := structBlock_short accepted.toWellPlaced
  have liveShort := structBlock_short liveAccepted.toWellPlaced
  refine (extractMemoryFragments_returns liveShort
    (liveWhole.struct liveAccepted.toWellPlaced) _).bind
      fun ⟨memory, strings⟩ extracted => ?_
  refine (Run.returns_ensure _ _).bind fun _ _ => ?_
  refine (graftMemoryStructure_returns short
    (whole.struct accepted.toWellPlaced)
    (extractMemoryFragments_length liveShort extracted)).bind fun _ _ => ?_
  exact buildDtb_returns _ _ _ (reserveMapBytes_aligned entries)

theorem graftMemory_returns_oneMemory :
    (graftMemory quietBlob oneMemoryBlob).Returns :=
  graftMemory_returns quietBlob oneMemoryBlob (by decide +kernel)
    (by decide +kernel)

/-- A root that ends inside the padding of its name. -/
example : graftMemoryStructure [0, 0, 0, 1, 0] [] = .error .panic := by
  decide

end Pocketboot.Kexec
