import Pocketboot.Base.Text
import Pocketboot.Kexec.PhysRange

/-!
# Usable memory

The usable ranges are read from the lines of `/proc/iomem`: a line of system
memory adds its range, a line of the running kernel's own image is passed
over, and any other line removes its range.  An address ends up usable exactly
when the last line that says anything of it is one of system memory.
-/

namespace Pocketboot.Kexec

def parseIomemLine (line : Text) : Option (PhysRange × Text) := do
  let (rawRange, rawName) ← Text.splitOnce ':' (Text.trimStart line)
  let (start, last) ← Text.splitOnce '-' (Text.trim rawRange)
  let start ← Text.parseU64 16 start
  let last ← Text.parseU64 16 last
  if word : last + 1 < wordSize then
    let range ← PhysRange.new start (last + 1) word
    some (range, Text.trim rawName)
  else none

def systemRam : Text := "System RAM".toList

/-- The lines of the running kernel's image. -/
def kernelNames : List Text :=
  ["Kernel code".toList, "Kernel data".toList, "Kernel bss".toList]

def applyLine (ranges : List PhysRange) (line : PhysRange × Text) :
    List PhysRange :=
  if line.2 = systemRam then addRange ranges line.1
  else if line.2 ∈ kernelNames then ranges
  else subtractRange ranges line.1

/-- The lines that parse, in order. -/
def parsedLines (iomem : Text) : List (PhysRange × Text) :=
  (Text.lines iomem).filterMap parseIomemLine

example : (parsedLines "10-5f : System RAM\n  20-2f : a:b\n20-1f : x\n".toList).map
    (fun line => (line.1.start, line.1.stop, line.2)) =
      [(0x10, 0x60, systemRam), (0x20, 0x30, "a:b".toList)] := by
  decide +kernel

def parseIomem (iomem : Text) : List PhysRange :=
  sortByStart ((parsedLines iomem).foldl applyLine [])

/-! ## The last line about an address -/

/-- The line covers the address and is not one of the kernel's image. -/
def decides (address : Nat) (line : PhysRange × Text) : Bool :=
  line.1.start ≤ address && address < line.1.stop && line.2 ∉ kernelNames

/-- The last line about the address is one of system memory. -/
def LastIsSystemRam (lines : List (PhysRange × Text)) (address : Nat) : Prop :=
  ∃ range, (lines.filter (decides address)).getLast? = some (range, systemRam)

private theorem systemRam_notMem_kernelNames : systemRam ∉ kernelNames := by
  decide

theorem parseIomemLine_nonempty {line : Text} {parsed : PhysRange × Text}
    (result : parseIomemLine line = some parsed) : parsed.1.Nonempty := by
  simp only [parseIomemLine, Option.bind_eq_bind,
    Option.bind_eq_some_iff] at result
  obtain ⟨_, _, _, _, start, _, last, _, result⟩ := result
  split at result
  · obtain ⟨range, built, same⟩ := Option.bind_eq_some_iff.mp result
    obtain rfl := Option.some.inj same
    exact PhysRange.new_nonempty built
  · cases result

private theorem lastIsSystemRam_concat (lines : List (PhysRange × Text))
    (line : PhysRange × Text) (address : Nat) :
    LastIsSystemRam (lines ++ [line]) address ↔
      if decides address line then line.2 = systemRam
      else LastIsSystemRam lines address := by
  unfold LastIsSystemRam
  rw [List.filter_append, List.filter_singleton]
  split
  · rename_i about
    obtain ⟨range, name⟩ := line
    simp [about]
  · rename_i silent
    simp [silent]

/-- One line: the canonical form is kept, and the covered addresses follow
the line where it says anything. -/
theorem applyLine_step {ranges : List PhysRange} {line : PhysRange × Text}
    (canonical : Canonical ranges) (nonempty : line.1.Nonempty) :
    Canonical (applyLine ranges line) ∧
      ∀ address, address ∈ covered (applyLine ranges line) ↔
        if decides address line then line.2 = systemRam
        else address ∈ covered ranges := by
  unfold applyLine
  split
  · rename_i ram
    obtain ⟨canonical', covers⟩ := addRange_canonical canonical nonempty
    refine ⟨canonical', fun address => ?_⟩
    rw [covers, Set.mem_union, PhysRange.mem_addresses]
    simp only [decides, ram, systemRam_notMem_kernelNames, not_false_eq_true,
      decide_true, Bool.and_true, Bool.and_eq_true, decide_eq_true_eq]
    split <;> simp_all
  · rename_i other
    split
    · rename_i kernel
      exact ⟨canonical, fun address => by simp [decides, kernel]⟩
    · rename_i device
      refine ⟨subtractRange_canonical canonical nonempty, fun address => ?_⟩
      rw [covered_subtractRange, Set.mem_sdiff, PhysRange.mem_addresses]
      simp only [decides, device, other, not_false_eq_true, decide_true,
        Bool.and_true, Bool.and_eq_true, decide_eq_true_eq]
      split <;> simp_all

theorem foldl_applyLine {lines : List (PhysRange × Text)}
    (nonempty : ∀ line ∈ lines, line.1.Nonempty) :
    Canonical (lines.foldl applyLine []) ∧
      ∀ address, address ∈ covered (lines.foldl applyLine []) ↔
        LastIsSystemRam lines address := by
  induction lines using List.reverseRecOn with
  | nil => simp [Canonical.nil, LastIsSystemRam]
  | append_singleton lines line induction =>
      obtain ⟨canonical, covers⟩ := induction fun earlier member =>
        nonempty earlier (List.mem_append_left _ member)
      obtain ⟨canonical', covers'⟩ := applyLine_step canonical
        (nonempty line (by simp))
      rw [List.foldl_append, List.foldl_cons, List.foldl_nil]
      refine ⟨canonical', fun address => ?_⟩
      rw [covers', lastIsSystemRam_concat, covers]

/-- The ranges are canonical, and the last line about an address decides
whether they cover it. -/
theorem parseIomem_lastWriter (iomem : Text) :
    Canonical (parseIomem iomem) ∧
      ∀ address, address ∈ covered (parseIomem iomem) ↔
        LastIsSystemRam (parsedLines iomem) address := by
  have nonempty : ∀ line ∈ parsedLines iomem, line.1.Nonempty := by
    intro line member
    obtain ⟨text, _, parsed⟩ := List.mem_filterMap.mp member
    exact parseIomemLine_nonempty parsed
  obtain ⟨canonical, covers⟩ := foldl_applyLine nonempty
  rw [parseIomem, sortByStart_canonical canonical]
  exact ⟨canonical, covers⟩

end Pocketboot.Kexec
