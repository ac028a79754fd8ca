import Pocketboot.Base.Checked

/-!
# Searching for a raw image

A section of a PE file is searched for a raw arm64 image by the magic in the
image's header.  The search looks at the first occurrence of the magic only,
so it finds the first image exactly when no other occurrence comes before the
one in that image's header.
-/

namespace Pocketboot.Kexec

def arm64ImageMagicOffset : Nat := 56

def arm64ImageMagicBytes : Bytes := byteString "ARMd"

def arm64ImageMinSize : Nat := 64

def arm64PageSize : Nat := 4096

def isRawArm64Image (payload : Bytes) : Bool :=
  if payload.length < arm64ImageMinSize ∨
      Bytes.slice payload arm64ImageMagicOffset
        (arm64ImageMagicOffset + arm64ImageMagicBytes.length) ≠
          arm64ImageMagicBytes then
    false
  else
    let textOffset := Bytes.ofLe (Bytes.slice payload 8 16)
    textOffset % arm64PageSize = 0

/-- `windows(pattern.len()).position(|window| window == pattern)`. -/
def windowPosition (pattern payload : Bytes) : Option Nat :=
  (List.range (payload.length + 1 - pattern.length)).find? fun offset =>
    Bytes.slice payload offset (offset + pattern.length) = pattern

def findRawArm64Image (payload : Bytes) : Option (Nat × Bytes) := do
  let magicOffset ← windowPosition arm64ImageMagicBytes payload
  let start ← checkedSub magicOffset arm64ImageMagicOffset
  let image := payload.drop start
  if isRawArm64Image image then some (start, image) else none

/-! ## What the search finds -/

/-- The image at the least offset is found, when there is an image. -/
def FindsLeastImage (payload : Bytes) : Prop :=
  ∀ offset, isRawArm64Image (payload.drop offset) →
    ∃ least, findRawArm64Image payload = some (least, payload.drop least) ∧
      isRawArm64Image (payload.drop least) ∧
      ∀ other, isRawArm64Image (payload.drop other) → least ≤ other

/-- The magic occurs at an offset of the payload. -/
def MagicAt (payload : Bytes) (offset : Nat) : Prop :=
  Bytes.slice payload offset (offset + arm64ImageMagicBytes.length) =
    arm64ImageMagicBytes

/-- In a payload with an image, the first occurrence of the magic is in the
header of one. -/
def NoDecoy (payload : Bytes) : Prop :=
  ∀ offset, isRawArm64Image (payload.drop offset) →
    ∃ first, isRawArm64Image (payload.drop first) ∧
      ∀ occurrence, MagicAt payload occurrence →
        first + arm64ImageMagicOffset ≤ occurrence

theorem windowPosition_eq_some {pattern payload : Bytes} {offset : Nat} :
    windowPosition pattern payload = some offset ↔
      offset + pattern.length < payload.length + 1 ∧
        Bytes.slice payload offset (offset + pattern.length) = pattern ∧
        ∀ before < offset,
          Bytes.slice payload before (before + pattern.length) ≠ pattern := by
  unfold windowPosition
  rw [List.find?_range_eq_some]
  simp only [decide_eq_true_eq, List.mem_range, Bool.not_eq_true',
    decide_eq_false_iff_not]
  constructor
  · rintro ⟨found, inside, least⟩
    exact ⟨by omega, found, least⟩
  · rintro ⟨inside, found, least⟩
    exact ⟨found, by omega, least⟩

private theorem magicAt_inside {payload : Bytes} {offset : Nat}
    (magic : MagicAt payload offset) :
    offset + arm64ImageMagicBytes.length < payload.length + 1 := by
  have lengths := congrArg List.length magic
  have four : arm64ImageMagicBytes.length = 4 := rfl
  simp only [Bytes.slice, List.length_take, List.length_drop, four] at lengths
  rw [four]
  omega

private theorem windowPosition_magic {payload : Bytes} {offset : Nat} :
    windowPosition arm64ImageMagicBytes payload = some offset ↔
      MagicAt payload offset ∧
        ∀ occurrence, MagicAt payload occurrence → offset ≤ occurrence := by
  rw [windowPosition_eq_some]
  constructor
  · rintro ⟨_, magic, least⟩
    exact ⟨magic, fun occurrence found => by
      by_contra earlier
      exact least occurrence (by omega) found⟩
  · rintro ⟨magic, least⟩
    refine ⟨magicAt_inside magic, magic, fun before earlier found => ?_⟩
    have := least before found
    omega

/-- An image's header holds the magic. -/
theorem magicAt_of_isRaw {payload : Bytes} {offset : Nat}
    (image : isRawArm64Image (payload.drop offset)) :
    MagicAt payload (offset + arm64ImageMagicOffset) := by
  unfold isRawArm64Image at image
  split at image
  · cases image
  · rename_i accepted
    rw [not_or, not_not] at accepted
    have magic := accepted.2
    unfold Bytes.slice at magic
    rw [List.drop_drop, Nat.add_sub_cancel_left] at magic
    rw [MagicAt, Bytes.slice, Nat.add_sub_cancel_left]
    exact magic

theorem findRawArm64Image_eq_some {payload image : Bytes} {start : Nat} :
    findRawArm64Image payload = some (start, image) ↔
      image = payload.drop start ∧ isRawArm64Image image ∧
        ∀ occurrence, MagicAt payload occurrence →
          start + arm64ImageMagicOffset ≤ occurrence := by
  simp only [findRawArm64Image, Option.bind_eq_bind, Option.bind_eq_some_iff,
    windowPosition_magic, checkedSub_eq_some, Option.ite_none_right_eq_some,
    Option.some.injEq, Prod.mk.injEq]
  constructor
  · rintro ⟨magicOffset, ⟨_, least⟩, _, ⟨below, rfl⟩, found, rfl, rfl⟩
    exact ⟨rfl, found, fun occurrence magic => by
      have := least occurrence magic
      omega⟩
  · rintro ⟨rfl, found, least⟩
    exact ⟨start + arm64ImageMagicOffset, ⟨magicAt_of_isRaw found, least⟩,
      start, ⟨by omega, by omega⟩, found, rfl, rfl⟩

/-- The first image is found exactly when no decoy of its magic comes first. -/
theorem findRawArm64Image_findsLeast_iff (payload : Bytes) :
    FindsLeastImage payload ↔ NoDecoy payload := by
  constructor
  · intro finds offset image
    obtain ⟨least, found, isImage, _⟩ := finds offset image
    exact ⟨least, isImage, (findRawArm64Image_eq_some.mp found).2.2⟩
  · intro noDecoy offset image
    obtain ⟨first, isImage, least⟩ := noDecoy offset image
    refine ⟨first, ?_, isImage, ?_⟩
    · exact findRawArm64Image_eq_some.mpr ⟨rfl, isImage, least⟩
    · intro other otherImage
      have := least _ (magicAt_of_isRaw otherImage)
      omega

/-- The magic, and after it an image of 64 bytes. -/
def decoyPayload : Bytes :=
  arm64ImageMagicBytes ++ List.replicate 56 0 ++ arm64ImageMagicBytes ++
    List.replicate 4 0

/-- The decoy hides the image behind it. -/
theorem findRawArm64Image_misses_image : ¬ FindsLeastImage decoyPayload := by
  intro finds
  have image : isRawArm64Image (decoyPayload.drop 4) := by decide
  have missed : findRawArm64Image decoyPayload = none := by decide
  obtain ⟨least, found, _⟩ := finds 4 image
  rw [missed] at found
  cases found

end Pocketboot.Kexec
