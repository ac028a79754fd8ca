import Pocketboot.DeviceTree.Copies
import Pocketboot.Kexec.Totality

/-!
# Properties and names as they are written

A property is written whole, and its name is found in the strings block or put
at its end.
-/

namespace Pocketboot.Kexec

open DeviceTree

/-! ## Properties as they are written -/

/-- A property as `write_prop` writes it. -/
def propBytes (nameoff : Nat) (value : Bytes) : Bytes :=
  be32 propToken ++ (be32 (value.length % 2 ^ 32) ++ (be32 nameoff ++
    (value ++ List.replicate (align4 value.length - value.length) 0)))

theorem propBytes_length (nameoff : Nat) (value : Bytes) :
    (propBytes nameoff value).length = 12 + align4 value.length := by
  simp only [propBytes, List.length_append, Bytes.toBe_length,
    List.length_replicate]
  unfold align4
  omega

theorem propBytes_length_mod (nameoff : Nat) (value : Bytes) :
    (propBytes nameoff value).length % 4 = 0 := by
  rw [propBytes_length]
  unfold align4
  omega

theorem writeProp_bytes {output : Bytes} (nameoff : Nat) (value : Bytes)
    (aligned : output.length % 4 = 0) :
    writeProp output nameoff value = output ++ propBytes nameoff value := by
  have front : (writeBe32 (writeBe32 (writeBe32 output propToken)
      (value.length % 2 ^ 32)) nameoff).length % 4 = 0 := by
    simp only [writeBe32, List.length_append, Bytes.toBe_length]
    omega
  rw [writeProp, padTo_four front]
  simp [writeBe32, propBytes]

theorem propBytes_plain {nameoff : Nat} {value : Bytes}
    (nameoff_lt : nameoff < 2 ^ 32) (value_lt : value.length < 2 ^ 32) :
    propBytes nameoff value =
      (Property.plain nameoff value nameoff_lt value_lt).bytes := by
  rw [propBytes, Nat.mod_eq_of_lt value_lt]
  rfl

/-! ## The names of properties -/

/-- The strings block with a name, where it is found or at the end. -/
def withString (strings name : Bytes) : Bytes :=
  if ((findString strings name : Result (Option Nat)).toOption.join).isSome
  then strings else strings ++ (name ++ [0])

section

variable {strings strings' name : Bytes} {offset : Nat}

theorem withString_grown (strings name : Bytes) :
    ∃ more, withString strings name = strings ++ more := by
  unfold withString
  split
  · exact ⟨[], (List.append_nil strings).symm⟩
  · exact ⟨name ++ [0], rfl⟩

theorem withString_length_le (strings name : Bytes) :
    strings.length ≤ (withString strings name).length := by
  obtain ⟨more, same⟩ := withString_grown strings name
  rw [same, List.length_append]
  omega

theorem ensureString_withString
    (ensured : ensureString strings name = .ok (strings', offset)) :
    strings' = withString strings name := by
  obtain ⟨found, search, _⟩ := @findString_eq IoError strings name
  rw [ensureString, search, Run.ok_bind] at ensured
  rw [withString, search]
  cases found with
  | some cursor =>
      obtain ⟨_, _, same⟩ := Run.bind_eq_ok.mp ensured
      cases same
      rfl
  | none =>
      obtain ⟨_, _, same⟩ := Run.bind_eq_ok.mp ensured
      cases same
      rfl

/-- A name is found or added while the block stays short. -/
theorem ensureString_short (noNul : (0 : UInt8) ∉ name)
    (short : (withString strings name).length < 2 ^ 32) :
    ∃ offset, ensureString strings name =
        .ok (withString strings name, offset) ∧ offset < 2 ^ 32 ∧
      DeviceTree.stringAt (withString strings name) offset = some name := by
  have before := withString_length_le strings name
  obtain ⟨⟨strings', offset⟩, ensured⟩ :=
    ensureString_of_short name (show strings.length < 2 ^ 32 by omega)
  obtain ⟨small, named, _⟩ := ensureString_eq_ok noNul ensured
  obtain rfl := ensureString_withString ensured
  exact ⟨offset, ensured, small, named⟩

theorem stringAt_withString {key : Bytes}
    (found : DeviceTree.stringAt strings offset = some key) (name : Bytes) :
    DeviceTree.stringAt (withString strings name) offset = some key := by
  obtain ⟨more, same⟩ := withString_grown strings name
  rw [same]
  exact stringAt_append found more

end

/-- The strings block with all names of the properties, in their order. -/
def withNames (strings : Bytes) : Content → Bytes
  | .nil => strings
  | .prop name _ rest => withNames (withString strings (name.getD [])) rest
  | .node _ body rest => withNames (withNames strings body) rest

theorem withNames_grown (strings : Bytes) (content : Content) :
    ∃ more, withNames strings content = strings ++ more := by
  induction content generalizing strings with
  | nil => exact ⟨[], (List.append_nil strings).symm⟩
  | prop name value rest induction =>
      obtain ⟨first, same⟩ := withString_grown strings (name.getD [])
      obtain ⟨later, same'⟩ := induction (strings ++ first)
      exact ⟨first ++ later, by rw [withNames, same, same', List.append_assoc]⟩
  | node name body rest bodyInduction restInduction =>
      obtain ⟨first, same⟩ := bodyInduction strings
      obtain ⟨later, same'⟩ := restInduction (strings ++ first)
      exact ⟨first ++ later, by rw [withNames, same, same', List.append_assoc]⟩

theorem withNames_length_le (strings : Bytes) (content : Content) :
    strings.length ≤ (withNames strings content).length := by
  obtain ⟨more, same⟩ := withNames_grown strings content
  rw [same, List.length_append]
  omega

end Pocketboot.Kexec
