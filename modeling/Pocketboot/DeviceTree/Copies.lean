import Pocketboot.DeviceTree.Strings
import Pocketboot.DeviceTree.Walk

/-!
# Copies of a forest

A program that copies a structure block token by token writes a forest of its
own.  Padding of names is written anew, properties may be put in front, and
names keep their offsets while the strings block grows at its end.
-/

namespace Pocketboot.DeviceTree

theorem Property.bytes_length (property : Property) :
    property.bytes.length = 12 + align4 property.value.length := by
  have padded := property.padded
  have short := property.pad_lt
  simp only [Property.bytes, List.length_append, Bytes.toBe_length]
  unfold align4
  omega

/-- Every property has a name. -/
def Content.Named : Content → Prop
  | .nil => True
  | .prop name _ rest => name.isSome = true ∧ rest.Named
  | .node _ body rest => body.Named ∧ rest.Named

namespace Content

/-- Properties in front of what follows them. -/
def prepend (props : List (Bytes × Bytes)) (rest : Content) : Content :=
  props.foldr (fun item rest => .prop (some item.1) item.2 rest) rest

theorem prepend_cons (item : Bytes × Bytes) (props : List (Bytes × Bytes))
    (rest : Content) :
    prepend (item :: props) rest =
      .prop (some item.1) item.2 (prepend props rest) := rfl

theorem named_prepend {props : List (Bytes × Bytes)} {rest : Content} :
    (prepend props rest).Named ↔ rest.Named := by
  induction props with
  | nil => rfl
  | cons item props induction =>
      rw [prepend_cons, Named, induction]
      simp

end Content

namespace Forest

/-- The forest with the names padded with zeros. -/
def plain : Forest → Forest
  | nil => nil
  | nop rest => nop rest.plain
  | prop property rest => prop property rest.plain
  | node name body rest =>
      node (.plain name.text name.noNul) body.plain rest.plain

@[simp] theorem plain_content (strings : Bytes) (forest : Forest) :
    forest.plain.content strings = forest.content strings := by
  induction forest with
  | nil => rfl
  | nop rest induction => exact induction
  | prop property rest induction => rw [plain, content, content, induction]
  | node name body rest bodyInduction restInduction =>
      rw [plain, content, content, bodyInduction, restInduction]
      rfl

/-- Properties in front of a forest. -/
def prepend (properties : List Property) (rest : Forest) : Forest :=
  properties.foldr .prop rest

@[simp] theorem prepend_bytes (properties : List Property) (rest : Forest) :
    (prepend properties rest).bytes =
      properties.flatMap Property.bytes ++ rest.bytes := by
  induction properties with
  | nil => rfl
  | cons property properties induction =>
      change property.bytes ++ (prepend properties rest).bytes = _
      rw [induction, List.flatMap_cons, List.append_assoc]

/-- Names that are in the strings block stay what they are. -/
theorem content_grown {strings : Bytes} (more : Bytes) {forest : Forest}
    (named : (forest.content strings).Named) :
    forest.content (strings ++ more) = forest.content strings := by
  induction forest with
  | nil => rfl
  | nop rest induction => exact induction named
  | prop property rest induction =>
      obtain ⟨first, later⟩ := named
      obtain ⟨name, found⟩ := Option.isSome_iff_exists.mp first
      rw [content, content, induction later, found, stringAt_append found]
  | node name body rest bodyInduction restInduction =>
      rw [content, content, bodyInduction named.1, restInduction named.2]

/-- So many no-operations. -/
def nops : Nat → Forest
  | 0 => nil
  | count + 1 => nop (nops count)

theorem exists_nops {strings : Bytes} {forest : Forest}
    (blank : forest.content strings = .nil) : ∃ count, forest = nops count := by
  induction forest with
  | nil => exact ⟨0, rfl⟩
  | nop rest induction =>
      obtain ⟨count, rfl⟩ := induction blank
      exact ⟨count + 1, rfl⟩
  | prop property rest _ => cases blank
  | node name body rest _ _ => cases blank

/-- A forest of a single node has only no-operations around it. -/
theorem exists_single {strings text : Bytes} {forest : Forest}
    {body : Content} (single : forest.content strings = .node text body .nil) :
    ∃ before after name inner,
      forest = (nops before).append (node name inner (nops after)) ∧
        name.text = text ∧ inner.content strings = body := by
  induction forest with
  | nil => cases single
  | nop rest induction =>
      obtain ⟨before, after, name, inner, rfl, named, content⟩ :=
        induction single
      exact ⟨before + 1, after, name, inner, rfl, named, content⟩
  | prop property rest _ => cases single
  | node name inner rest _ _ =>
      obtain ⟨named, content, blank⟩ := Content.node.inj single
      obtain ⟨after, rfl⟩ := exists_nops blank
      exact ⟨0, after, name, inner, rfl, named, content⟩

end Forest

/-- A token at its place is copied whole. -/
theorem At.copied {ε : Type} {block front rest : Bytes} {cursor : Nat}
    (place : At block cursor (front ++ rest)) :
    (sliceOrPanic block cursor (cursor + front.length) : Run ε Bytes) =
      .ok front := by
  have length := place.length_eq
  rw [List.length_append] at length
  rw [sliceOrPanic_of (by omega) (by omega), place.slice_eq]

end Pocketboot.DeviceTree
