import Pocketboot.DeviceTree.Strings
import Pocketboot.DeviceTree.Blob

/-!
# Device trees inside of a blob

The tree that a blob encodes, by places in the blob: data is padded up to a
multiple of four bytes of the blob, wherever its structure block begins.
`Spells` says which properties and nodes lie between two places and `Encodes`
which tree a whole blob holds; a blob holds at most one.
-/

namespace Pocketboot.DeviceTree

/-- Where the blocks of a blob are. -/
structure Extents where
  structStart : Nat
  structEnd : Nat
  stringsStart : Nat
  stringsEnd : Nat
  deriving DecidableEq, Repr

/-- The places in the header of a blob. -/
def extentsOf (blob : Bytes) : Extents where
  structStart := (headerOf blob).offDtStruct
  structEnd := (headerOf blob).offDtStruct + (headerOf blob).sizeDtStruct
  stringsStart := (headerOf blob).offDtStrings
  stringsEnd := (headerOf blob).offDtStrings + (headerOf blob).sizeDtStrings

/-- The blob has this word at this place. -/
def WordAt (blob : Bytes) (cursor word : Nat) : Prop :=
  cursor + 4 ≤ blob.length ∧ be32At blob cursor = word

/-- The string at a place of a blob that ends before a limit. -/
def textAt (blob : Bytes) (limit cursor : Nat) : Option Bytes :=
  stringAt (blob.take limit) cursor

/-- Between the two places of the blob are these properties and nodes. -/
inductive Spells (blob : Bytes) (extents : Extents) :
    Nat → Content → Nat → Prop where
  | nil {cursor : Nat} : Spells blob extents cursor .nil cursor
  | nop {cursor stop : Nat} {content : Content}
      (word : WordAt blob cursor nopToken)
      (more : Spells blob extents (cursor + 4) content stop) :
      Spells blob extents cursor content stop
  | prop {cursor nameoff stop : Nat} {name value : Bytes} {rest : Content}
      (word : WordAt blob cursor propToken)
      (size : WordAt blob (cursor + 4) value.length)
      (offset : WordAt blob (cursor + 8) nameoff)
      (held : Bytes.slice blob (cursor + 12)
        (cursor + 12 + value.length) = value)
      (inside : align4 (cursor + 12 + value.length) ≤ extents.structEnd)
      (named : textAt blob extents.stringsEnd
        (extents.stringsStart + nameoff) = some name)
      (more : Spells blob extents (align4 (cursor + 12 + value.length)) rest
        stop) :
      Spells blob extents cursor (.prop (some name) value rest) stop
  | node {cursor middle stop : Nat} {name : Bytes} {body rest : Content}
      (word : WordAt blob cursor beginNodeToken)
      (named : textAt blob extents.structEnd (cursor + 4) = some name)
      (inside : align4 (cursor + 4 + name.length + 1) ≤ extents.structEnd)
      (inner : Spells blob extents (align4 (cursor + 4 + name.length + 1))
        body middle)
      (closing : WordAt blob middle endNodeToken)
      (more : Spells blob extents (middle + 4) rest stop) :
      Spells blob extents cursor (.node name body rest) stop

/-- What closes a sequence of properties and nodes: the end of a node, or that
of the tree. -/
def Closing (blob : Bytes) (cursor : Nat) : Prop :=
  WordAt blob cursor endNodeToken ∨ WordAt blob cursor endToken

/-- The blob encodes this tree: the tree's nodes and the end token are in the
structure block. -/
structure Encodes (blob : Bytes) (tree : Content) : Prop where
  headed : 40 ≤ blob.length
  magic : WordAt blob 0 fdtMagic
  whole : (headerOf blob).totalsize ≤ blob.length
  struct_le : (extentsOf blob).structEnd ≤ (headerOf blob).totalsize
  strings_le : (extentsOf blob).stringsEnd ≤ (headerOf blob).totalsize
  spells : ∃ stop < (extentsOf blob).structEnd,
    Spells blob (extentsOf blob) (extentsOf blob).structStart tree stop ∧
      WordAt blob stop endToken

section

variable {blob : Bytes} {extents : Extents} {cursor stop : Nat}

theorem WordAt.unique {first second : Nat} (left : WordAt blob cursor first)
    (right : WordAt blob cursor second) : first = second :=
  left.2.symm.trans right.2

private theorem closing_other {word : Nat} (closing : Closing blob cursor)
    (here : WordAt blob cursor word) (notEndNode : word ≠ endNodeToken)
    (notEnd : word ≠ endToken) : False := by
  rcases closing with endNode | fin
  · exact notEndNode (here.unique endNode)
  · exact notEnd (here.unique fin)

/-- What a blob spells from a place on, up to what closes it, is determined. -/
theorem Spells.unique {left right : Content} {stop' : Nat}
    (first : Spells blob extents cursor left stop)
    (second : Spells blob extents cursor right stop')
    (closing : Closing blob stop) (closing' : Closing blob stop') :
    left = right ∧ stop = stop' := by
  induction first generalizing right stop' with
  | nil =>
      cases second with
      | nil => exact ⟨rfl, rfl⟩
      | nop word _ => exact (closing_other closing word nofun nofun).elim
      | prop word _ _ _ _ _ _ =>
          exact (closing_other closing word nofun nofun).elim
      | node word _ _ _ _ _ =>
          exact (closing_other closing word nofun nofun).elim
  | nop word more induction =>
      cases second with
      | nil => exact (closing_other closing' word nofun nofun).elim
      | nop _ more' => exact induction more' closing closing'
      | prop word' _ _ _ _ _ _ => cases word.unique word'
      | node word' _ _ _ _ _ => cases word.unique word'
  | prop word size offset held inside named more induction =>
      cases second with
      | nil => exact (closing_other closing' word nofun nofun).elim
      | nop word' _ => cases word.unique word'
      | prop _ size' offset' held' _ named' more' =>
          have lengths := size.unique size'
          have offsets := offset.unique offset'
          rw [← lengths] at held' more'
          rw [offsets] at named
          obtain ⟨rest, same⟩ := induction more' closing closing'
          rw [named.symm.trans named', held.symm.trans held', rest]
          exact ⟨rfl, same⟩
      | node word' _ _ _ _ _ => cases word.unique word'
  | node word named inside inner ending more innerInduction moreInduction =>
      cases second with
      | nil => exact (closing_other closing' word nofun nofun).elim
      | nop word' _ => cases word.unique word'
      | prop word' _ _ _ _ _ _ => cases word.unique word'
      | node _ named' _ inner' ending' more' =>
          obtain rfl := Option.some.inj (named.symm.trans named')
          obtain ⟨body, middle⟩ :=
            innerInduction inner' (.inl ending) (.inl ending')
          rw [← middle] at more'
          obtain ⟨rest, same⟩ := moreInduction more' closing closing'
          rw [body, rest]
          exact ⟨rfl, same⟩

/-- A blob encodes at most one tree. -/
theorem Encodes.unique {first second : Content} (left : Encodes blob first)
    (right : Encodes blob second) : first = second := by
  obtain ⟨stop, _, spells, fin⟩ := left.spells
  obtain ⟨stop', _, spells', fin'⟩ := right.spells
  exact (spells.unique spells' (.inr fin) (.inr fin')).1

/-- What follows in the blob: the rest of every open node, innermost first, and
the end of the tree. -/
inductive Finishes (blob : Bytes) (extents : Extents) :
    Nat → List Content → Prop where
  | last {cursor stop : Nat} {content : Content}
      (spells : Spells blob extents cursor content stop)
      (inside : stop < extents.structEnd) (fin : WordAt blob stop endToken) :
      Finishes blob extents cursor [content]
  | close {cursor stop : Nat} {content next : Content} {rests : List Content}
      (spells : Spells blob extents cursor content stop)
      (closing : WordAt blob stop endNodeToken)
      (more : Finishes blob extents (stop + 4) (next :: rests)) :
      Finishes blob extents cursor (content :: next :: rests)

/-- More in front of the rest of the innermost open node. -/
theorem Finishes.front {next : Nat} {content longer : Content}
    {rests : List Content}
    (extend : ∀ {stop}, Spells blob extents next content stop →
      Spells blob extents cursor longer stop)
    (finishes : Finishes blob extents next (content :: rests)) :
    Finishes blob extents cursor (longer :: rests) := by
  cases finishes with
  | last spells inside fin => exact .last (extend spells) inside fin
  | close spells closing more => exact .close (extend spells) closing more

/-- A node that is opened here is closed later. -/
theorem Finishes.node {name : Bytes} {body content : Content}
    {rests : List Content} (word : WordAt blob cursor beginNodeToken)
    (named : textAt blob extents.structEnd (cursor + 4) = some name)
    (inside : align4 (cursor + 4 + name.length + 1) ≤ extents.structEnd)
    (finishes : Finishes blob extents (align4 (cursor + 4 + name.length + 1))
      (body :: content :: rests)) :
    Finishes blob extents cursor (.node name body content :: rests) := by
  cases finishes with
  | close spells closing more =>
      exact more.front fun rest => .node word named inside spells closing rest

end

end Pocketboot.DeviceTree
