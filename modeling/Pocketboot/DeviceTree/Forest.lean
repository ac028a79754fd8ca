import Pocketboot.DeviceTree.Token

/-!
# Balanced token sequences

A `Forest` is a balanced sequence of lexemes: properties, no-operations and
nodes with their bodies, in any order.  `Content` is what such a sequence
means once the property names are looked up in a strings block; it forgets
padding and no-operations.  `Content.parse` computes it from the bytes.
-/

namespace Pocketboot.DeviceTree

/-- Balanced lexemes in the order of a structure block. -/
inductive Forest where
  | nil
  | nop (rest : Forest)
  | prop (property : Property) (rest : Forest)
  | node (name : NodeName) (body rest : Forest)

/-- Properties and nodes in the order of a structure block.  A property whose
name offset names no string has the name `none`. -/
inductive Content where
  | nil
  | prop (name : Option Bytes) (value : Bytes) (rest : Content)
  | node (name : Bytes) (body rest : Content)
  deriving DecidableEq, Repr

/-- The zero-terminated string at an offset of a strings block. -/
def stringAt (strings : Bytes) (offset : Nat) : Option Bytes :=
  let tail := strings.drop offset
  let name := tail.takeWhile (· ≠ 0)
  if name.length < tail.length then some name else none

namespace Forest

def bytes : Forest → Bytes
  | nil => []
  | nop rest => be32 nopToken ++ rest.bytes
  | prop property rest => property.bytes ++ rest.bytes
  | node name body rest =>
      name.bytes ++ (body.bytes ++ (be32 endNodeToken ++ rest.bytes))

def append : Forest → Forest → Forest
  | nil, other => other
  | nop rest, other => nop (rest.append other)
  | prop property rest, other => prop property (rest.append other)
  | node name body rest, other => node name body (rest.append other)

def content (strings : Bytes) : Forest → Content
  | nil => .nil
  | nop rest => rest.content strings
  | prop property rest =>
      .prop (stringAt strings property.nameoff) property.value
        (rest.content strings)
  | node name body rest =>
      .node name.text (body.content strings) (rest.content strings)

@[simp] theorem bytes_append (first second : Forest) :
    (first.append second).bytes = first.bytes ++ second.bytes := by
  induction first with
  | nil => rfl
  | nop rest induction => simp [append, bytes, induction]
  | prop property rest induction => simp [append, bytes, induction]
  | node name body rest _ induction => simp [append, bytes, induction]

theorem bytes_length_mod (forest : Forest) : forest.bytes.length % 4 = 0 := by
  induction forest with
  | nil => rfl
  | nop rest induction =>
      simp [bytes]
      omega
  | prop property rest induction =>
      have := (Lexeme.prop property).bytes_length_mod
      simp only [Lexeme.bytes] at this
      simp [bytes]
      omega
  | node name body rest bodyInduction restInduction =>
      have := (Lexeme.beginNode name).bytes_length_mod
      simp only [Lexeme.bytes] at this
      simp [bytes]
      omega

end Forest

namespace Content

def append : Content → Content → Content
  | nil, other => other
  | prop name value rest, other => prop name value (rest.append other)
  | node name body rest, other => node name body (rest.append other)

@[simp] theorem append_nil (content : Content) : content.append nil = content := by
  induction content with
  | nil => rfl
  | prop name value rest induction => simp [append, induction]
  | node name body rest _ induction => simp [append, induction]

/-- The properties of a node with this body, in order. -/
def props : Content → List (Option Bytes × Bytes)
  | nil => []
  | prop name value rest => (name, value) :: rest.props
  | node _ _ rest => rest.props

/-- The child nodes of a node with this body, in order. -/
def children : Content → List (Bytes × Content)
  | nil => []
  | prop _ _ rest => rest.children
  | node name body rest => (name, body) :: rest.children

/-- The values of the properties of a name, in order. -/
def values (name : Bytes) (content : Content) : List Bytes :=
  (content.props.filter (·.1 = some name)).map (·.2)

/-- The bodies of the nodes at a path below this body, in order. -/
def nodesAt : List Bytes → Content → List Content
  | [], content => [content]
  | name :: path, content =>
      (content.children.filter (·.1 = name)).flatMap fun child =>
        child.2.nodesAt path

end Content

@[simp] theorem Forest.content_append (strings : Bytes) (first second : Forest) :
    (first.append second).content strings =
      (first.content strings).append (second.content strings) := by
  induction first with
  | nil => rfl
  | nop rest induction => simp [append, content, induction]
  | prop property rest induction =>
      simp [append, content, Content.append, induction]
  | node name body rest _ induction =>
      simp [append, content, Content.append, induction]

/-- The token at the front of a string of bytes, with what follows it. -/
def readToken (data : Bytes) : Option (Token × Bytes) :=
  if data.length < 4 then none
  else
    let word := be32At data 0
    let body := data.drop 4
    if word = beginNodeToken then
      let name := body.takeWhile (· ≠ 0)
      let size := align4 (name.length + 1)
      if size ≤ body.length then some (.beginNode name, body.drop size) else none
    else if word = endNodeToken then some (.endNode, body)
    else if word = propToken then
      let size := align4 (8 + be32At body 0)
      if size ≤ body.length then
        some (.prop (be32At body 4) (Bytes.slice body 8 (8 + be32At body 0)),
          body.drop size)
      else none
    else if word = nopToken then some (.nop, body)
    else if word = endToken then some (.fin, body)
    else none

/-- Read properties and nodes up to a token that closes them. -/
def Content.parse (strings : Bytes) : Nat → Bytes → Option (Content × Bytes)
  | 0, _ => none
  | fuel + 1, data =>
      match readToken data with
      | none => none
      | some (.nop, rest) => Content.parse strings fuel rest
      | some (.prop nameoff value, rest) => do
          let (more, rest) ← Content.parse strings fuel rest
          return (.prop (stringAt strings nameoff) value more, rest)
      | some (.beginNode name, rest) => do
          let (body, rest) ← Content.parse strings fuel rest
          match readToken rest with
          | some (.endNode, rest) =>
              let (more, rest) ← Content.parse strings fuel rest
              return (.node name body more, rest)
          | _ => none
      | some (.endNode, _) => some (.nil, data)
      | some (.fin, _) => some (.nil, data)

private theorem be32At_front {value : Nat} {rest : Bytes}
    (bound : value < 2 ^ 32) : be32At (be32 value ++ rest) 0 = value := by
  simp only [be32At, Bytes.slice, Nat.sub_zero, List.drop_zero]
  rw [List.take_left' (by simp)]
  exact Bytes.ofBe_toBe_of_lt bound

theorem readToken_bytes (lexeme : Lexeme) (rest : Bytes) :
    readToken (lexeme.bytes ++ rest) = some (lexeme.token, rest) := by
  have long : ¬ (lexeme.bytes ++ rest).length < 4 := by
    have := lexeme.four_le_bytes_length
    simp only [List.length_append]
    omega
  unfold readToken
  rw [if_neg long]
  cases lexeme with
  | beginNode name =>
      have padded := name.padded
      have padShort := name.pad_lt
      have size : align4 (name.text.length + 1) =
          name.text.length + 1 + name.pad.length := by
        unfold align4
        omega
      have taken : (name.text ++ 0 :: (name.pad ++ rest)).takeWhile (· ≠ 0) =
          name.text := by
        rw [List.takeWhile_append_of_pos]
        · simp
        · intro byte member
          simp only [ne_eq, decide_eq_true_eq]
          exact fun zero => name.noNul (zero ▸ member)
      have body : (name.bytes ++ rest).drop 4 =
          name.text ++ 0 :: (name.pad ++ rest) := by
        simp [NodeName.bytes, List.drop_left' (Bytes.toBe_length 4 _)]
      have after : (name.text ++ 0 :: (name.pad ++ rest)).drop
          (name.text.length + 1 + name.pad.length) = rest := by
        have regroup : name.text ++ 0 :: (name.pad ++ rest) =
            (name.text ++ 0 :: name.pad) ++ rest := by simp
        rw [regroup, List.drop_left' (by simp; omega)]
      have word : be32At (name.bytes ++ rest) 0 = beginNodeToken := by
        rw [NodeName.bytes, List.append_assoc]
        exact be32At_front (by decide)
      simp only [Lexeme.bytes, Lexeme.token, word, if_true, body, taken, size,
        after]
      rw [if_pos (by simp; omega)]
  | prop property =>
      have padded := property.padded
      have padShort := property.pad_lt
      have size : align4 (8 + property.value.length) =
          8 + property.value.length + property.pad.length := by
        unfold align4
        omega
      have word : be32At (property.bytes ++ rest) 0 = propToken := by
        rw [Property.bytes, List.append_assoc]
        exact be32At_front (by decide)
      have body : (property.bytes ++ rest).drop 4 =
          be32 property.value.length ++ (be32 property.nameoff ++
            (property.value ++ (property.pad ++ rest))) := by
        simp [Property.bytes, List.drop_left' (Bytes.toBe_length 4 _)]
      have named : (be32 property.value.length ++ (be32 property.nameoff ++
          (property.value ++ (property.pad ++ rest)))).drop 4 =
            be32 property.nameoff ++
              (property.value ++ (property.pad ++ rest)) :=
        List.drop_left' (Bytes.toBe_length 4 _)
      have valued : (be32 property.value.length ++ (be32 property.nameoff ++
          (property.value ++ (property.pad ++ rest)))).drop 8 =
            property.value ++ (property.pad ++ rest) := by
        rw [show 8 = 4 + 4 from rfl, ← List.drop_drop, named,
          List.drop_left' (Bytes.toBe_length 4 _)]
      have after : (be32 property.value.length ++ (be32 property.nameoff ++
          (property.value ++ (property.pad ++ rest)))).drop
            (8 + property.value.length + property.pad.length) = rest := by
        rw [Nat.add_assoc, ← List.drop_drop, valued, ← List.append_assoc,
          List.drop_left' (by simp)]
      have nameoff : be32At (be32 property.value.length ++
          (be32 property.nameoff ++ (property.value ++ (property.pad ++ rest))))
            4 = property.nameoff := At.be32At_eq named property.nameoff_lt
      have value : Bytes.slice (be32 property.value.length ++
          (be32 property.nameoff ++ (property.value ++ (property.pad ++ rest))))
            8 (8 + property.value.length) = property.value := by
        simp only [Bytes.slice, valued, Nat.add_sub_cancel_left,
          List.take_left]
      simp only [Lexeme.bytes, Lexeme.token, word, body, propToken,
        beginNodeToken, endNodeToken, Nat.reduceEqDiff, if_true, if_false,
        be32At_front property.value_lt, size, nameoff, value, after]
      rw [if_pos (by simp; omega)]
  | endNode =>
      have word : be32At (be32 endNodeToken ++ rest) 0 = endNodeToken :=
        be32At_front (by decide)
      simp only [Lexeme.bytes, Lexeme.token, word,
        List.drop_left' (Bytes.toBe_length 4 _)]
      rfl
  | nop =>
      have word : be32At (be32 nopToken ++ rest) 0 = nopToken :=
        be32At_front (by decide)
      simp only [Lexeme.bytes, Lexeme.token, word,
        List.drop_left' (Bytes.toBe_length 4 _)]
      rfl
  | fin =>
      have word : be32At (be32 endToken ++ rest) 0 = endToken :=
        be32At_front (by decide)
      simp only [Lexeme.bytes, Lexeme.token, word,
        List.drop_left' (Bytes.toBe_length 4 _)]
      rfl

theorem readToken_beginNode (name : NodeName) (rest : Bytes) :
    readToken (name.bytes ++ rest) = some (.beginNode name.text, rest) :=
  readToken_bytes (.beginNode name) rest

theorem readToken_endNode (rest : Bytes) :
    readToken (be32 endNodeToken ++ rest) = some (.endNode, rest) :=
  readToken_bytes .endNode rest

theorem readToken_prop (property : Property) (rest : Bytes) :
    readToken (property.bytes ++ rest) =
      some (.prop property.nameoff property.value, rest) :=
  readToken_bytes (.prop property) rest

theorem readToken_nop (rest : Bytes) :
    readToken (be32 nopToken ++ rest) = some (.nop, rest) :=
  readToken_bytes .nop rest

/-- The parser reads every forest as its content, up to the closing token. -/
theorem Content.parse_bytes (strings : Bytes) {closing : Lexeme} (rest : Bytes)
    (closes : closing.token = .endNode ∨ closing.token = .fin)
    (forest : Forest) {fuel : Nat} (enough : forest.bytes.length < fuel) :
    Content.parse strings fuel (forest.bytes ++ (closing.bytes ++ rest)) =
      some (forest.content strings, closing.bytes ++ rest) := by
  induction forest generalizing fuel closing rest with
  | nil =>
      obtain ⟨fuel, rfl⟩ := Nat.exists_eq_succ_of_ne_zero (by omega : fuel ≠ 0)
      rcases closes with closes | closes <;>
        simp [Content.parse, Forest.bytes, readToken_bytes, closes,
          Forest.content]
  | nop more induction =>
      obtain ⟨fuel, rfl⟩ := Nat.exists_eq_succ_of_ne_zero (by omega : fuel ≠ 0)
      have size : more.bytes.length < fuel := by
        simp only [Forest.bytes, List.length_append, Bytes.toBe_length] at enough
        omega
      simp only [Content.parse, Forest.bytes, List.append_assoc, readToken_nop,
        induction rest closes size, Forest.content]
  | prop property more induction =>
      obtain ⟨fuel, rfl⟩ := Nat.exists_eq_succ_of_ne_zero (by omega : fuel ≠ 0)
      have width := (Lexeme.prop property).four_le_bytes_length
      simp only [Lexeme.bytes] at width
      have size : more.bytes.length < fuel := by
        simp only [Forest.bytes, List.length_append] at enough
        omega
      rw [Forest.bytes, List.append_assoc, Content.parse, readToken_prop]
      simp only [induction rest closes size, Option.bind_eq_bind,
        Option.bind_some, Option.pure_def]
      rw [Forest.content]
  | node name body more bodyInduction moreInduction =>
      obtain ⟨fuel, rfl⟩ := Nat.exists_eq_succ_of_ne_zero (by omega : fuel ≠ 0)
      have width := (Lexeme.beginNode name).four_le_bytes_length
      simp only [Lexeme.bytes] at width
      simp only [Forest.bytes, List.length_append, Bytes.toBe_length] at enough
      have bodySize : body.bytes.length < fuel := by omega
      have moreSize : more.bytes.length < fuel := by omega
      have readBody := bodyInduction (more.bytes ++ (closing.bytes ++ rest))
        (show Lexeme.endNode.token = .endNode ∨ _ from .inl rfl) bodySize
      rw [show Lexeme.endNode.bytes = be32 endNodeToken from rfl] at readBody
      simp only [Content.parse, Forest.bytes, List.append_assoc,
        readToken_beginNode, readBody, readToken_endNode,
        moreInduction rest closes moreSize, Forest.content,
        Option.bind_eq_bind, Option.bind_some, Option.pure_def]

end Pocketboot.DeviceTree
