import Pocketboot.DeviceTree.Document
import Pocketboot.Preboot.Fdt

/-!
# The parts of a node

What the iterators of the preboot reader yield at a node of a structure block,
and the phandle that it reads there.
-/

namespace Pocketboot.Preboot

open DeviceTree

section

variable {block rest : Bytes} {cursor : Nat}

theorem readBe32_of_at {value : Nat} (place : At block cursor (be32 value ++ rest))
    (bound : value < 2 ^ 32) : readBe32 block cursor = .ok value :=
  @readBe32_at _ blockReader _ _ _ _ place bound

theorem afterToken {value : Nat} (place : At block cursor (be32 value ++ rest)) :
    (addOrPanic wordSize cursor 4 : Result Nat) = .ok (cursor + 4) := by
  have := place.inside
  have := place.short
  exact addOrPanic_of (by unfold wordSize; omega)

/-- The content of a node begins behind its name. -/
theorem nodeContentStart_at {name : NodeName}
    (place : At block cursor (name.bytes ++ rest)) :
    nodeContentStart block cursor = .ok (cursor + name.bytes.length) := by
  have word := place
  rw [NodeName.bytes, List.append_assoc] at word
  have place' : At block cursor ((Lexeme.beginNode name).bytes ++ rest) := place
  have token := @nextToken_at _ blockReader _ _ _ _ place'
  rw [nextToken] at token
  obtain ⟨value, read, token⟩ := Run.bind_eq_ok.mp token
  obtain rfl := Except.ok.inj (read.symm.trans
    (@readBe32_at _ blockReader _ _ _ _ word (by decide)))
  obtain ⟨nameStart, plus, token⟩ := Run.bind_eq_ok.mp token
  rw [if_pos rfl] at token
  obtain ⟨nameEnd, found, token⟩ := Run.bind_eq_ok.mp token
  obtain ⟨text, _, token⟩ := Run.bind_eq_ok.mp token
  obtain ⟨stop, next, token⟩ := Run.bind_eq_ok.mp token
  obtain ⟨start, aligned, token⟩ := Run.bind_eq_ok.mp token
  simp only [Run.pure_eq_ok, Except.ok.injEq, Prod.mk.injEq] at token
  have read : readBe32 block cursor = .ok beginNodeToken := read
  have plus : checkedPlus cursor 4 = .ok nameStart := plus
  have found : findNul block nameStart = .ok nameEnd := found
  have next : checkedPlus nameEnd 1 = .ok stop := next
  have aligned : alignUsize stop 4 = .ok start := aligned
  simp only [nodeContentStart, read, plus, found, next, aligned, Run.ok_bind,
    Run.ensure_of]
  exact congrArg _ token.2

/-- The parts of a property. -/
theorem propertyParts_at {property : Property}
    (place : At block cursor (property.bytes ++ rest)) :
    ∃ parts, propertyParts block (cursor + 4) = .ok parts ∧
      parts.nameoff = property.nameoff ∧
      (sliceOrPanic block parts.valueStart parts.valueEnd : Result Bytes) =
        .ok property.value ∧
      parts.next = cursor + property.bytes.length := by
  have word := place
  rw [Property.bytes, List.append_assoc] at word
  have place' : At block cursor ((Lexeme.prop property).bytes ++ rest) := place
  have token := @nextToken_at _ blockReader _ _ _ _ place'
  rw [nextToken] at token
  obtain ⟨value, read, token⟩ := Run.bind_eq_ok.mp token
  obtain rfl := Except.ok.inj (read.symm.trans
    (@readBe32_at _ blockReader _ _ _ _ word (by decide)))
  obtain ⟨after, plus, token⟩ := Run.bind_eq_ok.mp token
  have := place.inside
  have := place.short
  obtain rfl := Except.ok.inj (plus.symm.trans
    (blockReader.plus_eq (show cursor + 4 < 2 ^ 34 by omega)))
  rw [if_neg (by decide), if_neg (by decide), if_pos rfl] at token
  obtain ⟨parts, split, token⟩ := Run.bind_eq_ok.mp token
  obtain ⟨value, sliced, token⟩ := Run.bind_eq_ok.mp token
  simp only [Run.pure_eq_ok, Except.ok.injEq, Prod.mk.injEq, Lexeme.token,
    Token.prop.injEq] at token
  obtain ⟨⟨nameoff, rfl⟩, next⟩ := token
  exact ⟨parts, split, nameoff, sliced, next⟩

end

/-! ## Subtrees -/

theorem skip_steady (block : Bytes) : Steady block skipBody := by
  refine Steady.of_next ?_
  intro depth cursor token next state' cursor' step
  cases token with
  | beginNode name =>
      obtain ⟨_, _, step⟩ := Run.bind_eq_ok.mp step
      cases step
      rfl
  | endNode =>
      obtain ⟨_, _, step⟩ := Run.bind_eq_ok.mp step
      dsimp only at step
      split at step
      · cases step
      · cases step
        rfl
  | prop nameoff value =>
      cases step
      rfl
  | nop =>
      cases step
      rfl
  | fin => cases step

/-- Inside of a node, the depth is that of the open nodes and the node. -/
theorem skip_searches (block : Bytes) :
    Searches block skipBody (fun chain depth => depth = chain.length + 1)
      (fun placed => placed.chain.length < 2 ^ 33) (fun _ => False) where
  nop := rfl
  prop := rfl
  found _ _ _ absurd := absurd.elim
  enter := by
    rintro chain depth name inner cursor next rest rfl _ allowed _
    simp only [List.length_append, List.length_singleton] at allowed
    refine ⟨chain.length + 1 + 1, by simp, ?_⟩
    rw [skipBody, checkedPlus_eq (by omega)]
    rfl
  leave := by
    rintro chain name depth cursor next rfl
    refine ⟨_, rfl, ?_⟩
    simp [skipBody, Run.ensure_of]

theorem skipNodeSubtree_at {block rest : Bytes} {cursor : Nat}
    {name : NodeName} {body : Forest}
    (place : At block cursor ((Forest.node name body .nil).bytes ++ rest)) :
    skipNodeSubtree block cursor =
      .ok (cursor + (Forest.node name body .nil).bytes.length) := by
  have steady := skip_steady block
  have named : At block cursor (name.bytes ++ (body.bytes ++
      (be32 endNodeToken ++ rest))) := place.node_rest
  have inside := named.name_rest
  have closing := inside.forest_rest
  have allow : ∀ placed ∈ body.nodes (cursor + name.bytes.length) [],
      placed.chain.length < 2 ^ 33 := by
    intro placed member
    have deep := Forest.chain_length_le placed member
    have size := body.depth_le
    have length := inside.length_eq
    have := inside.short
    simp only [List.length_nil, List.length_append] at deep length
    omega
  have first : loop blockReader block skipBody 0 cursor =
      loop blockReader block skipBody 1 (cursor + name.bytes.length) := by
    rw [loop_beginNode steady named, skipBody, checkedPlus_eq (by omega)]
    rfl
  have searched := @loop_search _ _ blockReader _ _ steady _ _ _
    (fun _ => instDecidableFalse) (skip_searches block) body [] 1 _ _ rfl
    inside allow
  have none : (body.nodes (cursor + name.bytes.length) []).find?
      (fun _ => decide False) = none := by simp
  rw [none] at searched
  obtain ⟨depth, rfl, passes⟩ := searched
  rw [skipNodeSubtree, first, passes, loop_endNode steady closing]
  simp [skipBody, Run.ensure_of, continueLoop, Forest.bytes]
  omega

/-! ## Child nodes -/

/-- What `Subnodes::next` returns where these child nodes are left. -/
inductive NextNode (block rest : Bytes) (chain : List Bytes) :
    List Placed → Option Node × Iter → Prop
  | none {cursor : Nat} : NextNode block rest chain [] (none, ⟨cursor, true⟩)
  | some {placed : Placed} {next : Nat} {forest : Forest}
      (place : At block next (forest.bytes ++ (be32 endNodeToken ++ rest))) :
      NextNode block rest chain (placed :: forest.tops next chain)
        (some ⟨placed.offset⟩, ⟨next, false⟩)

theorem nextNode_at {block rest : Bytes} {chain : List Bytes}
    (forest : Forest) {cursor fuel : Nat}
    (enough : forest.bytes.length < fuel)
    (place : At block cursor (forest.bytes ++ (be32 endNodeToken ++ rest))) :
    ∃ item, nextNode block fuel cursor = .ok item ∧
      NextNode block rest chain (forest.tops cursor chain) item := by
  obtain ⟨fuel, rfl⟩ := Nat.exists_eq_succ_of_ne_zero (by omega : fuel ≠ 0)
  induction forest generalizing cursor fuel with
  | nil =>
      refine ⟨(none, ⟨cursor + 4, true⟩), ?_, .none⟩
      rw [nextNode, readBe32_of_at place (by decide), Run.ok_bind,
        afterToken place, Run.ok_bind, if_neg (by decide), if_pos (.inl rfl)]
      rfl
  | nop more induction =>
      rw [Forest.bytes, List.append_assoc] at place
      rw [Forest.bytes, List.length_append, Bytes.toBe_length] at enough
      obtain ⟨fuel, rfl⟩ :=
        Nat.exists_eq_succ_of_ne_zero (by omega : fuel ≠ 0)
      rw [nextNode, readBe32_of_at place (by decide), Run.ok_bind,
        afterToken place, Run.ok_bind, if_neg (by decide), if_neg (by decide),
        if_neg (by decide), if_pos rfl]
      exact induction place.nop_rest fuel (by omega)
  | prop property more induction =>
      rw [Forest.bytes, List.append_assoc] at place
      have width := (Lexeme.prop property).four_le_bytes_length
      rw [Lexeme.bytes] at width
      rw [Forest.bytes, List.length_append] at enough
      obtain ⟨fuel, rfl⟩ :=
        Nat.exists_eq_succ_of_ne_zero (by omega : fuel ≠ 0)
      obtain ⟨parts, split, _, _, next⟩ := propertyParts_at place
      have word := place
      rw [Property.bytes, List.append_assoc] at word
      rw [nextNode, readBe32_of_at word (by decide), Run.ok_bind,
        afterToken word, Run.ok_bind, if_neg (by decide), if_neg (by decide),
        if_pos rfl, split, Run.ok_bind, next]
      exact induction place.prop_rest fuel (by omega)
  | node name body more bodyInduction moreInduction =>
      have whole : At block cursor ((Forest.node name body .nil).bytes ++
          (more.bytes ++ (be32 endNodeToken ++ rest))) := by
        simpa [Forest.bytes] using place
      have word := place.node_rest
      rw [NodeName.bytes, List.append_assoc] at word
      refine ⟨_, ?_, .some whole.forest_rest⟩
      rw [nextNode, readBe32_of_at word (by decide), Run.ok_bind,
        afterToken word, Run.ok_bind, if_pos rfl, skipNodeSubtree_at whole]
      rfl

/-! ## Properties -/

/-- What `Props::next` returns where these properties are left. -/
inductive NextProp (block strings rest : Bytes) :
    List Property → Option NodeProp × Iter → Prop
  | none {iter : Iter} : NextProp block strings rest [] (none, iter)
  | some {property : Property} {name : Bytes} {next : Nat} {forest : Forest}
      (named : DeviceTree.stringAt strings property.nameoff = some name)
      (place : At block next (forest.bytes ++ (be32 endNodeToken ++ rest)))
      (ordered : forest.Ordered) :
      NextProp block strings rest (property :: forest.properties)
        (some ⟨name, property.value⟩, ⟨next, false⟩)

theorem nextProp_at {block strings rest : Bytes} (forest : Forest)
    {cursor fuel : Nat} (enough : forest.bytes.length < fuel)
    (ordered : forest.Ordered)
    (named : ∀ property ∈ forest.properties,
      (DeviceTree.stringAt strings property.nameoff).isSome)
    (place : At block cursor (forest.bytes ++ (be32 endNodeToken ++ rest))) :
    ∃ item, nextProp block strings fuel cursor = .ok item ∧
      NextProp block strings rest forest.properties item := by
  obtain ⟨fuel, rfl⟩ := Nat.exists_eq_succ_of_ne_zero (by omega : fuel ≠ 0)
  induction forest generalizing cursor fuel with
  | nil =>
      refine ⟨(none, ⟨cursor + 4, true⟩), ?_, .none⟩
      rw [nextProp, readBe32_of_at place (by decide), Run.ok_bind,
        afterToken place, Run.ok_bind, if_neg (by decide),
        if_pos (.inr (.inl rfl))]
      rfl
  | nop more induction =>
      rw [Forest.bytes, List.append_assoc] at place
      rw [Forest.bytes, List.length_append, Bytes.toBe_length] at enough
      obtain ⟨fuel, rfl⟩ :=
        Nat.exists_eq_succ_of_ne_zero (by omega : fuel ≠ 0)
      rw [nextProp, readBe32_of_at place (by decide), Run.ok_bind,
        afterToken place, Run.ok_bind, if_neg (by decide), if_neg (by decide),
        if_pos rfl]
      exact induction ordered named place.nop_rest fuel (by omega)
  | prop property more induction =>
      rw [Forest.bytes, List.append_assoc] at place
      obtain ⟨parts, split, nameoff, sliced, next⟩ := propertyParts_at place
      obtain ⟨name, string⟩ :=
        Option.isSome_iff_exists.mp (named property (.head _))
      have word := place
      rw [Property.bytes, List.append_assoc] at word
      refine ⟨_, ?_, .some string place.prop_rest ordered⟩
      rw [nextProp, readBe32_of_at word (by decide), Run.ok_bind,
        afterToken word, Run.ok_bind, if_pos rfl, split, Run.ok_bind, nameoff,
        stringAt, lookupString_eq, string, Run.ofOption, Run.ok_bind, sliced,
        Run.ok_bind, next]
      rfl
  | node name body more bodyInduction moreInduction =>
      have word := place.node_rest
      rw [NodeName.bytes, List.append_assoc] at word
      rw [Forest.properties, ordered.2.2]
      refine ⟨(none, ⟨cursor + 4, true⟩), ?_, .none⟩
      rw [nextProp, readBe32_of_at word (by decide), Run.ok_bind,
        afterToken word, Run.ok_bind, if_neg (by decide), if_pos (.inl rfl)]
      rfl

/-! ## The properties of a node -/

section

variable {reader : Reader} {block strings rest : Bytes}

theorem propsNext_eq (readsBlock : reader.structBlock = .ok block)
    (readsStrings : reader.strings = .ok strings) (cursor : Nat) :
    reader.propsNext ⟨cursor, false⟩ =
      nextProp block strings (block.length + 1) cursor := by
  simp [Reader.propsNext, readsBlock, readsStrings]

theorem propFrom_at (readsBlock : reader.structBlock = .ok block)
    (readsStrings : reader.strings = .ok strings) (name : Bytes)
    {properties : List Property} {forest : Forest} {cursor fuel : Nat}
    (left : forest.properties = properties) (enough : properties.length < fuel)
    (ordered : forest.Ordered)
    (named : ∀ property ∈ properties,
      (DeviceTree.stringAt strings property.nameoff).isSome)
    (place : At block cursor (forest.bytes ++ (be32 endNodeToken ++ rest))) :
    reader.propFrom name fuel ⟨cursor, false⟩ =
      Run.ofOption .notFound ((properties.find? fun property =>
        DeviceTree.stringAt strings property.nameoff = some name).map
          Property.value) := by
  induction properties generalizing forest cursor fuel with
  | nil =>
      obtain ⟨fuel, rfl⟩ := Nat.exists_eq_succ_of_ne_zero (by omega : fuel ≠ 0)
      have short : forest.bytes.length < block.length + 1 := by
        have := place.length_eq
        rw [List.length_append] at this
        omega
      obtain ⟨item, next, result⟩ := nextProp_at forest short ordered
        (by simp [left]) place
      rw [left] at result
      cases result with
      | none =>
          rw [Reader.propFrom, propsNext_eq readsBlock readsStrings, next]
          rfl
  | cons property properties induction =>
      obtain ⟨fuel, rfl⟩ := Nat.exists_eq_succ_of_ne_zero (by omega : fuel ≠ 0)
      have short : forest.bytes.length < block.length + 1 := by
        have := place.length_eq
        rw [List.length_append] at this
        omega
      obtain ⟨item, next, result⟩ := nextProp_at forest short ordered
        (by rwa [left]) place
      rw [left] at result
      generalize known : property :: properties = all at result
      cases result with
      | none => simp at known
      | @some found string after more named' place' ordered' =>
          obtain ⟨rfl, rfl⟩ := List.cons.inj known
          rw [Reader.propFrom, propsNext_eq readsBlock readsStrings, next]
          simp only [Run.ok_bind, List.find?_cons, named', Option.some.injEq]
          by_cases same : string = name
          · simp [same, Run.ofOption]
          · simp only [same, if_false, decide_false]
            refine induction rfl ?_ ordered' ?_ place'
            · simpa using enough
            · exact fun property member => named property (.tail _ member)

/-- `prop` finds the first property of a name. -/
theorem prop_at (readsBlock : reader.structBlock = .ok block)
    (readsStrings : reader.strings = .ok strings)
    (inside : block.length ≤ reader.data.length) {placed : Placed}
    (ordered : placed.body.Ordered)
    (named : ∀ property ∈ placed.body.properties,
      (DeviceTree.stringAt strings property.nameoff).isSome)
    (place : At block placed.offset (placed.bytes ++ rest)) (name : Bytes) :
    reader.prop ⟨placed.offset⟩ name =
      Run.ofOption .notFound (placed.value strings name) := by
  have whole : At block placed.offset (placed.name.bytes ++
      (placed.body.bytes ++ (be32 endNodeToken ++ rest))) := place.node_rest
  have content := whole.name_rest
  have enough : placed.body.properties.length < reader.data.length + 1 := by
    have count := placed.body.properties_length_le
    have := content.length_eq
    rw [List.length_append] at this
    omega
  rw [Reader.prop, Reader.props, readsBlock, Run.ok_bind,
    nodeContentStart_at whole]
  exact propFrom_at readsBlock readsStrings name rfl enough ordered named
    content

end

/-! ## The phandle of a node -/

theorem okOf_orElse {α : Type} {first second : Result α} {left right : Option α}
    (ends : okOf first = .ok left) (ends' : okOf second = .ok right) :
    okOf (orElse first second) = .ok (left.or right) := by
  rw [orElse, ends, Run.ok_bind]
  cases left with
  | none => exact ends'
  | some item => rfl

theorem okOf_readBe32 (value : Bytes) :
    okOf (readBe32 value 0) = .ok (Placed.word value) := by
  have sum : checkedAdd 0 4 = some 4 := by decide
  rw [readBe32, readWord, sum, Run.ofOption, Run.ok_bind, Placed.word]
  by_cases long : 4 ≤ value.length
  · rw [Run.ensure_of long, Run.ok_bind, sliceOrPanic_of (by omega) long,
      if_pos long]
    rfl
  · rw [Run.ensure_of_not long, if_neg long]
    rfl

section

variable {reader : Reader} {block strings rest : Bytes}

theorem nodePhandle_at (readsBlock : reader.structBlock = .ok block)
    (readsStrings : reader.strings = .ok strings)
    (inside : block.length ≤ reader.data.length) {placed : Placed}
    (ordered : placed.body.Ordered)
    (named : ∀ property ∈ placed.body.properties,
      (DeviceTree.stringAt strings property.nameoff).isSome)
    (place : At block placed.offset (placed.bytes ++ rest)) :
    okOf (reader.nodePhandle ⟨placed.offset⟩) =
      .ok (placed.phandle strings) := by
  have word : ∀ name, okOf (reader.propU32 ⟨placed.offset⟩ name) =
      .ok ((placed.value strings name).bind Placed.word) := by
    intro name
    rw [Reader.propU32,
      prop_at readsBlock readsStrings inside ordered named place name]
    cases placed.value strings name with
    | none => rfl
    | some value => exact okOf_readBe32 value
  exact okOf_orElse (word _) (word _)

theorem findPhandle_steady (phandle : Nat) :
    Steady block (reader.findPhandleBody phandle) := by
  refine Steady.of_next ?_
  intro state cursor token next state' cursor' step
  cases token with
  | beginNode name =>
      obtain ⟨found, _, step⟩ := Run.bind_eq_ok.mp step
      split at step
      · cases step
      · cases step
        rfl
  | endNode =>
      cases step
      rfl
  | prop nameoff value =>
      cases step
      rfl
  | nop =>
      cases step
      rfl
  | fin => cases step

theorem findPhandle_searches (readsBlock : reader.structBlock = .ok block)
    (readsStrings : reader.strings = .ok strings)
    (inside : block.length ≤ reader.data.length) (phandle : Nat) :
    Searches block (reader.findPhandleBody phandle) (fun _ _ => True)
      (fun placed => placed.body.Ordered ∧
        ∀ property ∈ placed.body.properties,
          (DeviceTree.stringAt strings property.nameoff).isSome)
      (fun placed => placed.phandle strings = some phandle) where
  nop := rfl
  prop := rfl
  found := by
    rintro chain state name inner cursor next rest _ place ⟨ordered, named⟩
      wanted
    have read := @nodePhandle_at _ _ _ _ readsBlock readsStrings inside
      ⟨cursor, chain ++ [name.text], name, inner⟩ ordered named place
    simp only [Reader.findPhandleBody, read, Run.ok_bind, wanted, if_true]
    rfl
  enter := by
    rintro chain state name inner cursor next rest _ place ⟨ordered, named⟩
      unwanted
    have read := @nodePhandle_at _ _ _ _ readsBlock readsStrings inside
      ⟨cursor, chain ++ [name.text], name, inner⟩ ordered named place
    refine ⟨(), trivial, ?_⟩
    simp only [Reader.findPhandleBody, read, Run.ok_bind, unwanted, if_false]
    rfl
  leave _ := ⟨(), trivial, rfl⟩

end

end Pocketboot.Preboot
