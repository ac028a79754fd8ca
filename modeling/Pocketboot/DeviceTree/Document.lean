import Pocketboot.DeviceTree.Walk

/-!
# Nodes in document order

The nodes of a structure block in the order of their tokens, each with the
place of its token and the names from the root down to it.  A loop that
returns at the first node it wants finds the first one in this order.
-/

namespace Pocketboot.DeviceTree

/-- A node of a structure block: where its token starts, the names from its
root to it, and its body. -/
structure Placed where
  offset : Nat
  chain : List Bytes
  name : NodeName
  body : Forest

namespace Forest

/-- The nodes of a forest that starts at an offset below the nodes of a chain,
in document order. -/
def nodes (offset : Nat) (chain : List Bytes) : Forest → List Placed
  | nil => []
  | nop rest => rest.nodes (offset + 4) chain
  | prop property rest => rest.nodes (offset + property.bytes.length) chain
  | node name body rest =>
      ⟨offset, chain ++ [name.text], name, body⟩ ::
        (body.nodes (offset + name.bytes.length) (chain ++ [name.text]) ++
          rest.nodes (offset + (node name body nil).bytes.length) chain)

/-- The nodes that are not inside of another. -/
def tops (offset : Nat) (chain : List Bytes) : Forest → List Placed
  | nil => []
  | nop rest => rest.tops (offset + 4) chain
  | prop property rest => rest.tops (offset + property.bytes.length) chain
  | node name body rest =>
      ⟨offset, chain ++ [name.text], name, body⟩ ::
        rest.tops (offset + (node name body nil).bytes.length) chain

/-- The properties that are not inside of a node. -/
def properties : Forest → List Property
  | nil => []
  | nop rest => rest.properties
  | prop property rest => property :: rest.properties
  | node _ _ rest => rest.properties

/-- How deep the nodes are nested. -/
def depth : Forest → Nat
  | nil => 0
  | nop rest => rest.depth
  | prop _ rest => rest.depth
  | node _ body rest => max (body.depth + 1) rest.depth

/-- The properties come before the nodes, here and inside of every node. -/
def Ordered : Forest → Prop
  | nil => True
  | nop rest => rest.Ordered
  | prop _ rest => rest.Ordered
  | node _ body rest => body.Ordered ∧ rest.Ordered ∧ rest.properties = []

/-- The first node is the first that is not inside of another. -/
theorem head_nodes (forest : Forest) (offset : Nat) (chain : List Bytes) :
    (forest.nodes offset chain).head? = (forest.tops offset chain).head? := by
  induction forest generalizing offset with
  | nil => rfl
  | nop rest induction => exact induction _
  | prop property rest induction => exact induction _
  | node name body rest _ _ => rfl

theorem ordered_body {forest : Forest} (ordered : forest.Ordered)
    {offset : Nat} {chain : List Bytes} :
    ∀ placed ∈ forest.nodes offset chain, placed.body.Ordered := by
  induction forest generalizing offset chain with
  | nil => simp [nodes]
  | nop rest induction => exact induction ordered
  | prop property rest induction => exact induction ordered
  | node name body rest bodyInduction restInduction =>
      obtain ⟨inner, more, _⟩ := ordered
      intro placed member
      rcases List.mem_cons.mp member with rfl | member
      · exact inner
      · rcases List.mem_append.mp member with inside | behind
        · exact bodyInduction inner placed inside
        · exact restInduction more placed behind

/-- No chain is longer than the nodes are deep. -/
theorem chain_length_le {forest : Forest} {offset : Nat} {chain : List Bytes} :
    ∀ placed ∈ forest.nodes offset chain,
      placed.chain.length ≤ chain.length + forest.depth := by
  induction forest generalizing offset chain with
  | nil => simp [nodes]
  | nop rest induction => exact induction
  | prop property rest induction => exact induction
  | node name body rest bodyInduction restInduction =>
      intro placed member
      rw [depth]
      rcases List.mem_cons.mp member with rfl | member
      · simp only [List.length_append, List.length_singleton]
        omega
      · rcases List.mem_append.mp member with inside | behind
        · have := bodyInduction placed inside
          simp only [List.length_append, List.length_singleton] at this
          omega
        · have := restInduction placed behind
          omega

theorem depth_le (forest : Forest) : forest.depth ≤ forest.bytes.length := by
  induction forest with
  | nil => exact Nat.le_refl 0
  | nop rest induction =>
      simp only [depth, bytes, List.length_append]
      omega
  | prop property rest induction =>
      simp only [depth, bytes, List.length_append]
      omega
  | node name body rest bodyInduction restInduction =>
      simp only [depth, bytes, List.length_append, Bytes.toBe_length]
      omega

theorem properties_length_le (forest : Forest) :
    forest.properties.length ≤ forest.bytes.length := by
  induction forest with
  | nil => exact Nat.le_refl 0
  | nop rest induction =>
      simp only [properties, bytes, List.length_append]
      omega
  | prop property rest induction =>
      have width := (Lexeme.prop property).four_le_bytes_length
      rw [Lexeme.bytes] at width
      simp only [properties, bytes, List.length_append, List.length_cons]
      omega
  | node name body rest _ induction =>
      simp only [properties, bytes, List.length_append, Bytes.toBe_length]
      omega

end Forest

namespace Placed

/-- The bytes of a node. -/
def bytes (placed : Placed) : Bytes :=
  (Forest.node placed.name placed.body .nil).bytes

/-- The child nodes of a node, in order. -/
def children (placed : Placed) : List Placed :=
  placed.body.tops (placed.offset + placed.name.bytes.length) placed.chain

/-- The value of a property of a node, the first one of this name. -/
def value (strings : Bytes) (placed : Placed) (name : Bytes) : Option Bytes :=
  (placed.body.properties.find? fun property =>
    stringAt strings property.nameoff = some name).map Property.value

/-- The word at the front of a value. -/
def word (value : Bytes) : Option Nat :=
  if 4 ≤ value.length then some (be32At value 0) else none

/-- The phandle of a node; the older name counts where the other does not give
a word. -/
def phandle (strings : Bytes) (placed : Placed) : Option Nat :=
  ((placed.value strings (byteString "phandle")).bind word).or
    ((placed.value strings (byteString "linux,phandle")).bind word)

end Placed

theorem At.node_rest {block rest : Bytes} {cursor : Nat} {name : NodeName}
    {body more : Forest}
    (place : At block cursor ((Forest.node name body more).bytes ++ rest)) :
    At block cursor (name.bytes ++ (body.bytes ++
      (be32 endNodeToken ++ (more.bytes ++ rest)))) := by
  simpa [Forest.bytes] using place

/-- Every node of a forest is at its place. -/
theorem At.placed {block rest : Bytes} {forest : Forest} {cursor : Nat}
    {chain : List Bytes} (place : At block cursor (forest.bytes ++ rest)) :
    ∀ placed ∈ forest.nodes cursor chain, ∃ rest,
      At block placed.offset (placed.bytes ++ rest) := by
  induction forest generalizing cursor chain rest with
  | nil => simp [Forest.nodes]
  | nop more induction =>
      rw [Forest.bytes, List.append_assoc] at place
      exact induction place.nop_rest
  | prop property more induction =>
      rw [Forest.bytes, List.append_assoc] at place
      exact induction place.prop_rest
  | node name body more bodyInduction moreInduction =>
      have whole : At block cursor ((Forest.node name body .nil).bytes ++
          (more.bytes ++ rest)) := by
        simpa [Forest.bytes] using place
      intro placed member
      rcases List.mem_cons.mp member with rfl | member
      · exact ⟨_, whole⟩
      · rcases List.mem_append.mp member with inside | behind
        · exact bodyInduction place.node_rest.name_rest placed inside
        · exact moreInduction whole.forest_rest placed behind

/-! ## Loops that search -/

section

variable {ε σ : Type} {reader : BlockReader ε} {block : Bytes}
  {body : Body ε σ Nat}

/-- The loop body returns the place of the first node it wants.  Between two
tokens its state fits the chain of the open nodes. -/
structure Searches (block : Bytes) (body : Body ε σ Nat)
    (fits : List Bytes → σ → Prop) (allowed wanted : Placed → Prop) :
    Prop where
  nop : ∀ {state cursor},
    body state cursor .nop (cursor + 4) = .ok (.more state (cursor + 4))
  prop : ∀ {state cursor nameoff value next},
    body state cursor (.prop nameoff value) next = .ok (.more state next)
  found : ∀ {chain state name inner cursor next rest}, fits chain state →
    At block cursor ((Forest.node name inner .nil).bytes ++ rest) →
    allowed ⟨cursor, chain ++ [name.text], name, inner⟩ →
    wanted ⟨cursor, chain ++ [name.text], name, inner⟩ →
    body state cursor (.beginNode name.text) next = .ok (.done cursor)
  enter : ∀ {chain state name inner cursor next rest}, fits chain state →
    At block cursor ((Forest.node name inner .nil).bytes ++ rest) →
    allowed ⟨cursor, chain ++ [name.text], name, inner⟩ →
    ¬wanted ⟨cursor, chain ++ [name.text], name, inner⟩ →
    ∃ state', fits (chain ++ [name.text]) state' ∧
      body state cursor (.beginNode name.text) next =
        .ok (.more state' next)
  leave : ∀ {chain name state cursor next}, fits (chain ++ [name]) state →
    ∃ state', fits chain state' ∧
      body state cursor .endNode next = .ok (.more state' next)

/-- What a search of a part of the block comes to. -/
def Searched (reader : BlockReader ε) (block : Bytes) (body : Body ε σ Nat)
    (fits : List Bytes → σ → Prop) (chain : List Bytes) (state : σ)
    (cursor next : Nat) : Option Placed → Prop
  | some placed => loop reader block body state cursor = .ok placed.offset
  | none => ∃ state', fits chain state' ∧
      loop reader block body state cursor =
        loop reader block body state' next

theorem Searched.of_step {fits : List Bytes → σ → Prop} {chain : List Bytes}
    {state state' : σ} {cursor cursor' next : Nat} {result : Option Placed}
    (step : loop reader block body state cursor =
      loop reader block body state' cursor')
    (searched : Searched reader block body fits chain state' cursor' next
      result) :
    Searched reader block body fits chain state cursor next result := by
  cases result with
  | some placed => exact step.trans searched
  | none =>
      obtain ⟨last, fits, passes⟩ := searched
      exact ⟨last, fits, step.trans passes⟩

/-- A search returns the first node of a forest that is wanted, or passes over
the forest. -/
theorem loop_search (steady : Steady block body)
    {fits : List Bytes → σ → Prop} {allowed wanted : Placed → Prop}
    [DecidablePred wanted] (searches : Searches block body fits allowed wanted)
    (forest : Forest) {chain : List Bytes} {state : σ} {cursor : Nat}
    {rest : Bytes} (begins : fits chain state)
    (place : At block cursor (forest.bytes ++ rest))
    (allow : ∀ placed ∈ forest.nodes cursor chain, allowed placed) :
    Searched reader block body fits chain state cursor
      (cursor + forest.bytes.length)
      ((forest.nodes cursor chain).find? (wanted ·)) := by
  induction forest generalizing chain state cursor rest with
  | nil => exact ⟨state, begins, rfl⟩
  | nop more induction =>
      rw [Forest.bytes, List.append_assoc] at place
      have step : loop reader block body state cursor =
          loop reader block body state (cursor + 4) := by
        rw [loop_nop steady place, searches.nop]
        rfl
      rw [Forest.bytes, List.length_append, Bytes.toBe_length,
        ← Nat.add_assoc]
      exact (induction begins place.nop_rest allow).of_step step
  | prop property more induction =>
      rw [Forest.bytes, List.append_assoc] at place
      have step : loop reader block body state cursor =
          loop reader block body state (cursor + property.bytes.length) := by
        rw [loop_prop steady place, searches.prop]
        rfl
      rw [Forest.bytes, List.length_append, ← Nat.add_assoc]
      exact (induction begins place.prop_rest allow).of_step step
  | node name inner more innerInduction moreInduction =>
      have whole : At block cursor ((Forest.node name inner .nil).bytes ++
          (more.bytes ++ rest)) := by
        simpa [Forest.bytes] using place
      have named := place.node_rest
      have inside := named.name_rest
      have closing := inside.forest_rest
      rw [Forest.nodes] at allow ⊢
      have allowed := allow _ (.head _)
      rw [List.find?_cons]
      by_cases wants : wanted ⟨cursor, chain ++ [name.text], name, inner⟩
      · simp only [wants, decide_true]
        rw [Searched, loop_beginNode steady named,
          searches.found begins whole allowed wants]
        rfl
      · simp only [wants, decide_false]
        obtain ⟨state₁, fits₁, enters⟩ :=
          searches.enter begins whole allowed wants
        have step : loop reader block body state cursor =
            loop reader block body state₁ (cursor + name.bytes.length) := by
          rw [loop_beginNode steady named, enters]
          rfl
        have within := innerInduction fits₁ inside fun placed member =>
          allow placed (.tail _ (List.mem_append_left _ member))
        rw [List.find?_append]
        cases first : (inner.nodes (cursor + name.bytes.length)
            (chain ++ [name.text])).find? (wanted ·) with
        | some placed =>
            rw [first] at within
            rw [Option.some_or]
            exact step.trans within
        | none =>
            rw [first] at within
            obtain ⟨state₂, fits₂, passes⟩ := within
            obtain ⟨state₃, fits₃, leaves⟩ := searches.leave fits₂
            have back : loop reader block body state cursor =
                loop reader block body state₃ (cursor +
                  (Forest.node name inner .nil).bytes.length) := by
              rw [step, passes, loop_endNode steady closing, leaves]
              simp [continueLoop, Forest.bytes, Nat.add_assoc]
            have behind := moreInduction fits₃ whole.forest_rest
              fun placed member =>
                allow placed (.tail _ (List.mem_append_right _ member))
            have length : cursor + (Forest.node name inner more).bytes.length =
                cursor + (Forest.node name inner .nil).bytes.length +
                  more.bytes.length := by
              simp [Forest.bytes]
              omega
            rw [Option.none_or, length]
            exact behind.of_step back

end

end Pocketboot.DeviceTree
