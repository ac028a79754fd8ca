import Pocketboot.DtboMask.Checks

/-!
# Where the node of a path is

A path does not say where its node is when a name has a slash in it: the path
of a symbol's node is that of the child of `masked-devices`, and also that of a
child of the root whose own name has the slash.  These are the only two nodes
that have the path, and a tree that the parser accepts has at most one of them.
-/

namespace Pocketboot.DtboMask

open DeviceTree

/-- The name `masked-devices`. -/
def maskedDevices : Bytes := Text.utf8 "masked-devices".toList

/-- The name `__symbols__`. -/
def symbolsName : Bytes := Text.utf8 "__symbols__".toList

/-- The name `masked-devices/` with a symbol behind. -/
def slashedName (symbol : Text) : Bytes :=
  maskedDevices ++ slash :: symbol.utf8

/-- The node is the one child with the symbol's name of the root's one child
`masked-devices`. -/
def MaskedDevice (tree : Content) (symbol : Text) (body : Content) : Prop :=
  ∃ root masked, tree.nodesAt [[]] = [root] ∧
    root.nodesAt [maskedDevices] = [masked] ∧
      masked.nodesAt [symbol.utf8] = [body]

/-- The node is the root's one child whose own name is the text
`masked-devices/` with the symbol behind. -/
def SlashedDevice (tree : Content) (symbol : Text) (body : Content) : Prop :=
  ∃ root, tree.nodesAt [[]] = [root] ∧
    root.nodesAt [slashedName symbol] = [body]

/-- The property `__symbols__` has for a symbol is the path of the symbol's
node. -/
def Exported (tree : Content) (symbol : Text) : Prop :=
  ∃ root body, tree.nodesAt [[]] = [root] ∧
    root.nodesAt [symbolsName] = [body] ∧
      body.values symbol.utf8 = [(maskedDevice symbol).utf8 ++ [0]]

/-! ## Paths -/

theorem maskedDevice_bytes (symbol : Text) : (maskedDevice symbol).utf8 =
    slash :: (maskedDevices ++ slash :: symbol.utf8) := by
  have literal : maskedDevice symbol =
      '/' :: ("masked-devices".toList ++ '/' :: symbol) := rfl
  rw [literal, utf8_slash, Text.utf8_append, utf8_slash]
  rfl

theorem symbols_bytes : Text.utf8 "/__symbols__".toList =
    slash :: symbolsName := by
  have literal : "/__symbols__".toList = '/' :: "__symbols__".toList := rfl
  rw [literal, utf8_slash]
  rfl

private theorem ascii_noSlash {text : Text}
    (ascii : ∀ letter ∈ text, letter.toNat < 0x80)
    (free : ∀ letter ∈ text, UInt8.ofNat letter.toNat ≠ slash) :
    slash ∉ text.utf8 := by
  rw [Text.utf8_of_ascii ascii, List.mem_map]
  rintro ⟨letter, member, same⟩
  exact free letter member same

theorem maskedDevices_noSlash : slash ∉ maskedDevices :=
  ascii_noSlash (by simp) (by simp [slash])

theorem symbolsName_noSlash : slash ∉ symbolsName :=
  ascii_noSlash (by simp) (by simp [slash])

/-- Names with slashes in front: one name. -/
theorem flatMap_slash_single {names : List Bytes} {name : Bytes}
    (noSlash : slash ∉ name) :
    names.flatMap (slash :: ·) = slash :: name ↔ names = [name] := by
  constructor
  · intro same
    rcases names with _ | ⟨first, _ | ⟨second, rest⟩⟩
    · cases same
    · simpa using same
    · rw [List.flatMap_cons, List.flatMap_cons, List.cons_append] at same
      refine absurd ?_ noSlash
      rw [← (List.cons.inj same).2]
      simp
  · rintro rfl
    simp

/-- Names with slashes in front: two names, or one with a slash in it. -/
theorem flatMap_slash_pair {names : List Bytes} {first second : Bytes}
    (noSlash : slash ∉ first) (noSlash' : slash ∉ second) :
    names.flatMap (slash :: ·) = slash :: (first ++ slash :: second) ↔
      names = [first, second] ∨ names = [first ++ slash :: second] := by
  constructor
  · intro same
    rcases names with _ | ⟨one, _ | ⟨two, rest⟩⟩
    · cases same
    · exact .inr (by simpa using same)
    · rw [List.flatMap_cons, List.cons_append, List.flatMap_cons,
        List.cons_append] at same
      obtain ⟨rfl, _, split⟩ := (List.append_cons_inj_of_notMem noSlash
        noSlash').mp (List.cons.inj same).2.symm
      rcases rest with _ | ⟨three, rest⟩
      · exact .inl (by simp [split])
      · refine absurd ?_ noSlash'
        rw [split]
        simp
  · rintro (rfl | rfl) <;> simp

theorem flatPath_eq_slash_cons {chain : List Bytes} (rooted : Rooted chain)
    {name : Bytes} (named : name ≠ []) :
    flatPath chain = slash :: name ↔ ∃ names, chain = [] :: names ∧
      names.flatMap (slash :: ·) = slash :: name := by
  obtain ⟨names, rfl, full⟩ := rooted
  rw [flatPath_rooted full]
  by_cases top : names = []
  · subst top
    simp [named.symm]
  · rw [if_neg top]
    simp

/-- The two places of the path of a symbol's node. -/
theorem flatPath_eq_maskedDevice {chain : List Bytes} {symbol : Text}
    (rooted : Rooted chain) (name : IsSymbol symbol) :
    flatPath chain = (maskedDevice symbol).utf8 ↔
      chain = [[], maskedDevices, symbol.utf8] ∨
        chain = [[], slashedName symbol] := by
  rw [maskedDevice_bytes, flatPath_eq_slash_cons rooted (by simp)]
  simp only [flatMap_slash_pair maskedDevices_noSlash name.noSlash]
  constructor
  · rintro ⟨_, rfl, rfl | rfl⟩
    · exact .inl rfl
    · exact .inr rfl
  · rintro (rfl | rfl)
    · exact ⟨_, rfl, .inl rfl⟩
    · exact ⟨_, rfl, .inr rfl⟩

theorem flatPath_eq_symbols {chain : List Bytes} (rooted : Rooted chain) :
    flatPath chain = Text.utf8 "/__symbols__".toList ↔
      chain = [[], symbolsName] := by
  have nonempty : symbolsName ≠ [] := by
    intro empty
    have length := congrArg List.length empty
    rw [symbolsName, Text.utf8_length_of_ascii (by simp)] at length
    simp at length
  rw [symbols_bytes, flatPath_eq_slash_cons rooted nonempty]
  simp only [flatMap_slash_single symbolsName_noSlash]
  constructor
  · rintro ⟨_, rfl, rfl⟩
    rfl
  · rintro rfl
    exact ⟨_, rfl, rfl⟩

/-! ## The tree of the parser -/

section

variable {contents : FdtContents} {tree : Content}

/-- No path is there twice. -/
theorem Flattened.paths_nodup (flattened : Flattened contents tree) :
    ((tree.nodes []).map fun node => flatPath node.1).Nodup :=
  flattened.nodes.nodup_iff.mp
    (contents.nodes.keys_nodup.map fun _ _ => Text.utf8_inj)

theorem Flattened.chains_nodup (flattened : Flattened contents tree) :
    ((tree.nodes []).map Prod.fst).Nodup := by
  apply List.Nodup.of_map flatPath
  rw [List.map_map]
  exact flattened.paths_nodup

/-- A path leads to at most one node. -/
theorem Flattened.node_unique (flattened : Flattened contents tree)
    {first second : List Bytes × Content} (left : first ∈ tree.nodes [])
    (right : second ∈ tree.nodes [])
    (same : flatPath first.1 = flatPath second.1) : first = second :=
  List.inj_on_of_nodup_map flattened.paths_nodup left right same

theorem Flattened.properties_nodes (flattened : Flattened contents tree) :
    (tree.properties []).Perm ((tree.nodes []).flatMap fun node =>
      node.2.props.map (node.1, ·)) := by
  have perm := Content.properties_perm [] tree
  have strays : tree.props = [] := by
    rw [List.eq_nil_iff_forall_not_mem]
    intro property member
    have inside := perm.mem_iff.mpr
      (List.mem_append_left _ (List.mem_map_of_mem member))
    exact (flattened.owned _ inside).ne_nil rfl
  rwa [strays] at perm

/-- The properties that the parser returns are those of the nodes. -/
theorem Flattened.mem_properties (flattened : Flattened contents tree)
    {path value : Bytes} {name : Option Bytes} :
    (path, name, value) ∈ contents.properties.entries.map flatProperty ↔
      ∃ node ∈ tree.nodes [], flatPath node.1 = path ∧
        (name, value) ∈ node.2.props := by
  rw [flattened.properties.mem_iff, List.mem_map]
  constructor
  · rintro ⟨property, member, same⟩
    obtain ⟨node, inside, held⟩ :=
      List.mem_flatMap.mp (flattened.properties_nodes.mem_iff.mp member)
    obtain ⟨item, own, rfl⟩ := List.mem_map.mp held
    obtain ⟨paths, items⟩ := Prod.mk.inj same
    exact ⟨node, inside, paths, items ▸ own⟩
  · rintro ⟨node, inside, rfl, held⟩
    refine ⟨(node.1, name, value), ?_, rfl⟩
    rw [flattened.properties_nodes.mem_iff]
    exact List.mem_flatMap.mpr ⟨node, inside, List.mem_map_of_mem held⟩

/-- No node has two properties of one name. -/
theorem Flattened.props_nodup (flattened : Flattened contents tree)
    {node : List Bytes × Content} (inside : node ∈ tree.nodes []) :
    (node.2.props.map Prod.fst).Nodup := by
  have keys : (contents.properties.keys.map fun key =>
      ((ofLex key).1.utf8, some (ofLex key).2.utf8)).Nodup := by
    refine contents.properties.keys_nodup.map ?_
    intro key key' same
    obtain ⟨paths, names⟩ := Prod.mk.inj same
    exact Prod.ext (Text.utf8_inj paths)
      (Text.utf8_inj (Option.some.inj names))
  have flat := flattened.properties.map fun property =>
    (property.1, property.2.1)
  have nodes := flattened.properties_nodes.map fun property =>
    (flatPath property.1, property.2.1)
  rw [List.map_map, List.map_map] at flat
  have nodup := (flat.trans nodes).nodup_iff.mp (by
    rw [OrderedMap.keys, List.map_map] at keys
    exact keys)
  rw [List.map_flatMap, List.nodup_flatMap] at nodup
  have own := nodup.1 node inside
  rw [List.map_map] at own
  apply List.Nodup.of_map fun name => (flatPath node.1, name)
  rw [List.map_map]
  exact own

/-- The node of a symbol, and the two other nodes of interest, by their
chains. -/
theorem Flattened.maskedDevice_iff (flattened : Flattened contents tree)
    {symbol : Text} {body : Content} : MaskedDevice tree symbol body ↔
      ([[], maskedDevices, symbol.utf8], body) ∈ tree.nodes [] := by
  have nodup := flattened.chains_nodup
  rw [show ([[], maskedDevices, symbol.utf8] : List Bytes) =
      [] :: ([maskedDevices] ++ [symbol.utf8]) from rfl,
    Content.mem_nodes_concat nodup]
  constructor
  · rintro ⟨root, masked, rooted, middle, one⟩
    refine ⟨masked, ?_, one⟩
    rw [Content.nodesAt_eq_singleton nodup,
      show ([maskedDevices] : List Bytes) = [] ++ [maskedDevices] from rfl,
      Content.mem_nodes_concat nodup]
    exact ⟨root, rooted, middle⟩
  · rintro ⟨masked, middle, one⟩
    rw [Content.nodesAt_eq_singleton nodup,
      show ([maskedDevices] : List Bytes) = [] ++ [maskedDevices] from rfl,
      Content.mem_nodes_concat nodup] at middle
    obtain ⟨root, rooted, middle⟩ := middle
    exact ⟨root, masked, rooted, middle, one⟩

/-- A child of the root, by its chain. -/
theorem Flattened.child_iff (flattened : Flattened contents tree)
    {name : Bytes} {body : Content} :
    (∃ root, tree.nodesAt [[]] = [root] ∧ root.nodesAt [name] = [body]) ↔
      ([[], name], body) ∈ tree.nodes [] := by
  have child : ([] :: ([] ++ [name]), body) ∈ tree.nodes [] ↔ _ :=
    Content.mem_nodes_concat flattened.chains_nodup
  exact child.symm

end

end Pocketboot.DtboMask
