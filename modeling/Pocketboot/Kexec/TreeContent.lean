import Pocketboot.Kexec.Contract

/-!
# What an owned tree holds

`contract_tree` returns a tree when the structure block is that of one unnamed
root, its names are not there twice among siblings and it is not too deep; the
tree then holds exactly what the block does.
-/

namespace Pocketboot

namespace DeviceTree

/-- No name in it has a zero byte. -/
def Content.NoNul : Content → Prop
  | .nil => True
  | .prop name _ rest =>
      (∀ text, name = some text → (0 : UInt8) ∉ text) ∧ rest.NoNul
  | .node name body rest => (0 : UInt8) ∉ name ∧ body.NoNul ∧ rest.NoNul

theorem Forest.content_noNul (strings : Bytes) (forest : Forest) :
    (forest.content strings).NoNul := by
  induction forest with
  | nil => trivial
  | nop rest induction => exact induction
  | prop property rest induction =>
      exact ⟨fun text found => stringAt_noNul found, induction⟩
  | node name body rest bodyInduction restInduction =>
      exact ⟨name.noNul, bodyInduction, restInduction⟩

end DeviceTree

namespace Kexec

open DeviceTree

namespace ContractNode

/-- Properties in front of what follows them. -/
def propsContent : List (Bytes × Bytes) → Content → Content
  | [], rest => rest
  | (name, value) :: props, rest =>
      .prop (some name) value (propsContent props rest)

mutual

/-- What is in a node: its properties, then its children. -/
def body : ContractNode → Content
  | ⟨_, props, children⟩ => propsContent props (siblings children)

def siblings : List ContractNode → Content
  | [] => .nil
  | node :: nodes => .node node.name node.body (siblings nodes)

end

/-- The trees `contract_tree` returns: at most so many levels, no zero byte in
a name, and no name twice among properties or among siblings. -/
inductive Canonical : Nat → ContractNode → Prop
  | mk {room : Nat} {name : Bytes} {props : List (Bytes × Bytes)}
      {children : List ContractNode} (nameNoNul : (0 : UInt8) ∉ name)
      (keysNoNul : ∀ prop ∈ props, (0 : UInt8) ∉ prop.1)
      (keys : (props.map Prod.fst).Nodup)
      (names : (children.map ContractNode.name).Nodup)
      (below : ∀ child ∈ children, Canonical room child) :
      Canonical (room + 1) ⟨name, props, children⟩

/-- The node with the rest of its body, when the parser accepts that. -/
def absorb : Nat → Content → ContractNode → Option ContractNode
  | _, .nil, node => some node
  | room, .prop name value rest, node => do
      let name ← name
      if (node.get name).isNone ∧ node.children.isEmpty then
        absorb room rest (node.set name value)
      else none
  | 0, .node _ _ _, _ => none
  | room + 1, .node name body rest, node => do
      let child ← absorb room body (.new name)
      if (node.child name).isNone then absorb (room + 1) rest (node.push child)
      else none

/-! ## Names in a node -/

theorem lookup_eq_none {name : Bytes} {props : List (Bytes × Bytes)} :
    lookup name props = none ↔ name ∉ props.map Prod.fst := by
  induction props with
  | nil => simp [lookup]
  | cons prop props induction =>
      obtain ⟨key, value⟩ := prop
      rw [lookup, List.map_cons, List.mem_cons, not_or]
      split
      · rename_i same
        simp [same]
      · rename_i other
        rw [induction]
        exact ⟨fun absent => ⟨fun same => other same.symm, absent⟩,
          fun absent => absent.2⟩

theorem assign_of_fresh {name value : Bytes} {props : List (Bytes × Bytes)}
    (fresh : name ∉ props.map Prod.fst) :
    assign name value props = props ++ [(name, value)] := by
  induction props with
  | nil => rfl
  | cons prop props induction =>
      obtain ⟨key, old⟩ := prop
      rw [List.map_cons, List.mem_cons, not_or] at fresh
      rw [assign, if_neg fun same => fresh.1 same.symm, induction fresh.2,
        List.cons_append]

theorem get_isNone {node : ContractNode} {name : Bytes} :
    (node.get name).isNone = true ↔ name ∉ node.props.map Prod.fst := by
  rw [Option.isNone_iff_eq_none]
  exact lookup_eq_none

theorem set_of_fresh {node : ContractNode} {name value : Bytes}
    (fresh : name ∉ node.props.map Prod.fst) :
    node.set name value =
      { node with props := node.props ++ [(name, value)] } := by
  rw [ContractNode.set, assign_of_fresh fresh]

theorem child_isNone {node : ContractNode} {name : Bytes} :
    (node.child name).isNone = true ↔
      name ∉ node.children.map ContractNode.name := by
  rw [Option.isNone_iff_eq_none, ContractNode.child, List.find?_eq_none,
    List.mem_map]
  constructor
  · rintro absent ⟨child, member, same⟩
    exact absent child member (decide_eq_true same)
  · intro absent child member same
    exact absent ⟨child, member, of_decide_eq_true same⟩

/-! ## The parser accepts what an owned tree holds -/

theorem absorb_name {room : Nat} {content : Content}
    {node node' : ContractNode} (read : absorb room content node = some node') :
    node'.name = node.name := by
  induction content generalizing room node with
  | nil =>
      cases read
      rfl
  | prop name value rest induction =>
      obtain ⟨name, _, read⟩ := Option.bind_eq_some_iff.mp read
      split at read
      · rw [induction read]
        rfl
      · cases read
  | node name body rest _ induction =>
      cases room with
      | zero => cases read
      | succ room =>
          obtain ⟨child, _, read⟩ := Option.bind_eq_some_iff.mp read
          split at read
          · rw [induction read]
            rfl
          · cases read

theorem absorb_props {room : Nat} {props : List (Bytes × Bytes)}
    {rest : Content} {node : ContractNode}
    (keys : ((node.props ++ props).map Prod.fst).Nodup)
    (childless : node.children = []) :
    absorb room (propsContent props rest) node =
      absorb room rest { node with props := node.props ++ props } := by
  induction props generalizing node with
  | nil =>
      cases node with
      | mk => rw [propsContent, List.append_nil]
  | cons prop props induction =>
      obtain ⟨name, value⟩ := prop
      have fresh : name ∉ node.props.map Prod.fst := by
        rw [List.map_append, List.nodup_append] at keys
        exact fun member => keys.2.2 name member name List.mem_cons_self rfl
      rw [propsContent, absorb, Option.bind_eq_bind, Option.bind_some,
        if_pos ⟨get_isNone.mpr fresh, by rw [childless]; rfl⟩,
        set_of_fresh fresh]
      have more := @induction { node with
        props := node.props ++ [(name, value)] } (by simpa using keys) childless
      rw [more]
      simp

theorem absorb_siblings {room : Nat} {nodes : List ContractNode}
    (each : ∀ child ∈ nodes,
      absorb room child.body (.new child.name) = some child)
    {node : ContractNode}
    (names : ((node.children ++ nodes).map ContractNode.name).Nodup) :
    absorb (room + 1) (siblings nodes) node =
      some { node with children := node.children ++ nodes } := by
  induction nodes generalizing node with
  | nil =>
      cases node with
      | mk => rw [siblings, absorb, List.append_nil]
  | cons child nodes induction =>
      have fresh : child.name ∉ node.children.map ContractNode.name := by
        rw [List.map_append, List.nodup_append] at names
        exact fun member =>
          names.2.2 child.name member child.name List.mem_cons_self rfl
      rw [siblings, absorb, each child List.mem_cons_self,
        Option.bind_eq_bind, Option.bind_some,
        if_pos (child_isNone.mpr fresh)]
      have more := @induction (fun other member =>
        each other (List.mem_cons_of_mem _ member)) (node.push child)
        (by simpa [push] using names)
      rw [more]
      simp [push]

theorem absorb_canonical {room : Nat} {tree : ContractNode}
    (canonical : tree.Canonical (room + 1)) :
    absorb room tree.body (.new tree.name) = some tree := by
  induction room generalizing tree with
  | zero =>
      cases canonical with
      | mk nameNoNul keysNoNul keys names below =>
          rename_i name props children
          have childless : children = [] := by
            cases children with
            | nil => rfl
            | cons child _ => cases below child List.mem_cons_self
          subst childless
          rw [body, absorb_props (by simpa [new] using keys) rfl, siblings,
            absorb]
          rfl
  | succ room induction =>
      cases canonical with
      | mk nameNoNul keysNoNul keys names below =>
          rw [body, absorb_props (by simpa [new] using keys) rfl,
            absorb_siblings (fun child member =>
              induction (below child member)) (by simpa [new] using names)]
          rfl

/-! ## It accepts nothing else -/

/-- What the body of a node adds to it. -/
structure Absorbed (room : Nat) (content : Content)
    (node node' : ContractNode) (props : List (Bytes × Bytes))
    (children : List ContractNode) : Prop where
  result : node' =
    ⟨node.name, node.props ++ props, node.children ++ children⟩
  holds : content = propsContent props (siblings children)
  ordered : node.children ≠ [] → props = []
  keys : (node.props.map Prod.fst).Nodup →
    ((node.props ++ props).map Prod.fst).Nodup
  names : (node.children.map ContractNode.name).Nodup →
    ((node.children ++ children).map ContractNode.name).Nodup
  keysNoNul : ∀ prop ∈ props, (0 : UInt8) ∉ prop.1
  below : ∀ child ∈ children, child.Canonical room

theorem Canonical.positive {room : Nat} {tree : ContractNode}
    (canonical : tree.Canonical room) : 0 < room := by
  cases canonical with
  | mk => omega

theorem absorb_absorbed {room : Nat} {content : Content}
    {node node' : ContractNode} (noNul : content.NoNul)
    (read : absorb room content node = some node') :
    ∃ props children, Absorbed room content node node' props children := by
  induction content generalizing room node node' with
  | nil =>
      cases read
      refine ⟨[], [], ?_, rfl, fun _ => rfl, by simp, by simp, by simp,
        by simp⟩
      cases node with
      | mk => rw [List.append_nil, List.append_nil]
  | prop name value rest induction =>
      obtain ⟨text, same, more⟩ := Option.bind_eq_some_iff.mp read
      split at more
      · rename_i accepted
        have fresh := get_isNone.mp accepted.1
        have childless := List.isEmpty_iff.mp accepted.2
        rw [set_of_fresh fresh] at more
        obtain ⟨props, children, absorbed⟩ := induction noNul.2 more
        have head : (0 : UInt8) ∉ text := noNul.1 text same
        refine ⟨(text, value) :: props, children, ?_, ?_, ?_, ?_, ?_, ?_, ?_⟩
        · rw [absorbed.result]
          simp
        · rw [absorbed.holds, same]
          rfl
        · exact fun present => absurd childless present
        · intro keys
          have more := absorbed.keys (by
            simpa [List.nodup_append] using
              ⟨keys, fun key value member same =>
                fresh (List.mem_map.mpr ⟨(key, value), member, same⟩)⟩)
          simpa using more
        · exact absorbed.names
        · simp only [List.mem_cons, forall_eq_or_imp]
          exact ⟨head, absorbed.keysNoNul⟩
        · exact absorbed.below
      · cases more
  | node name body rest bodyInduction restInduction =>
      cases room with
      | zero => cases read
      | succ room =>
          obtain ⟨child, inner, read⟩ := Option.bind_eq_some_iff.mp read
          split at read
          · rename_i accepted
            have fresh := child_isNone.mp accepted
            have named := absorb_name inner
            obtain ⟨innerProps, innerChildren, inside⟩ :=
              bodyInduction noNul.2.1 inner
            obtain ⟨props, children, absorbed⟩ :=
              restInduction noNul.2.2 read
            have none : props = [] := absorbed.ordered (by simp [push])
            subst none
            have shape : child.body = body := by
              rw [inside.holds, inside.result, new, ContractNode.body]
              simp
            refine ⟨[], child :: children, ?_, ?_, fun _ => rfl, by simp, ?_,
              by simp, ?_⟩
            · rw [absorbed.result]
              simp [push]
            · rw [absorbed.holds, propsContent, propsContent, siblings, shape,
                named]
              rfl
            · intro names
              have more := absorbed.names (by
                simpa [push, List.nodup_append, named, new] using
                  ⟨names, fun other member same =>
                    fresh (List.mem_map.mpr ⟨other, member, same⟩)⟩)
              simpa [push] using more
            · simp only [List.mem_cons, forall_eq_or_imp]
              refine ⟨?_, absorbed.below⟩
              rw [inside.result]
              exact .mk noNul.1 (by simpa [new] using inside.keysNoNul)
                (inside.keys (by simp [new])) (inside.names (by simp [new]))
                (by simpa [new] using inside.below)
          · cases read

/-- The parser turns a body into a node exactly when the node is canonical and
holds that body. -/
theorem absorb_eq_some {room : Nat} {content : Content} {name : Bytes}
    {tree : ContractNode} (noNul : content.NoNul) (named : (0 : UInt8) ∉ name) :
    absorb room content (.new name) = some tree ↔
      tree.name = name ∧ tree.body = content ∧ tree.Canonical (room + 1) := by
  constructor
  · intro read
    obtain ⟨props, children, absorbed⟩ := absorb_absorbed noNul read
    have same : tree = ⟨name, props, children⟩ := by
      rw [absorbed.result]
      simp [new]
    rw [same]
    refine ⟨rfl, absorbed.holds.symm, .mk named absorbed.keysNoNul ?_ ?_
      absorbed.below⟩
    · simpa [new] using absorbed.keys (by simp [new])
    · simpa [new] using absorbed.names (by simp [new])
  · rintro ⟨rfl, rfl, canonical⟩
    exact absorb_canonical canonical

end ContractNode

end Kexec

end Pocketboot
