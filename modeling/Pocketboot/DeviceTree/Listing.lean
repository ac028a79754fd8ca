import Pocketboot.DeviceTree.Forest

/-!
# Nodes and properties with the names that lead to them

The nodes of a tree as a list, each with the chain of names from the top down
to it, and the properties with the chains of their nodes.  Where no chain is
there twice, a chain leads to one node, and so does each of its fronts.
-/

namespace Pocketboot.DeviceTree.Content

/-- The nodes below the node of a chain, each with the chain that ends at
it. -/
def nodes (chain : List Bytes) : Content → List (List Bytes × Content)
  | nil => []
  | prop _ _ rest => rest.nodes chain
  | node name body rest =>
      (chain ++ [name], body) ::
        (body.nodes (chain ++ [name]) ++ rest.nodes chain)

/-- The properties, each with the chain of the node it belongs to. -/
def properties (chain : List Bytes) :
    Content → List (List Bytes × Option Bytes × Bytes)
  | nil => []
  | prop name value rest => (chain, name, value) :: rest.properties chain
  | node name body rest =>
      body.properties (chain ++ [name]) ++ rest.properties chain

/-- A property belongs to the node around it, or to none. -/
theorem properties_perm (chain : List Bytes) (content : Content) :
    (content.properties chain).Perm (content.props.map (chain, ·) ++
      (content.nodes chain).flatMap fun node =>
        node.2.props.map (node.1, ·)) := by
  induction content generalizing chain with
  | nil => exact .refl _
  | prop name value rest induction => exact (induction chain).cons _
  | node name body rest bodyInduction restInduction =>
      have parts := (bodyInduction (chain ++ [name])).append
        (restInduction chain)
      rw [props, nodes, List.flatMap_cons, List.flatMap_append]
      refine parts.trans ((List.perm_append_comm_assoc _ _ _).trans ?_)
      rw [List.append_assoc]

/-- A node is below the node its chain starts with. -/
theorem nodes_below {content body : Content} {chain full : List Bytes}
    (member : (full, body) ∈ content.nodes chain) :
    ∃ name path, full = chain ++ name :: path := by
  induction content generalizing chain with
  | nil => cases member
  | prop _ _ rest induction => exact induction member
  | node first inner rest innerInduction restInduction =>
      rcases List.mem_cons.mp member with same | member
      · exact ⟨first, [], congrArg Prod.fst same⟩
      · rcases List.mem_append.mp member with inside | behind
        · obtain ⟨name, path, rfl⟩ := innerInduction inside
          exact ⟨first, name :: path, by simp⟩
        · exact restInduction behind

theorem nodesAt_append (content : Content) (front back : List Bytes) :
    content.nodesAt (front ++ back) =
      (content.nodesAt front).flatMap fun body => body.nodesAt back := by
  induction front generalizing content with
  | nil => simp [nodesAt]
  | cons name front induction =>
      simp only [List.cons_append, nodesAt, List.flatMap_assoc, induction]

/-- The nodes at a path are those whose chain it is. -/
theorem nodesAt_eq_filter (content : Content) (chain : List Bytes)
    (name : Bytes) (path : List Bytes) :
    content.nodesAt (name :: path) =
      ((content.nodes chain).filter
        (·.1 = chain ++ name :: path)).map Prod.snd := by
  induction content generalizing chain name path with
  | nil => rfl
  | prop _ _ rest induction => exact induction chain name path
  | node first inner rest innerInduction restInduction =>
      have behind := restInduction chain name path
      rw [nodes, List.filter_cons, List.filter_append, nodesAt, children,
        List.filter_cons]
      rw [nodesAt] at behind
      by_cases same : first = name
      · subst same
        cases path with
        | nil =>
            have none : (inner.nodes (chain ++ [first])).filter
                (·.1 = chain ++ [first]) = [] := by
              rw [List.filter_eq_nil_iff]
              rintro ⟨full, body⟩ member same
              obtain ⟨name, path, rfl⟩ := nodes_below member
              simp at same
            rw [if_pos (by simp), if_pos (by simp), List.flatMap_cons, behind,
              none]
            rfl
        | cons second path =>
            have inside := innerInduction (chain ++ [first]) second path
            rw [List.append_assoc, List.singleton_append] at inside
            rw [if_pos (by simp), if_neg (by simp), List.flatMap_cons, behind,
              inside, List.map_append]
      · have none : (inner.nodes (chain ++ [first])).filter
            (·.1 = chain ++ name :: path) = [] := by
          rw [List.filter_eq_nil_iff]
          rintro ⟨full, body⟩ member equal
          obtain ⟨other, more, rfl⟩ := nodes_below member
          simp only [List.append_assoc, List.singleton_append,
            List.append_cancel_left_eq, List.cons.injEq,
            decide_eq_true_eq] at equal
          exact same equal.1
        rw [if_neg (by simpa using same), if_neg (by simp [same]), behind,
          none, List.nil_append]

section

variable {tree body : Content} {chain : List Bytes}

theorem mem_nodes_iff {name : Bytes} {path : List Bytes} :
    (name :: path, body) ∈ tree.nodes [] ↔
      body ∈ tree.nodesAt (name :: path) := by
  rw [nodesAt_eq_filter tree [] name path, List.mem_map]
  constructor
  · intro member
    exact ⟨_, List.mem_filter.mpr ⟨member, by simp⟩, rfl⟩
  · rintro ⟨⟨full, inner⟩, member, rfl⟩
    obtain ⟨member, same⟩ := List.mem_filter.mp member
    obtain rfl : full = name :: path := by simpa using same
    exact member

/-- Where no chain is there twice, a node is the one at its chain. -/
theorem nodesAt_eq_singleton (nodup : ((tree.nodes []).map Prod.fst).Nodup)
    {name : Bytes} {path : List Bytes} :
    tree.nodesAt (name :: path) = [body] ↔
      (name :: path, body) ∈ tree.nodes [] := by
  rw [mem_nodes_iff]
  constructor
  · intro one
    rw [one]
    exact .head _
  · intro member
    have short : (tree.nodesAt (name :: path)).length ≤ 1 := by
      rw [nodesAt_eq_filter tree [] name path, List.length_map,
        ← List.countP_eq_length_filter]
      have once := List.nodup_iff_count_le_one.mp nodup (name :: path)
      rw [List.count, List.countP_map] at once
      refine le_trans (le_of_eq (List.countP_congr ?_)) once
      intro node _
      simp
    obtain ⟨only, one⟩ := List.length_eq_one_iff.mp
      (le_antisymm short (List.length_pos_of_mem member))
    rw [one] at member ⊢
    rw [List.mem_singleton.mp member]

/-- Where no chain is there twice, a node below the top is the one of its name
in the one node around it. -/
theorem mem_nodes_concat (nodup : ((tree.nodes []).map Prod.fst).Nodup)
    {name : Bytes} {front : List Bytes} {back : Bytes} :
    (name :: (front ++ [back]), body) ∈ tree.nodes [] ↔
      ∃ parent, tree.nodesAt (name :: front) = [parent] ∧
        parent.nodesAt [back] = [body] := by
  have around : ∀ parent, tree.nodesAt (name :: front) = [parent] →
      tree.nodesAt (name :: (front ++ [back])) = parent.nodesAt [back] := by
    intro parent one
    rw [← List.cons_append, nodesAt_append, one, List.flatMap_singleton]
  rw [← nodesAt_eq_singleton nodup]
  constructor
  · intro one
    have member : body ∈ tree.nodesAt (name :: (front ++ [back])) := by
      rw [one]
      exact .head _
    rw [← List.cons_append, nodesAt_append, List.mem_flatMap] at member
    obtain ⟨parent, inside, _⟩ := member
    have parentOne :=
      (nodesAt_eq_singleton nodup).mpr (mem_nodes_iff.mpr inside)
    exact ⟨parent, parentOne, (around parent parentOne).symm.trans one⟩
  · rintro ⟨parent, one, inside⟩
    rw [around parent one, inside]

theorem mem_values {name value : Bytes} :
    value ∈ body.values name ↔ (some name, value) ∈ body.props := by
  rw [values, List.mem_map]
  constructor
  · rintro ⟨⟨other, value⟩, member, rfl⟩
    obtain ⟨member, same⟩ := List.mem_filter.mp member
    obtain rfl : other = some name := by simpa using same
    exact member
  · intro member
    exact ⟨_, List.mem_filter.mpr ⟨member, by simp⟩, rfl⟩

/-- Where no name is there twice, a value is the one of its name. -/
theorem values_eq_singleton {name value : Bytes}
    (nodup : (body.props.map Prod.fst).Nodup) :
    body.values name = [value] ↔ (some name, value) ∈ body.props := by
  rw [← mem_values]
  constructor
  · intro one
    rw [one]
    exact .head _
  · intro member
    have short : (body.values name).length ≤ 1 := by
      have once := List.nodup_iff_count_le_one.mp nodup (some name)
      rw [List.count, List.countP_map] at once
      rw [values, List.length_map, ← List.countP_eq_length_filter]
      refine le_trans (le_of_eq (List.countP_congr ?_)) once
      intro property _
      simp
    obtain ⟨only, one⟩ := List.length_eq_one_iff.mp
      (le_antisymm short (List.length_pos_of_mem member))
    rw [one] at member ⊢
    rw [List.mem_singleton.mp member]

end

end Pocketboot.DeviceTree.Content
