import Pocketboot.Kexec.TreeContent

/-!
# Changes of an owned tree

What `set`, `remove`, `push` and `changeChild` leave in a node, and that each
of them keeps a tree canonical.
-/

namespace Pocketboot.Kexec.ContractNode

variable {node : ContractNode} {name other value : Bytes}
  {props : List (Bytes × Bytes)}

/-! ## Properties -/

theorem lookup_assign_self :
    lookup name (assign name value props) = some value := by
  induction props with
  | nil => simp [assign, lookup]
  | cons prop props induction =>
      obtain ⟨key, old⟩ := prop
      rw [assign]
      split
      · rename_i same
        rw [lookup, if_pos same]
      · rename_i differs
        rw [lookup, if_neg differs, induction]

theorem lookup_assign_of_ne (different : other ≠ name) :
    lookup other (assign name value props) = lookup other props := by
  induction props with
  | nil => simp [assign, lookup, different.symm]
  | cons prop props induction =>
      obtain ⟨key, old⟩ := prop
      rw [assign]
      split
      · rename_i same
        have skipped : ¬ key = other := fun equal =>
          different (equal.symm.trans same)
        rw [lookup, lookup, if_neg skipped, if_neg skipped]
      · rw [lookup, lookup, induction]

theorem lookup_filter_of_ne (different : other ≠ name) :
    lookup other (props.filter (·.1 ≠ name)) = lookup other props := by
  induction props with
  | nil => rfl
  | cons prop props induction =>
      obtain ⟨key, old⟩ := prop
      by_cases same : key = name
      · have skipped : ¬ key = other := fun equal =>
          different (equal.symm.trans same)
        rw [List.filter_cons_of_neg (by simpa using same), induction, lookup,
          if_neg skipped]
      · rw [List.filter_cons_of_pos (by simpa using same), lookup, lookup,
          induction]

theorem lookup_filter_self :
    lookup name (props.filter (·.1 ≠ name)) = none := by
  rw [lookup_eq_none, List.mem_map]
  rintro ⟨prop, member, same⟩
  have kept := (List.mem_filter.mp member).2
  exact of_decide_eq_true kept same

theorem assign_of_lookup (found : lookup name props = some value) :
    assign name value props = props := by
  induction props with
  | nil => cases found
  | cons prop props induction =>
      obtain ⟨key, old⟩ := prop
      rw [lookup] at found
      rw [assign]
      split
      · rename_i same
        rw [if_pos same] at found
        cases found
        rfl
      · rename_i differs
        rw [if_neg differs] at found
        rw [induction found]

theorem filter_of_lookup (absent : lookup name props = none) :
    props.filter (·.1 ≠ name) = props := by
  rw [lookup_eq_none] at absent
  rw [List.filter_eq_self]
  intro prop member
  exact decide_eq_true fun same =>
    absent (List.mem_map.mpr ⟨prop, member, same⟩)

theorem mem_keys_assign {key : Bytes} :
    key ∈ (assign name value props).map Prod.fst ↔
      key ∈ props.map Prod.fst ∨ key = name := by
  induction props with
  | nil => simp [assign]
  | cons prop props induction =>
      obtain ⟨first, old⟩ := prop
      rw [assign]
      split
      · rename_i same
        simp only [List.map_cons, List.mem_cons]
        constructor
        · exact .inl
        · rintro (member | rfl)
          · exact member
          · exact .inl same.symm
      · simp only [List.map_cons, List.mem_cons, induction, or_assoc]

theorem assign_nodup (nodup : (props.map Prod.fst).Nodup) :
    ((assign name value props).map Prod.fst).Nodup := by
  induction props with
  | nil => simp [assign]
  | cons prop props induction =>
      obtain ⟨first, old⟩ := prop
      rw [List.map_cons, List.nodup_cons] at nodup
      rw [assign]
      split
      · exact List.nodup_cons.mpr nodup
      · rename_i differs
        rw [List.map_cons, List.nodup_cons, mem_keys_assign]
        refine ⟨?_, induction nodup.2⟩
        rintro (member | same)
        · exact nodup.1 member
        · exact differs same

@[simp] theorem get_set_self : (node.set name value).get name = some value :=
  lookup_assign_self

theorem get_set_of_ne (different : other ≠ name) :
    (node.set name value).get other = node.get other :=
  lookup_assign_of_ne different

@[simp] theorem get_remove_self : (node.remove name).get name = none :=
  lookup_filter_self

theorem get_remove_of_ne (different : other ≠ name) :
    (node.remove name).get other = node.get other :=
  lookup_filter_of_ne different

@[simp] theorem name_remove : (node.remove name).name = node.name := rfl

@[simp] theorem children_remove :
    (node.remove name).children = node.children := rfl

/-- A property that is there already is not changed. -/
theorem set_of_get (found : node.get name = some value) :
    node.set name value = node := by
  cases node with
  | mk => rw [ContractNode.set, assign_of_lookup found]

theorem remove_of_get (absent : node.get name = none) :
    node.remove name = node := by
  cases node with
  | mk => rw [ContractNode.remove, filter_of_lookup absent]

/-! ## Children -/

theorem changeFirst_names {change : ContractNode → ContractNode}
    (keeps : ∀ child, (change child).name = child.name)
    (nodes : List ContractNode) :
    (changeFirst name change nodes).map ContractNode.name =
      nodes.map ContractNode.name := by
  induction nodes with
  | nil => rfl
  | cons first nodes induction =>
      rw [changeFirst]
      split
      · rw [List.map_cons, keeps, List.map_cons]
      · rw [List.map_cons, induction, List.map_cons]

/-- Only the child that is found is changed. -/
theorem mem_changeFirst {change : ContractNode → ContractNode}
    {nodes : List ContractNode} {child : ContractNode}
    (member : child ∈ changeFirst name change nodes) :
    child ∈ nodes ∨ ∃ found ∈ nodes, found.name = name ∧
      nodes.find? (·.name = name) = some found ∧ child = change found := by
  induction nodes with
  | nil => cases member
  | cons first nodes induction =>
      rw [changeFirst] at member
      split at member
      · rename_i same
        rcases List.mem_cons.mp member with rfl | member
        · exact .inr ⟨first, List.mem_cons_self, same, by simp [same], rfl⟩
        · exact .inl (List.mem_cons_of_mem _ member)
      · rename_i differs
        rcases List.mem_cons.mp member with rfl | member
        · exact .inl List.mem_cons_self
        · rcases induction member with among | ⟨found, among, same, first, rfl⟩
          · exact .inl (List.mem_cons_of_mem _ among)
          · exact .inr ⟨found, List.mem_cons_of_mem _ among, same,
              by simpa [List.find?_cons, differs] using first, rfl⟩

theorem child_changeChild_self {change : ContractNode → ContractNode}
    (keeps : ∀ child, (change child).name = child.name) :
    (node.changeChild name change).child name =
      (node.child name).map change := by
  unfold ContractNode.child changeChild
  dsimp only
  induction node.children with
  | nil => rfl
  | cons first nodes induction =>
      rw [changeFirst]
      split
      · rename_i same
        simp [keeps, same]
      · rename_i differs
        simp [differs, induction]

/-- Nothing changes where the child found is not changed. -/
theorem changeChild_eq_self {change : ContractNode → ContractNode}
    {child : ContractNode} (found : node.child name = some child)
    (same : change child = child) : node.changeChild name change = node := by
  have list : ∀ nodes : List ContractNode,
      nodes.find? (·.name = name) = some child →
        changeFirst name change nodes = nodes := by
    intro nodes
    induction nodes with
    | nil =>
        intro found
        cases found
    | cons first nodes induction =>
        intro found
        rw [changeFirst]
        split
        · rename_i named
          have head : first = child := by simpa [named] using found
          rw [head, same]
        · rename_i differs
          rw [induction (by simpa [differs] using found)]
  cases node with
  | mk => rw [changeChild, list _ found]

/-! ## Canonical trees -/

variable {room : Nat}

theorem Canonical.set (canonical : node.Canonical room)
    (noNul : (0 : UInt8) ∉ name) : (node.set name value).Canonical room := by
  cases canonical with
  | mk nameNoNul keysNoNul keys names below =>
      refine .mk nameNoNul ?_ (assign_nodup keys) names below
      intro prop member
      have key := mem_keys_assign.mp (List.mem_map_of_mem (f := Prod.fst) member)
      rcases key with member | same
      · obtain ⟨old, among, same⟩ := List.mem_map.mp member
        exact same ▸ keysNoNul old among
      · exact same ▸ noNul

theorem Canonical.remove (canonical : node.Canonical room) :
    (node.remove name).Canonical room := by
  cases canonical with
  | mk nameNoNul keysNoNul keys names below =>
      exact .mk nameNoNul
        (fun prop member => keysNoNul prop (List.mem_of_mem_filter member))
        (keys.sublist (List.filter_sublist.map Prod.fst)) names below

/-- Other children, that have names of their own. -/
theorem Canonical.withChildren {children : List ContractNode}
    (canonical : node.Canonical (room + 1))
    (names : (children.map ContractNode.name).Nodup)
    (below : ∀ child ∈ children, child.Canonical room) :
    ({ node with children } : ContractNode).Canonical (room + 1) := by
  cases canonical with
  | mk nameNoNul keysNoNul keys _ _ =>
      exact .mk nameNoNul keysNoNul keys names below

theorem Canonical.keys (canonical : node.Canonical room) :
    (node.props.map Prod.fst).Nodup := by
  cases canonical with
  | mk _ _ keys _ _ => exact keys

theorem Canonical.names (canonical : node.Canonical room) :
    (node.children.map ContractNode.name).Nodup := by
  cases canonical with
  | mk _ _ _ names _ => exact names

theorem Canonical.inner (canonical : node.Canonical (room + 1)) :
    ∀ child ∈ node.children, child.Canonical room := by
  cases canonical with
  | mk _ _ _ _ below => exact below

theorem Canonical.push {child : ContractNode}
    (canonical : node.Canonical (room + 1)) (added : child.Canonical room)
    (fresh : child.name ∉ node.children.map ContractNode.name) :
    (node.push child).Canonical (room + 1) := by
  refine canonical.withChildren ?_ ?_
  · rw [List.map_append, List.nodup_append]
    refine ⟨canonical.names, by simp, ?_⟩
    intro name member name' last same
    rw [List.map_singleton, List.mem_singleton] at last
    exact fresh (last ▸ same ▸ member)
  · intro other member
    rcases List.mem_append.mp member with member | member
    · exact canonical.inner other member
    · exact List.mem_singleton.mp member ▸ added

theorem Canonical.changeChild {change : ContractNode → ContractNode}
    (canonical : node.Canonical (room + 1))
    (keeps : ∀ child, (change child).name = child.name)
    (changed : ∀ child, node.child name = some child →
      (change child).Canonical room) :
    (node.changeChild name change).Canonical (room + 1) := by
  refine canonical.withChildren ?_ ?_
  · rw [changeFirst_names keeps]
    exact canonical.names
  · intro child member
    rcases mem_changeFirst member with member | ⟨found, _, _, first, rfl⟩
    · exact canonical.inner child member
    · exact changed found first

end Pocketboot.Kexec.ContractNode
