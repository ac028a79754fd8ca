import Pocketboot.Kexec.Grafted

/-!
# Trees without PSCI

`disable_psci` disables the PSCI nodes and removes the PSCI idle states; every
other node keeps its properties, and no provider is added.  What it leaves is
not changed by it again.
-/

namespace Pocketboot.Kexec

open DeviceTree

/-! ## One node -/

theorem disablePsciAll_eq (nodes : List ContractNode) :
    disablePsciAll nodes =
      (nodes.filter (!isPsciIdleState ·)).map disablePsci := by
  induction nodes with
  | nil => rw [disablePsciAll, List.filter_nil, List.map_nil]
  | cons node nodes induction =>
      rw [disablePsciAll, List.filter_cons]
      split
      · rename_i idle
        simp [idle, induction]
      · rename_i other
        simp [other, induction]

/-- The status of a PSCI node afterwards. -/
def disabledStatus : Bytes := byteString "disabled" ++ [0]

/-- A node with the status of a disabled one when it is a PSCI node. -/
def markPsci (node : ContractNode) : ContractNode :=
  if isPsci node then node.set propStatus disabledStatus else node

theorem disablePsci_eq (node : ContractNode) :
    disablePsci node =
      { markPsci node with children := disablePsciAll node.children } := by
  cases node with
  | mk => rfl

theorem markPsci_same (node : ContractNode) :
    SameBut [propStatus] node (markPsci node) := by
  unfold markPsci
  split
  · exact .set (by decide) node _
  · exact .refl _ node

@[simp] theorem disablePsci_name (node : ContractNode) :
    (disablePsci node).name = node.name := by
  rw [disablePsci_eq]
  exact (markPsci_same node).name

@[simp] theorem disablePsci_children (node : ContractNode) :
    (disablePsci node).children = disablePsciAll node.children := by
  rw [disablePsci_eq]

theorem disablePsci_get {node : ContractNode} {key : Bytes}
    (other : key ≠ propStatus) :
    (disablePsci node).get key = node.get key := by
  rw [disablePsci_eq]
  exact (markPsci_same node).get key (by simpa using other)

theorem isPsci_congr {node node' : ContractNode}
    (same : node'.get propCompatible = node.get propCompatible) :
    isPsci node' = isPsci node := by
  unfold isPsci
  congr 1
  funext value
  unfold ContractNode.compatible
  change (node'.get propCompatible).any _ = (node.get propCompatible).any _
  rw [same]

@[simp] theorem isPsci_disablePsci (node : ContractNode) :
    isPsci (disablePsci node) = isPsci node :=
  isPsci_congr (disablePsci_get (by decide))

@[simp] theorem isPsciIdleState_disablePsci (node : ContractNode) :
    isPsciIdleState (disablePsci node) = isPsciIdleState node := by
  unfold isPsciIdleState
  rw [disablePsci_get (by decide), disablePsci_get (by decide)]

theorem propertyStatusEnabled_disabled :
    propertyStatusEnabled disabledStatus = false := by decide

/-- A CPU that is still enabled is no PSCI node, and keeps its properties. -/
theorem isCpu_disablePsci {node : ContractNode}
    (enabled : isCpu (disablePsci node) = true) :
    isCpu node = true ∧ ∀ key, (disablePsci node).get key = node.get key := by
  have plain : isPsci node = false := by
    by_contra psci
    have marked : (disablePsci node).get propStatus = some disabledStatus := by
      rw [disablePsci_eq, markPsci, if_pos (by simpa using psci)]
      exact ContractNode.get_set_self
    rw [isCpu, ContractNode.enabled, marked, Option.all_some,
      propertyStatusEnabled_disabled, Bool.and_false] at enabled
    cases enabled
  have same : ∀ key, (disablePsci node).get key = node.get key := by
    intro key
    rw [disablePsci_eq, markPsci, if_neg (by simp [plain])]
    rfl
  rw [isCpu, ContractNode.enabled, same, same] at enabled
  exact ⟨enabled, same⟩

/-! ## Canonical trees -/

theorem disablePsciAll_names (nodes : List ContractNode) :
    ((disablePsciAll nodes).map ContractNode.name).Sublist
      (nodes.map ContractNode.name) := by
  rw [disablePsciAll_eq, List.map_map]
  have names : ContractNode.name ∘ disablePsci = ContractNode.name :=
    funext disablePsci_name
  rw [names]
  exact List.filter_sublist.map _

theorem disablePsci_canonical {room : Nat} {node : ContractNode}
    (canonical : node.Canonical room) :
    (disablePsci node).Canonical room := by
  induction canonical with
  | mk nameNoNul keysNoNul keys names below induction =>
      rename_i room name props children
      have whole : (ContractNode.mk name props children).Canonical (room + 1) :=
        .mk nameNoNul keysNoNul keys names below
      have marked : (markPsci ⟨name, props, children⟩).Canonical (room + 1) := by
        unfold markPsci
        split
        · exact whole.set (by decide)
        · exact whole
      rw [disablePsci_eq]
      refine marked.withChildren (names.sublist (disablePsciAll_names _)) ?_
      intro child member
      rw [disablePsciAll_eq] at member
      obtain ⟨old, among, rfl⟩ := List.mem_map.mp member
      exact induction old (List.mem_of_mem_filter among)

/-! ## Nodes that it does not change -/

/-- The node is as `disable_psci` leaves it. -/
theorem disablePsci_eq_self {node : ContractNode}
    (marked : isPsci node = true → node.get propStatus = some disabledStatus)
    (children : ∀ child ∈ node.children,
      isPsciIdleState child = false ∧ disablePsci child = child) :
    disablePsci node = node := by
  have same : markPsci node = node := by
    unfold markPsci
    split
    · rename_i psci
      exact ContractNode.set_of_get (marked psci)
    · rfl
  have list : disablePsciAll node.children = node.children := by
    rw [disablePsciAll_eq, List.filter_eq_self.mpr, List.map_congr_left
      (g := id), List.map_id]
    · exact fun child member => (children child member).2
    · intro child member
      rw [(children child member).1]
      rfl
  rw [disablePsci_eq, same, list]
  cases node with
  | mk => rfl

theorem disablePsci_marked {node : ContractNode}
    (psci : isPsci (disablePsci node) = true) :
    (disablePsci node).get propStatus = some disabledStatus := by
  rw [isPsci_disablePsci] at psci
  rw [disablePsci_eq, markPsci, if_pos psci]
  exact ContractNode.get_set_self

mutual

theorem disablePsci_idempotent : ∀ node : ContractNode,
    disablePsci (disablePsci node) = disablePsci node
  | ⟨name, props, children⟩ => by
      refine disablePsci_eq_self disablePsci_marked ?_
      rw [disablePsci_children]
      exact disablePsciAll_settled children

theorem disablePsciAll_settled : ∀ (nodes : List ContractNode),
    ∀ child ∈ disablePsciAll nodes,
      isPsciIdleState child = false ∧ disablePsci child = child
  | [] => by
      rw [disablePsciAll]
      simp
  | node :: nodes => by
      rw [disablePsciAll]
      split
      · exact disablePsciAll_settled nodes
      · rename_i other
        rw [List.forall_mem_cons]
        refine ⟨⟨?_, disablePsci_idempotent node⟩,
          disablePsciAll_settled nodes⟩
        rw [isPsciIdleState_disablePsci]
        simpa using other

end

/-! ## Providers -/

/-- The properties that say whether a node is a provider or a PSCI node. -/
def providerProps : List Bytes :=
  [propCompatible, propPowerDomainCells, propPhandle, propLinuxPhandle]

theorem providerKey_congr {node node' : ContractNode}
    (same : ∀ key ∈ providerProps, node'.get key = node.get key)
    (psci : Bool) : providerKey (node', psci) = providerKey (node, psci) := by
  unfold providerKey phandleOf
  dsimp only
  rw [same _ (by decide), same _ (by decide), same _ (by decide)]

theorem withPsciAll_flatMap (psci : Bool) (nodes : List ContractNode) :
    withPsciAll psci nodes = nodes.flatMap (withPsci psci) := by
  induction nodes with
  | nil => rw [withPsciAll, List.flatMap_nil]
  | cons node nodes induction =>
      rw [withPsciAll, List.flatMap_cons, induction]

theorem providerKeys_eq (psciParent : Bool) (node : ContractNode) :
    providerKeys psciParent node =
      (providerKey (node, psciParent || isPsci node)).toList ++
        node.children.flatMap
          (providerKeys (psciParent || isPsci node)) := by
  cases node with
  | mk name props children =>
      rw [providerKeys, withPsci]
      dsimp only
      rw [withPsciAll_flatMap, List.filterMap_cons, List.filterMap_flatMap]
      cases providerKey (⟨name, props, children⟩,
        psciParent || isPsci ⟨name, props, children⟩) with
      | none => rfl
      | some key => rfl

/-- The providers of a node whose own properties are the same. -/
theorem providerKeys_congr {node node' : ContractNode}
    (same : ∀ key ∈ providerProps, node'.get key = node.get key)
    (children : ∀ psci, node'.children.flatMap (providerKeys psci) =
      node.children.flatMap (providerKeys psci)) (psciParent : Bool) :
    providerKeys psciParent node' = providerKeys psciParent node := by
  rw [providerKeys_eq, providerKeys_eq, isPsci_congr (same _ (by decide)),
    providerKey_congr same, children]

theorem SameBut.providerKeys_eq {keys : List Bytes}
    {node node' : ContractNode} (same : SameBut keys node node')
    (others : ∀ key ∈ providerProps, key ∉ keys) (psciParent : Bool) :
    providerKeys psciParent node' = providerKeys psciParent node :=
  providerKeys_congr (fun key member => same.get key (others key member))
    (fun psci => by rw [same.children]) psciParent

mutual

theorem disablePsci_providerKeys : ∀ (psciParent : Bool)
    (node : ContractNode), (providerKeys psciParent (disablePsci node)).Sublist
      (providerKeys psciParent node)
  | psciParent, ⟨name, props, children⟩ => by
      have same : ∀ key ∈ providerProps,
          (disablePsci ⟨name, props, children⟩).get key =
            (ContractNode.mk name props children).get key := by
        intro key member
        exact disablePsci_get fun status =>
          absurd (status ▸ member) (by decide)
      rw [providerKeys_eq, providerKeys_eq, isPsci_disablePsci,
        providerKey_congr same, disablePsci_children]
      exact (disablePsciAll_providerKeys _ children).append_left _

theorem disablePsciAll_providerKeys : ∀ (psci : Bool)
    (nodes : List ContractNode),
    ((disablePsciAll nodes).flatMap (providerKeys psci)).Sublist
      (nodes.flatMap (providerKeys psci))
  | _, [] => by rw [disablePsciAll]
  | psci, node :: nodes => by
      rw [disablePsciAll, List.flatMap_cons]
      split
      · exact (disablePsciAll_providerKeys psci nodes).trans
          (List.sublist_append_right _ _)
      · rw [List.flatMap_cons]
        exact (disablePsci_providerKeys psci node).append
          (disablePsciAll_providerKeys psci nodes)

end

end Pocketboot.Kexec
