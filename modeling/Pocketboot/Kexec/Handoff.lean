import Pocketboot.Kexec.ParkingMap
import Pocketboot.Kexec.ParkingTree
import Pocketboot.Kexec.TreeSizes

/-!
# What a grafted blob hands over

The blob that `graft_spin_table` returns holds the tree of the target in which
the CPUs boot from the page, no PSCI node is enabled and the page is reserved,
in the tree and in the reserve map.
-/

namespace Pocketboot.Kexec

open DeviceTree

/-! ## Nodes of a tree -/

/-- The nodes of a tree. -/
inductive Inside (root : ContractNode) : ContractNode → Prop
  | root : Inside root root
  | child {node child : ContractNode} :
      Inside root node → child ∈ node.children → Inside root child

/-- Every node of a tree that `disable_psci` does not change is as such. -/
theorem Inside.settled {root node : ContractNode}
    (settled : disablePsci root = root) (inside : Inside root node) :
    disablePsci node = node := by
  induction inside with
  | root => exact settled
  | child _ member induction => exact (settled_children induction _ member).2

/-- Every value is as long as a 32-bit number can say. -/
def ShortValues : Content → Prop
  | .nil => True
  | .prop _ value rest => value.length < 2 ^ 32 ∧ ShortValues rest
  | .node _ body rest => ShortValues body ∧ ShortValues rest

theorem Forest.shortValues (strings : Bytes) (forest : Forest) :
    ShortValues (forest.content strings) := by
  induction forest with
  | nil => trivial
  | nop rest induction => exact induction
  | prop property rest induction => exact ⟨property.value_lt, induction⟩
  | node name inner rest innerInduction restInduction =>
      exact ⟨innerInduction, restInduction⟩

theorem ShortValues.props {props : List (Bytes × Bytes)} {rest : Content}
    (short : ShortValues (ContractNode.propsContent props rest)) :
    (∀ prop ∈ props, prop.2.length < 2 ^ 32) ∧ ShortValues rest := by
  induction props with
  | nil => exact ⟨by simp, short⟩
  | cons prop props induction =>
      obtain ⟨name, value⟩ := prop
      obtain ⟨each, rest⟩ := induction short.2
      exact ⟨List.forall_mem_cons.mpr ⟨short.1, each⟩, rest⟩

theorem ShortValues.siblings {nodes : List ContractNode}
    (short : ShortValues (ContractNode.siblings nodes)) :
    ∀ node ∈ nodes, ShortValues node.body := by
  induction nodes with
  | nil => simp
  | cons node nodes induction =>
      exact List.forall_mem_cons.mpr ⟨short.1, induction short.2⟩

theorem ShortValues.inside {root node : ContractNode}
    (short : ShortValues root.body) (inside : Inside root node) :
    ShortValues node.body := by
  induction inside with
  | root => exact short
  | @child node child _ member induction =>
      cases node with
      | mk name props children =>
          exact (ShortValues.props induction).2.siblings child member

theorem mem_of_lookup {name value : Bytes} {props : List (Bytes × Bytes)}
    (found : ContractNode.lookup name props = some value) :
    (name, value) ∈ props := by
  induction props with
  | nil => cases found
  | cons prop props induction =>
      obtain ⟨key, old⟩ := prop
      rw [ContractNode.lookup] at found
      split at found
      · rename_i same
        cases same
        cases found
        exact List.mem_cons_self
      · exact List.mem_cons_of_mem _ (induction found)

/-- The values in a tree that was read are short. -/
theorem contractTree_short {dtb : Bytes} {root node : ContractNode}
    (read : contractTree dtb = .ok root) (inside : Inside root node)
    {key value : Bytes} (found : node.get key = some value) :
    value.length < 2 ^ 32 := by
  obtain ⟨_, forest, _, _, holds⟩ := contractTree_eq_ok.mp read
  have short := Forest.shortValues (DeviceTree.stringsBlock dtb) forest
  rw [holds.content] at short
  have values := ShortValues.inside short.1 inside
  cases node with
  | mk name props children =>
      exact values.props.1 (key, value) (mem_of_lookup found)

/-! ## The children of `/cpus` -/

/-- What becomes of a child of `/cpus`. -/
structure HandedOver (contract : SpinTableContract)
    (providers : List PowerDomainProvider) (child child' : ContractNode) :
    Prop where
  changed : ∃ middle, SameBut cpuKeys child middle ∧
    (isCpu child = false → middle = child) ∧ child' = disablePsci middle
  boots : isCpu child' = true →
    BootsFrom contract providers child' ∧ mpidrOf child' < 4

section

variable {contract : SpinTableContract}
  {providers : List PowerDomainProvider} {child child' : ContractNode}

theorem isPsciIdleState_congr {keys : List Bytes}
    (same : SameBut keys child child')
    (method : byteString "entry-method" ∉ keys)
    (param : byteString "arm,psci-suspend-param" ∉ keys) :
    isPsciIdleState child' = isPsciIdleState child := by
  rw [isPsciIdleState, isPsciIdleState, same.get _ method, same.get _ param]

theorem GraftsChild.same (grafts : GraftsChild contract providers child child') :
    SameBut cpuKeys child child' ∧ (isCpu child = false → child' = child) := by
  unfold GraftsChild at grafts
  split at grafts
  · rename_i enabled
    refine ⟨graftedCpu_same grafts, fun other => ?_⟩
    rw [enabled] at other
    cases other
  · subst grafts
    exact ⟨.refl _ _, fun _ => rfl⟩

/-- The facts about a CPU are facts about its properties. -/
theorem BootsFrom.congr (boots : BootsFrom contract providers child)
    (same : ∀ key, child'.get key = child.get key) :
    BootsFrom contract providers child' where
  enableMethod := (same _).trans boots.enableMethod
  releaseAddress := by
    obtain ⟨address, released, stored⟩ := boots.releaseAddress
    refine ⟨address, ?_, (same _).trans stored⟩
    rw [mpidrOf, same]
    exact released
  idleStates := (same _).trans boots.idleStates
  domains := by
    intro domains present
    rw [same] at present
    obtain ⟨tuples, filtered⟩ := boots.domains domains present
    exact ⟨tuples, filtered.whole, filtered.nonempty, filtered.outside,
      filtered.short, fun names named =>
        filtered.named names ((same _).symm.trans named)⟩

theorem GraftsChild.handedOver (small : SmallCells providers)
    (grafts : GraftsChild contract providers child child')
    (short : ∀ domains, child.get propPowerDomains = some domains →
      domains.length < 2 ^ 32)
    (few : isCpu child = true → mpidrOf child < 4) :
    HandedOver contract providers child (disablePsci child') := by
  obtain ⟨same, others⟩ := grafts.same
  refine ⟨⟨child', same, others, rfl⟩, fun enabled => ?_⟩
  obtain ⟨enabled, gets⟩ := isCpu_disablePsci enabled
  rw [same.isCpu_eq (by decide) (by decide)] at enabled
  unfold GraftsChild at grafts
  rw [if_pos enabled] at grafts
  refine ⟨(graftedCpu_bootsFrom small short grafts).congr gets, ?_⟩
  rw [mpidrOf, gets]
  change mpidrOf child' < 4
  rw [same.mpidrOf_eq (by decide)]
  exact few enabled

/-- The children that stay, in their order. -/
theorem graftsChildren_handedOver (small : SmallCells providers)
    {children children' : List ContractNode}
    (grafts : List.Forall₂ (GraftsChild contract providers) children children')
    (short : ∀ child ∈ children, ∀ domains,
      child.get propPowerDomains = some domains → domains.length < 2 ^ 32)
    (few : ∀ child ∈ children, isCpu child = true → mpidrOf child < 4) :
    List.Forall₂ (HandedOver contract providers)
      (children.filter (!isPsciIdleState ·)) (disablePsciAll children') := by
  rw [disablePsciAll_eq, List.forall₂_map_right_iff]
  induction grafts with
  | nil => exact .nil
  | @cons child child' children children' first _ induction =>
      have later := induction
        (fun other member => short other (List.mem_cons_of_mem _ member))
        (fun other member => few other (List.mem_cons_of_mem _ member))
      have idle := isPsciIdleState_congr first.same.1 (by decide) (by decide)
      rw [List.filter_cons, List.filter_cons, idle]
      split
      · exact .cons (first.handedOver small (short child List.mem_cons_self)
          (few child List.mem_cons_self)) later
      · exact later

end

/-! ## The whole tree -/

/-- What the root is made of. -/
structure GraftedFrom (contract : SpinTableContract)
    (providers : List PowerDomainProvider) (target cpus : ContractNode)
    (children' : List ContractNode) (root : ContractNode) : Prop where
  listed : powerDomainProviders target = .ok providers
  child : target.child nodeCpus = some cpus
  grafts : List.Forall₂ (GraftsChild contract providers) cpus.children children'
  parked : graftParkingReservation (disablePsci (target.changeChild nodeCpus
    fun cpus => { cpus with children := children' })) contract = .ok root

section

variable {contract : SpinTableContract}
  {providers : List PowerDomainProvider} {target cpus root : ContractNode}
  {children' : List ContractNode} {targetCpus : CpuMap}

theorem graftedTree_eq_ok (read : cpuNodes target = .ok targetCpus)
    (grafted : graftedTree target targetCpus contract = .ok root) :
    ∃ providers cpus children',
      GraftedFrom contract providers target cpus children' root := by
  obtain ⟨cpus, of⟩ := cpuNodes_cpusOf read
  obtain ⟨providers, listed, grafted⟩ := Run.bind_eq_ok.mp grafted
  rw [of.child] at grafted
  change (Except.ok cpus >>= _) = _ at grafted
  rw [Run.ok_bind] at grafted
  obtain ⟨children', looped, parked⟩ := Run.bind_eq_ok.mp grafted
  exact ⟨providers, cpus, children', listed, of.child,
    foldlM_graftCpu_children of looped, parked⟩

/-- A child by its name, where names are distinct. -/
theorem child_of_mem {node child : ContractNode}
    (distinct : (node.children.map ContractNode.name).Nodup)
    (member : child ∈ node.children) : node.child child.name = some child := by
  unfold ContractNode.child
  generalize node.children = nodes at distinct member
  induction nodes with
  | nil => cases member
  | cons first nodes induction =>
      rw [List.map_cons, List.nodup_cons] at distinct
      rcases List.mem_cons.mp member with rfl | member
      · rw [List.find?_cons_of_pos (by simp)]
      · have other : first.name ≠ child.name := fun same =>
          distinct.1 (same ▸ List.mem_map_of_mem member)
        rw [List.find?_cons_of_neg (by simpa using other)]
        exact induction distinct.2 member

/-- The children whose names are others are as `disable_psci` leaves them. -/
theorem child_disablePsci_changeChild {node : ContractNode}
    {name other : Bytes} {change : ContractNode → ContractNode}
    (keeps : ∀ child, (change child).name = child.name)
    (different : other ≠ name) :
    (disablePsci (node.changeChild name change)).child other =
      (disablePsci node).child other := by
  unfold ContractNode.child
  rw [disablePsci_children, disablePsci_children, ContractNode.changeChild]
  dsimp only
  induction node.children with
  | nil => rfl
  | cons first nodes induction =>
      rw [ContractNode.changeFirst]
      split
      · rename_i named
        have skipped : ∀ child : ContractNode, child.name = name →
            ¬ child.name = other := fun child same equal =>
          different (equal.symm.trans same)
        rw [disablePsciAll, disablePsciAll]
        have drop : ∀ child : ContractNode, child.name = name →
            (if isPsciIdleState child then disablePsciAll nodes
              else disablePsci child :: disablePsciAll nodes).find?
                (·.name = other) =
              (disablePsciAll nodes).find? (·.name = other) := by
          intro child same
          split
          · rfl
          · rw [List.find?_cons_of_neg]
            simpa using skipped child same
        rw [drop _ ((keeps first).trans named), drop _ named]
      · rw [disablePsciAll, disablePsciAll]
        split
        · exact induction
        · rw [List.find?_cons, List.find?_cons, induction]

/-- The tree carries the contract over from the target. -/
structure CarriesOver (contract : SpinTableContract)
    (providers : List PowerDomainProvider) (target root : ContractNode) :
    Prop where
  cpus : ∀ cpus, target.child nodeCpus = some cpus →
    isPsciIdleState cpus = false → ∃ cpus',
      root.child nodeCpus = some cpus' ∧ cpus'.props = (markPsci cpus).props ∧
      List.Forall₂ (HandedOver contract providers)
        (cpus.children.filter (!isPsciIdleState ·)) cpus'.children
  gone : ∀ cpus, target.child nodeCpus = some cpus →
    isPsciIdleState cpus = true → root.child nodeCpus = none
  page : ∃ reserved addressCells sizeCells,
    Reserves contract root reserved addressCells sizeCells
  psci : ∀ node, Inside root node → isPsci node = true →
    node.get propStatus = some disabledStatus
  idle : ∀ node, Inside root node →
    ∀ child ∈ node.children, isPsciIdleState child = false
  others : ∀ name, name ≠ nodeCpus → name ≠ nodeReservedMemory →
    root.child name = (disablePsci target).child name
  props : root.props = (disablePsci target).props

theorem GraftedFrom.settled (page : contract.stop < 2 ^ 64)
    (grafted : GraftedFrom contract providers target cpus children' root) :
    disablePsci root = root :=
  (graftParkingReservation_reserves page grafted.parked).1.settled
    (disablePsci_idempotent _)

theorem GraftedFrom.few (read : cpuNodes target = .ok targetCpus)
    (keys : targetCpus.keys = [0, 1, 2, 3])
    (grafted : GraftedFrom contract providers target cpus children' root) :
    ∀ child ∈ cpus.children, isCpu child = true → mpidrOf child < 4 := by
  intro child member enabled
  obtain ⟨cpus', of⟩ := cpuNodes_cpusOf read
  cases of.child.symm.trans grafted.child
  obtain ⟨index, inside, rfl⟩ := List.mem_iff_getElem.mp member
  exact Nat.lt_succ_of_le (CpuMap.few_of_keys keys _ (of.mem_iff.mpr
    ⟨_, List.getElem?_eq_getElem inside, enabled, rfl⟩))

theorem graftsChildren_names {children : List ContractNode}
    (grafts : List.Forall₂ (GraftsChild contract providers) children
      children') :
    children'.map ContractNode.name = children.map ContractNode.name := by
  induction grafts with
  | nil => rfl
  | cons first _ induction =>
      rw [List.map_cons, List.map_cons, induction, first.same.1.name]

theorem graftsChildren_canonical {children : List ContractNode} {room : Nat}
    (grafts : List.Forall₂ (GraftsChild contract providers) children children')
    (canonical : ∀ child ∈ children, child.Canonical room) :
    ∀ child ∈ children', child.Canonical room := by
  induction grafts with
  | nil => simp
  | cons first _ induction =>
      rw [List.forall_mem_cons] at canonical ⊢
      refine ⟨?_, induction canonical.2⟩
      unfold GraftsChild at first
      split at first
      · exact graftedCpu_canonical canonical.1 first
      · exact first ▸ canonical.1

/-- The tree with its CPUs and PSCI nodes changed keeps its shape. -/
theorem GraftedFrom.canonical (canonical : target.Canonical 64)
    (grafted : GraftedFrom contract providers target cpus children' root) :
    (disablePsci (target.changeChild nodeCpus
      fun cpus => { cpus with children := children' })).Canonical 64 := by
  refine disablePsci_canonical (canonical.changeChild (fun _ => rfl) ?_)
  intro child found
  cases grafted.child.symm.trans found
  have below := canonical.inner cpus (ContractNode.child_mem found)
  refine below.withChildren ?_ ?_
  · rw [graftsChildren_names grafted.grafts]
    exact below.names
  · exact graftsChildren_canonical grafted.grafts below.inner

/-- What becomes of `/cpus` itself. -/
theorem child_disablePsci {node child : ContractNode} {name : Bytes}
    (distinct : (node.children.map ContractNode.name).Nodup)
    (found : node.child name = some child) :
    (disablePsci node).child name =
      if isPsciIdleState child then none else some (disablePsci child) := by
  have named := ContractNode.child_name found
  subst named
  have names : ((disablePsci node).children.map ContractNode.name).Nodup := by
    rw [disablePsci_children]
    exact distinct.sublist (disablePsciAll_names _)
  have below : (disablePsci node).children =
      (node.children.filter (!isPsciIdleState ·)).map disablePsci := by
    rw [disablePsci_children, disablePsciAll_eq]
  split
  · rename_i idle
    cases kept : (disablePsci node).child child.name with
    | none => rfl
    | some other =>
        have member := ContractNode.child_mem kept
        have same := ContractNode.child_name kept
        rw [below] at member
        obtain ⟨old, among, rfl⟩ := List.mem_map.mp member
        obtain ⟨among, stays⟩ := List.mem_filter.mp among
        rw [disablePsci_name] at same
        have first := child_of_mem distinct among
        rw [same] at first
        cases found.symm.trans first
        rw [idle] at stays
        cases stays
  · rename_i stays
    have member : disablePsci child ∈ (disablePsci node).children := by
      rw [below]
      refine List.mem_map_of_mem (List.mem_filter.mpr
        ⟨ContractNode.child_mem found, ?_⟩)
      simpa using stays
    have kept := child_of_mem names member
    rwa [disablePsci_name] at kept

/-- What the tree carries over. -/
theorem GraftedFrom.carriesOver {dtb : Bytes} (page : contract.stop < 2 ^ 64)
    (held : contractTree dtb = .ok target)
    (read : cpuNodes target = .ok targetCpus)
    (keys : targetCpus.keys = [0, 1, 2, 3])
    (grafted : GraftedFrom contract providers target cpus children' root) :
    CarriesOver contract providers target root := by
  obtain ⟨_, _, _, _, holds⟩ := contractTree_eq_ok.mp held
  have settled := grafted.settled page
  obtain ⟨keeps, reserves⟩ :=
    graftParkingReservation_reserves page grafted.parked
  have changed := @ContractNode.child_changeChild_self target nodeCpus
    (fun cpus => { cpus with children := children' }) (fun _ => rfl)
  rw [grafted.child, Option.map_some] at changed
  have distinct : ((target.changeChild nodeCpus fun cpus =>
      { cpus with children := children' }).children.map
        ContractNode.name).Nodup := by
    have names := @ContractNode.changeFirst_names nodeCpus
      (fun cpus => { cpus with children := children' }) (fun _ => rfl)
      target.children
    exact names ▸ holds.canonical.names
  have after := child_disablePsci distinct changed
  rw [← graftParkingReservation_child grafted.parked nodeCpus_ne] at after
  refine ⟨fun cpus' found stays => ?_, fun cpus' found idle => ?_, reserves,
    fun node inside psci => ?_, fun node inside => ?_,
    fun name other different => ?_, ?_⟩
  · cases grafted.child.symm.trans found
    have same : isPsciIdleState { cpus with children := children' } =
        isPsciIdleState cpus := rfl
    rw [same, stays, if_neg (by decide)] at after
    refine ⟨disablePsci { cpus with children := children' }, after, ?_, ?_⟩
    · rw [disablePsci_eq]
      unfold markPsci
      rw [@isPsci_congr cpus { cpus with children := children' } rfl]
      split
      · rfl
      · rfl
    · rw [disablePsci_children]
      have under : Inside target cpus :=
        Inside.root.child (ContractNode.child_mem found)
      exact graftsChildren_handedOver (powerDomainProviders_smallCells
        grafted.listed) grafted.grafts
        (fun child member domains => contractTree_short held
          (under.child member)) (grafted.few read keys)
  · cases grafted.child.symm.trans found
    have same : isPsciIdleState { cpus with children := children' } =
        isPsciIdleState cpus := rfl
    rw [same, idle, if_pos rfl] at after
    exact after
  · exact settled_marked (inside.settled settled) psci
  · exact fun child member =>
      (settled_children (inside.settled settled) child member).1
  · rw [graftParkingReservation_child grafted.parked different]
    exact child_disablePsci_changeChild (fun _ => rfl) other
  · rw [keeps.props, disablePsci_eq, disablePsci_eq]
    unfold markPsci
    rw [@isPsci_congr target (target.changeChild nodeCpus
      fun cpus => { cpus with children := children' }) rfl]
    split
    · rfl
    · rfl

end

/-! ## The whole blob -/

/-- The blob holds what the live tree's contract asks of the target. -/
structure HandsOver (contract : SpinTableContract) (dtb blob : Bytes)
    (target root : ContractNode) (entries : List Reservation) : Prop where
  held : contractTree dtb = .ok target
  cpus : ∃ map, cpuNodes target = .ok map ∧ map.keys = [0, 1, 2, 3]
  laid : BlobOf dtb root entries blob
  tree : ∃ providers, powerDomainProviders target = .ok providers ∧
    CarriesOver contract providers target root
  mapped : FitsWord entries ∧ MapsPage contract (extents entries)
  kept : ∃ old, reservations dtb = some old ∧
    (entries = old ∨ entries = old ++ [(contract.base, spinTableBytes)])
  booted : (headerOf blob).bootCpuidPhys = 0

section

variable {dtb liveDtb blob map : Bytes} {contract : SpinTableContract}
  {live target root : ContractNode} {targetCpus : CpuMap}

/-- The steps of a run that finds a contract. -/
structure Grafts (contract : SpinTableContract) (dtb liveDtb : Bytes)
    (live target : ContractNode) (targetCpus : CpuMap) (root : ContractNode)
    (map : Bytes) : Prop where
  liveHeld : contractTree liveDtb = .ok live
  found : spinTableContract live = .ok (some contract)
  fromZero : bootsFromZero dtb liveDtb = .ok true
  livePage : ∃ live', graftParkingReservation live contract = .ok live'
  liveMap : ∃ already,
    validateParkingReserveMap liveDtb contract = .ok already
  held : contractTree dtb = .ok target
  cpus : cpuNodes target = .ok targetCpus
  keys : targetCpus.keys = [0, 1, 2, 3]
  tree : graftedTree target targetCpus contract = .ok root
  map : graftedReserveMap dtb contract = .ok map

theorem graftSpinTable_of_grafts
    (grafts : Grafts contract dtb liveDtb live target targetCpus root map) :
    graftSpinTable dtb liveDtb = buildContractTree dtb root map := by
  obtain ⟨live', parked⟩ := grafts.livePage
  obtain ⟨already, checked⟩ := grafts.liveMap
  obtain ⟨_, liveCpus, nodes, keys⟩ :=
    spinTableContract_eq_some grafts.found
  have liveNodes : cpuNodes live' = .ok liveCpus := by
    rw [cpuNodes_congr (graftParkingReservation_child parked nodeCpus_ne)]
    exact nodes
  rw [graftSpinTable, grafts.liveHeld, Run.ok_bind, grafts.found, Run.ok_bind]
  dsimp only
  rw [grafts.fromZero, Run.ok_bind, Run.ensure_of rfl, Run.ok_bind, parked,
    Run.ok_bind, checked, Run.ok_bind, grafts.held, Run.ok_bind, liveNodes,
    Run.ok_bind, grafts.cpus, Run.ok_bind,
    Run.ensure_of (keys.trans grafts.keys.symm), Run.ok_bind, grafts.tree,
    Run.ok_bind, grafts.map, Run.ok_bind]

/-- A run either finds no contract and returns the target, or goes through all
steps. -/
theorem graftSpinTable_eq_ok
    (grafted : graftSpinTable dtb liveDtb = .ok blob) :
    (∃ live, contractTree liveDtb = .ok live ∧
        spinTableContract live = .ok none ∧ blob = dtb) ∨
      ∃ contract live target targetCpus root map,
        Grafts contract dtb liveDtb live target targetCpus root map ∧
          buildContractTree dtb root map = .ok blob := by
  obtain ⟨live, held, grafted⟩ := Run.bind_eq_ok.mp grafted
  obtain ⟨found, contracted, grafted⟩ := Run.bind_eq_ok.mp grafted
  cases found with
  | none =>
      cases grafted
      exact .inl ⟨live, held, contracted, rfl⟩
  | some contract =>
      obtain ⟨_, liveCpus, nodes, keys⟩ :=
        spinTableContract_eq_some contracted
      obtain ⟨zero, fromZero, grafted⟩ := Run.bind_eq_ok.mp grafted
      obtain ⟨_, accepted, grafted⟩ := Run.bind_eq_ok.mp grafted
      rw [Run.ensure_eq_ok] at accepted
      rw [accepted] at fromZero
      obtain ⟨live', parked, grafted⟩ := Run.bind_eq_ok.mp grafted
      obtain ⟨already, checked, grafted⟩ := Run.bind_eq_ok.mp grafted
      obtain ⟨target, read, grafted⟩ := Run.bind_eq_ok.mp grafted
      rw [cpuNodes_congr (graftParkingReservation_child parked nodeCpus_ne),
        nodes, Run.ok_bind] at grafted
      obtain ⟨targetCpus, targetNodes, grafted⟩ := Run.bind_eq_ok.mp grafted
      obtain ⟨_, same, grafted⟩ := Run.bind_eq_ok.mp grafted
      rw [Run.ensure_eq_ok, keys] at same
      obtain ⟨root, tree, grafted⟩ := Run.bind_eq_ok.mp grafted
      obtain ⟨map, mapped, built⟩ := Run.bind_eq_ok.mp grafted
      exact .inr ⟨contract, live, target, targetCpus, root, map,
        ⟨held, contracted, fromZero, ⟨live', parked⟩, ⟨already, checked⟩, read,
          targetNodes, same.symm, tree, mapped⟩, built⟩

theorem bootsFromZero_eq_true (zero : bootsFromZero dtb liveDtb = .ok true) :
    (headerOf liveDtb).bootCpuidPhys = 0 ∧ Accepted liveDtb ∧
      (headerOf dtb).bootCpuidPhys = 0 ∧ Accepted dtb := by
  obtain ⟨header, parsed, zero⟩ := Run.bind_eq_ok.mp zero
  obtain ⟨rfl, liveAccepted⟩ := headerParse_eq_ok.mp parsed
  split at zero
  · rename_i liveZero
    obtain ⟨header, parsed, zero⟩ := Run.bind_eq_ok.mp zero
    obtain ⟨rfl, accepted⟩ := headerParse_eq_ok.mp parsed
    exact ⟨liveZero, liveAccepted,
      of_decide_eq_true (Except.ok.inj zero), accepted⟩
  · cases zero

/-- The page of a contract ends inside the words. -/
theorem spinTableContract_page
    (found : spinTableContract live = .ok (some contract)) :
    contract.stop < 2 ^ 64 :=
  (spinTableContract_eq_some found).1

/-- What the blob of a run holds. -/
theorem Grafts.handsOver
    (grafts : Grafts contract dtb liveDtb live target targetCpus root map)
    (built : buildContractTree dtb root map = .ok blob) :
    ∃ entries, map = reserveMapBytes entries ∧
      HandsOver contract dtb blob target root entries := by
  have page := spinTableContract_page grafts.found
  obtain ⟨_, _, _, _, holds⟩ := contractTree_eq_ok.mp grafts.held
  obtain ⟨providers, cpus, children', rooted⟩ :=
    graftedTree_eq_ok grafts.cpus grafts.tree
  have keeps := (graftParkingReservation_reserves page rooted.parked).1
  have canonical : root.Canonical 64 :=
    keeps.canonical 61 (rooted.canonical holds.canonical)
  have unnamed : root.name = [] := by
    rw [keeps.name, disablePsci_name]
    exact holds.unnamed
  obtain ⟨old, entries, accepted, reserved, rfl, proper, fits, maps, kept⟩ :=
    graftedReserveMap_eq_ok page grafts.map
  have laid := buildContractTree_laid proper unnamed canonical built
  exact ⟨entries, rfl, grafts.held, ⟨targetCpus, grafts.cpus, grafts.keys⟩,
    laid, ⟨providers, rooted.listed, rooted.carriesOver page grafts.held
      grafts.cpus grafts.keys⟩, ⟨fits, maps⟩, ⟨old, reserved, kept⟩,
    laid.bootCpuidPhys.trans (bootsFromZero_eq_true grafts.fromZero).2.2.1⟩

/-- A run under a contract hands the CPUs over. -/
theorem handsOver_of_contract (grafted : graftSpinTable dtb liveDtb = .ok blob)
    (held : contractTree liveDtb = .ok live)
    (found : spinTableContract live = .ok (some contract)) :
    ∃ target root entries, HandsOver contract dtb blob target root entries := by
  obtain ⟨live', held', none, _⟩ |
      ⟨contract', live', target, targetCpus, root, map, grafts, built⟩ :=
    graftSpinTable_eq_ok grafted
  · cases held.symm.trans held'
    rw [none] at found
    cases found
  · cases held.symm.trans grafts.liveHeld
    cases found.symm.trans grafts.found
    obtain ⟨entries, _, hands⟩ := grafts.handsOver built
    exact ⟨target, root, entries, hands⟩

end

/-- A CPU with a way to boot it. -/
def boardCpu (method : List (Bytes × Bytes)) (mpidr : Nat) : ContractNode :=
  ⟨byteString "cpu@" ++ [UInt8.ofNat (0x30 + mpidr)],
    [(propDeviceType, cpuType), (propReg, be32 mpidr)] ++ method, []⟩

def boardCpus (method : Nat → List (Bytes × Bytes)) : ContractNode :=
  ⟨nodeCpus, [(propAddressCells, be32 1), (propSizeCells, be32 0)],
    [0, 1, 2, 3].map fun mpidr => boardCpu (method mpidr) mpidr⟩

/-- A tree whose CPUs boot through PSCI. -/
def psciTree : ContractNode :=
  ⟨[], [(propAddressCells, be32 2), (propSizeCells, be32 2)],
    [boardCpus fun _ => [(propEnableMethod, byteString "psci" ++ [0])],
      ⟨byteString "psci",
        [(propCompatible, byteString "arm,psci-1.0" ++ [0])], []⟩]⟩

/-- The tree of a board whose CPUs wait in the page at `0x8f000000`. -/
def boardTree : ContractNode :=
  ⟨[], [(propAddressCells, be32 2), (propSizeCells, be32 2)],
    [boardCpus fun mpidr => [(propEnableMethod, spinTableMethod),
        (propCpuReleaseAddr, Bytes.toBe 8 (0x8f000400 + 0x80 * mpidr))],
      ⟨nodeReservedMemory, [(propAddressCells, be32 2),
          (propSizeCells, be32 2), (propRanges, [])],
        [⟨parkingName 0x8f000000,
          [(propCompatible, spinTableCompat ++ [0]), (propNoMap, []),
            (propReg, Bytes.toBe 8 0x8f000000 ++ Bytes.toBe 8 0x1000)],
          []⟩]⟩]⟩

def blobOfTree (root : ContractNode) : Bytes :=
  (buildContractTree (assemble ⟨0, 0, 0, 0, 17, 16, 0, 0, 0⟩
    (reserveMapBytes []) (be32 endToken) []) root
      (reserveMapBytes [])).toOption.getD []

/-- The PSCI board with the contract of the other one. -/
def handedBlob : Bytes :=
  (graftSpinTable (blobOfTree psciTree)
    (blobOfTree boardTree)).toOption.getD []

/-- What the CPUs of a blob are, and their power domains. -/
def cpuSummary (blob : Bytes) :
    Result (List Nat × Option (List (Option Bytes))) := do
  let root ← contractTree blob
  let map ← cpuNodes root
  return (map.keys, (root.child nodeCpus).map fun cpus =>
    cpus.children.map (·.get propPowerDomains))

/-- What the blobs of the two boards come to. -/
theorem board_facts :
    graftSpinTable (blobOfTree psciTree) (blobOfTree boardTree) =
      .ok handedBlob ∧
    (contractTree (blobOfTree boardTree) >>= spinTableContract) =
      .ok (some ⟨0x8f000000⟩) ∧
    cpuSummary handedBlob =
      .ok ([0, 1, 2, 3], some [none, none, none, none]) := by decide +kernel

theorem handedBlob_grafted : graftSpinTable (blobOfTree psciTree)
    (blobOfTree boardTree) = .ok handedBlob := board_facts.1

theorem boardTree_contract :
    (contractTree (blobOfTree boardTree) >>= spinTableContract) =
      .ok (some ⟨0x8f000000⟩) := board_facts.2.1

theorem handedBlob_summary : cpuSummary handedBlob =
    .ok ([0, 1, 2, 3], some [none, none, none, none]) := board_facts.2.2

end Pocketboot.Kexec
