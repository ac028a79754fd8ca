import Pocketboot.Kexec.Domains
import Pocketboot.Kexec.SpinTableTotality

/-!
# The CPUs of a grafted tree

`cpu_nodes` finds the enabled CPUs under `/cpus`, and the loop over them changes
each where it stands: it sets the boot method and the release address, removes
the idle states and filters the power domains, and nothing else.
-/

namespace Pocketboot.Kexec

open DeviceTree

/-! ## The map of CPUs -/

/-- An enabled CPU. -/
def isCpu (node : ContractNode) : Bool :=
  node.get propDeviceType = some cpuType && node.enabled

def mpidrOf (cpu : ContractNode) : Nat :=
  decodeCells ((cpu.get propReg).getD [])

/-- The entry of a child of `/cpus`. -/
def cpuEntry (item : ContractNode × Nat) : Option (Nat × Nat) :=
  if isCpu item.1 then some (mpidrOf item.1, item.2) else none

theorem isCpu_iff {node : ContractNode} : isCpu node = true ↔
    ¬(node.get propDeviceType ≠ some cpuType ∨ node.enabled = false) := by
  unfold isCpu
  rw [Bool.and_eq_true, decide_eq_true_eq, not_or, not_not,
    Bool.not_eq_false]

theorem CpuMap.insert_perm (key value : Nat) (cpus : CpuMap) :
    (cpus.insert key value).Perm ((key, value) :: cpus) := by
  induction cpus with
  | nil => exact .refl _
  | cons first cpus induction =>
      rw [CpuMap.insert]
      split
      · exact .refl _
      · exact (induction.cons first).trans (.swap _ _ _)

theorem addCpu_entry {addressCells : Nat} {cpus cpus' : CpuMap}
    {item : ContractNode × Nat}
    (step : addCpu addressCells cpus item = .ok cpus') :
    cpus'.Perm ((cpuEntry item).toList ++ cpus) ∧
      ∀ entry, cpuEntry item = some entry → entry.1 ∉ cpus.keys := by
  unfold addCpu at step
  unfold cpuEntry
  dsimp only at step
  split at step
  · rename_i other
    cases step
    have none : isCpu item.1 = false := by
      rw [← Bool.not_eq_true, isCpu_iff]
      exact not_not.mpr other
    simp [none]
  · rename_i cpu
    have found := isCpu_iff.mpr cpu
    obtain ⟨reg, has, step⟩ := Run.bind_eq_ok.mp step
    obtain ⟨_, _, step⟩ := Run.bind_eq_ok.mp step
    obtain ⟨_, _, step⟩ := Run.bind_eq_ok.mp step
    obtain ⟨_, fresh, step⟩ := Run.bind_eq_ok.mp step
    rw [Run.ensure_eq_ok, not_or] at fresh
    rw [Run.ofOption_eq_ok] at has
    have same : mpidrOf item.1 = decodeCells reg := by
      rw [mpidrOf, has, Option.getD_some]
    cases step
    rw [if_pos found, same]
    refine ⟨CpuMap.insert_perm _ _ _, ?_⟩
    rintro entry ⟨rfl⟩
    exact fresh.2

theorem foldlM_addCpu_entries {addressCells : Nat} {cpus cpus' : CpuMap}
    {items : List (ContractNode × Nat)} (distinct : cpus.keys.Nodup)
    (read : items.foldlM (addCpu addressCells) cpus = .ok cpus') :
    cpus'.Perm (items.filterMap cpuEntry ++ cpus) ∧ cpus'.keys.Nodup := by
  induction items generalizing cpus with
  | nil =>
      cases read
      exact ⟨.refl _, distinct⟩
  | cons item items induction =>
      rw [List.foldlM_cons] at read
      obtain ⟨next, step, read⟩ := Run.bind_eq_ok.mp read
      obtain ⟨perm, fresh⟩ := addCpu_entry step
      have nextDistinct : next.keys.Nodup := by
        rw [CpuMap.keys, (perm.map Prod.fst).nodup_iff]
        cases found : cpuEntry item with
        | none => exact distinct
        | some entry => exact List.nodup_cons.mpr ⟨fresh entry found, distinct⟩
      obtain ⟨later, laterDistinct⟩ := induction nextDistinct read
      refine ⟨later.trans ?_, laterDistinct⟩
      cases found : cpuEntry item with
      | none =>
          rw [found] at perm
          rw [List.filterMap_cons_none found]
          exact perm.append_left _
      | some entry =>
          rw [found] at perm
          rw [List.filterMap_cons_some found]
          exact (perm.append_left _).trans List.perm_middle

/-- The map has the enabled CPUs of `/cpus`, each with its place. -/
structure CpusOf (root cpus : ContractNode) (map : CpuMap) : Prop where
  child : root.child nodeCpus = some cpus
  entries : map.Perm (cpus.children.zipIdx.filterMap cpuEntry)
  distinct : map.keys.Nodup

theorem cpuNodes_cpusOf {root : ContractNode} {map : CpuMap}
    (read : cpuNodes root = .ok map) : ∃ cpus, CpusOf root cpus map := by
  obtain ⟨cpus, found, read⟩ := Run.bind_eq_ok.mp read
  rw [Run.ofOption_eq_ok] at found
  obtain ⟨_, _, read⟩ := Run.bind_eq_ok.mp read
  obtain ⟨_, _, read⟩ := Run.bind_eq_ok.mp read
  obtain ⟨_, _, read⟩ := Run.bind_eq_ok.mp read
  obtain ⟨perm, distinct⟩ := foldlM_addCpu_entries (by simp [CpuMap.keys]) read
  rw [List.append_nil] at perm
  exact ⟨cpus, found, perm, distinct⟩

section

variable {root cpus : ContractNode} {map : CpuMap}

theorem CpusOf.mem_iff (of : CpusOf root cpus map) {mpidr index : Nat} :
    (mpidr, index) ∈ map ↔ ∃ cpu, cpus.children[index]? = some cpu ∧
      isCpu cpu = true ∧ mpidr = mpidrOf cpu := by
  rw [of.entries.mem_iff, List.mem_filterMap]
  constructor
  · rintro ⟨⟨cpu, place⟩, member, entry⟩
    unfold cpuEntry at entry
    split at entry
    · rename_i enabled
      cases entry
      exact ⟨cpu, List.mem_zipIdx_iff_getElem?.mp member, enabled, rfl⟩
    · cases entry
  · rintro ⟨cpu, found, enabled, rfl⟩
    exact ⟨(cpu, index), List.mem_zipIdx_iff_getElem?.mpr found,
      if_pos enabled⟩

theorem zipIdx_indices {α : Type} (items : List α) (start : Nat) :
    ((items.zipIdx start).map Prod.snd).Nodup := by
  rw [List.zipIdx_map_snd]
  exact List.nodup_range'

/-- No place is there twice. -/
theorem CpusOf.indices (of : CpusOf root cpus map) :
    (map.map Prod.snd).Nodup := by
  rw [(of.entries.map Prod.snd).nodup_iff, List.map_filterMap]
  have indices := zipIdx_indices cpus.children 0
  have part : ((cpus.children.zipIdx).filterMap fun item =>
      (cpuEntry item).map Prod.snd).Sublist
        (cpus.children.zipIdx.map Prod.snd) := by
    generalize cpus.children.zipIdx = items
    induction items with
    | nil => exact .slnil
    | cons item items induction =>
        unfold cpuEntry at induction ⊢
        rw [List.filterMap_cons, List.map_cons]
        split
        · exact .cons _ induction
        · rename_i index found
          split at found
          · cases found
            exact .cons_cons _ induction
          · cases found
  exact indices.sublist part

end

/-! ## One CPU -/

/-- The changes the loop makes of a CPU. -/
def graftedCpu (contract : SpinTableContract)
    (providers : List PowerDomainProvider) (mpidr : Nat)
    (cpu : ContractNode) : Result ContractNode := do
  let address ← releaseAddr contract.base mpidr
  removePsciCpuDomains
    (((cpu.set propEnableMethod spinTableMethod).set propCpuReleaseAddr
      (Bytes.toBe 8 address)).remove propCpuIdleStates) providers

/-- The properties that the loop may change. -/
def cpuKeys : List Bytes :=
  [propEnableMethod, propCpuReleaseAddr, propCpuIdleStates, propPowerDomains,
    propPowerDomainNames]

/-- The node is as before but for some properties. -/
structure SameBut (keys : List Bytes) (node node' : ContractNode) : Prop where
  name : node'.name = node.name
  children : node'.children = node.children
  get : ∀ key, key ∉ keys → node'.get key = node.get key

theorem SameBut.refl (keys : List Bytes) (node : ContractNode) :
    SameBut keys node node := ⟨rfl, rfl, fun _ _ => rfl⟩

theorem SameBut.trans {keys : List Bytes}
    {node node' node'' : ContractNode} (first : SameBut keys node node')
    (second : SameBut keys node' node'') : SameBut keys node node'' :=
  ⟨second.name.trans first.name, second.children.trans first.children,
    fun key other => (second.get key other).trans (first.get key other)⟩

theorem SameBut.set {keys : List Bytes} {name : Bytes}
    (member : name ∈ keys) (node : ContractNode) (value : Bytes) :
    SameBut keys node (node.set name value) :=
  ⟨rfl, rfl, fun _ other => ContractNode.get_set_of_ne
    fun same => other (same ▸ member)⟩

theorem SameBut.remove {keys : List Bytes} {name : Bytes}
    (member : name ∈ keys) (node : ContractNode) :
    SameBut keys node (node.remove name) :=
  ⟨rfl, rfl, fun _ other => ContractNode.get_remove_of_ne
    fun same => other (same ▸ member)⟩

theorem SameBut.mono {keys keys' : List Bytes} {node node' : ContractNode}
    (same : SameBut keys node node') (more : keys ⊆ keys') :
    SameBut keys' node node' :=
  ⟨same.name, same.children, fun key other =>
    same.get key fun member => other (more member)⟩

def domainKeys : List Bytes := [propPowerDomains, propPowerDomainNames]

theorem storeDomains_same (cpu : ContractNode) (retained : Bytes)
    (names : Option Bytes) :
    SameBut domainKeys cpu (storeDomains cpu retained names) := by
  unfold storeDomains
  split
  · exact (SameBut.remove (by decide) cpu).trans (.remove (by decide) _)
  · split
    · exact (SameBut.set (by decide) cpu _).trans (.set (by decide) _ _)
    · exact .set (by decide) cpu _

theorem removePsciCpuDomains_same {cpu cpu' : ContractNode}
    {providers : List PowerDomainProvider}
    (removed : removePsciCpuDomains cpu providers = .ok cpu') :
    SameBut domainKeys cpu cpu' := by
  unfold removePsciCpuDomains at removed
  split at removed
  · cases removed
    exact .refl _ _
  · obtain ⟨_, _, removed⟩ := Run.bind_eq_ok.mp removed
    obtain ⟨_, _, removed⟩ := Run.bind_eq_ok.mp removed
    obtain ⟨_, _, removed⟩ := Run.bind_eq_ok.mp removed
    cases removed
    exact storeDomains_same _ _ _

theorem storeDomains_canonical {cpu : ContractNode} {room : Nat}
    (canonical : cpu.Canonical room) (retained : Bytes)
    (names : Option Bytes) :
    (storeDomains cpu retained names).Canonical room := by
  unfold storeDomains
  split
  · exact canonical.remove.remove
  · split
    · exact (canonical.set (by decide)).set (by decide)
    · exact canonical.set (by decide)

theorem removePsciCpuDomains_canonical {cpu cpu' : ContractNode}
    {providers : List PowerDomainProvider} {room : Nat}
    (canonical : cpu.Canonical room)
    (removed : removePsciCpuDomains cpu providers = .ok cpu') :
    cpu'.Canonical room := by
  unfold removePsciCpuDomains at removed
  split at removed
  · cases removed
    exact canonical
  · obtain ⟨_, _, removed⟩ := Run.bind_eq_ok.mp removed
    obtain ⟨_, _, removed⟩ := Run.bind_eq_ok.mp removed
    obtain ⟨_, _, removed⟩ := Run.bind_eq_ok.mp removed
    cases removed
    exact storeDomains_canonical canonical _ _

/-- A CPU as the loop leaves it. -/
structure BootsFrom (contract : SpinTableContract)
    (providers : List PowerDomainProvider) (cpu : ContractNode) : Prop where
  enableMethod : cpu.get propEnableMethod = some spinTableMethod
  releaseAddress : ∃ address, releaseAddr contract.base (mpidrOf cpu) =
      .ok address ∧
    cpu.get propCpuReleaseAddr = some (Bytes.toBe 8 address)
  idleStates : cpu.get propCpuIdleStates = none
  domains : FilteredDomains providers cpu

section

variable {contract : SpinTableContract}
  {providers : List PowerDomainProvider} {mpidr : Nat}
  {cpu cpu' : ContractNode}

theorem graftedCpu_same
    (grafted : graftedCpu contract providers mpidr cpu = .ok cpu') :
    SameBut cpuKeys cpu cpu' := by
  obtain ⟨address, _, grafted⟩ := Run.bind_eq_ok.mp grafted
  have filtered := (removePsciCpuDomains_same grafted).mono
    (show domainKeys ⊆ cpuKeys by decide)
  exact (((SameBut.set (by decide) cpu _).trans
    (.set (by decide) _ _)).trans (.remove (by decide) _)).trans filtered

theorem graftedCpu_canonical {room : Nat} (canonical : cpu.Canonical room)
    (grafted : graftedCpu contract providers mpidr cpu = .ok cpu') :
    cpu'.Canonical room := by
  obtain ⟨address, _, grafted⟩ := Run.bind_eq_ok.mp grafted
  exact removePsciCpuDomains_canonical ((canonical.set (by decide)).set
    (by decide)).remove grafted

theorem SameBut.mpidrOf_eq {keys : List Bytes}
    (same : SameBut keys cpu cpu') (other : propReg ∉ keys) :
    mpidrOf cpu' = mpidrOf cpu := by
  rw [mpidrOf, mpidrOf, same.get propReg other]

theorem SameBut.isCpu_eq {keys : List Bytes}
    (same : SameBut keys cpu cpu') (type : propDeviceType ∉ keys)
    (status : propStatus ∉ keys) : isCpu cpu' = isCpu cpu := by
  rw [isCpu, isCpu, ContractNode.enabled, ContractNode.enabled,
    same.get propDeviceType type, same.get propStatus status]

theorem graftedCpu_bootsFrom (small : SmallCells providers)
    (short : ∀ domains, cpu.get propPowerDomains = some domains →
      domains.length < 2 ^ 32)
    (grafted : graftedCpu contract providers (mpidrOf cpu) cpu = .ok cpu') :
    BootsFrom contract providers cpu' := by
  have same := graftedCpu_same grafted
  obtain ⟨address, released, grafted⟩ := Run.bind_eq_ok.mp grafted
  have outside := removePsciCpuDomains_same grafted
  refine ⟨?_, ⟨address, ?_, ?_⟩, ?_, ?_⟩
  · rw [outside.get _ (by decide),
      ContractNode.get_remove_of_ne (by decide),
      ContractNode.get_set_of_ne (by decide), ContractNode.get_set_self]
  · rw [same.mpidrOf_eq (by decide), released]
  · rw [outside.get _ (by decide),
      ContractNode.get_remove_of_ne (by decide), ContractNode.get_set_self]
  · rw [outside.get _ (by decide), ContractNode.get_remove_self]
  · refine removePsciCpuDomains_filtered small ?_ grafted
    intro domains present
    rw [ContractNode.get_remove_of_ne (by decide),
      ContractNode.get_set_of_ne (by decide),
      ContractNode.get_set_of_ne (by decide)] at present
    exact short domains present

/-- The loop does not change a CPU that it has left so. -/
theorem BootsFrom.fixed (small : SmallCells providers)
    (boots : BootsFrom contract providers cpu) :
    graftedCpu contract providers (mpidrOf cpu) cpu = .ok cpu := by
  obtain ⟨address, released, stored⟩ := boots.releaseAddress
  rw [graftedCpu, released, Run.ok_bind,
    ContractNode.set_of_get boots.enableMethod,
    ContractNode.set_of_get stored, ContractNode.remove_of_get boots.idleStates]
  exact boots.domains.fixed small

/-! ## All CPUs -/

theorem indexOrPanic_eq_ok {α ε : Type} {items : List α} {index : Nat}
    {item : α} : (indexOrPanic items index : Run ε α) = .ok item ↔
      items[index]? = some item := by
  unfold indexOrPanic
  split
  · rename_i found
    rw [found]
    simp
  · rename_i absent
    rw [absent]
    simp

theorem graftCpu_eq_ok {children children' : List ContractNode}
    {mpidr index : Nat} :
    graftCpu contract providers children (mpidr, index) = .ok children' ↔
      ∃ cpu cpu', children[index]? = some cpu ∧
        graftedCpu contract providers mpidr cpu = .ok cpu' ∧
        children' = children.set index cpu' := by
  rw [graftCpu, Run.bind_eq_ok]
  simp only [indexOrPanic_eq_ok, graftedCpu, Run.bind_eq_ok]
  constructor
  · rintro ⟨cpu, found, address, released, cpu', removed, same⟩
    cases same
    exact ⟨cpu, cpu', found, ⟨address, released, removed⟩, rfl⟩
  · rintro ⟨cpu, cpu', found, ⟨address, released, removed⟩, rfl⟩
    exact ⟨cpu, found, address, released, cpu', removed, rfl⟩

/-- What becomes of a child of `/cpus`. -/
def GraftsChild (contract : SpinTableContract)
    (providers : List PowerDomainProvider) (child child' : ContractNode) :
    Prop :=
  if isCpu child then
    graftedCpu contract providers (mpidrOf child) child = .ok child'
  else child' = child

theorem foldlM_graftCpu_places {cpus : CpuMap}
    {children children' : List ContractNode}
    (indices : (cpus.map Prod.snd).Nodup)
    (grafted : cpus.foldlM (graftCpu contract providers) children =
      .ok children') :
    children'.length = children.length ∧
      (∀ index, index ∉ cpus.map Prod.snd →
        children'[index]? = children[index]?) ∧
      ∀ mpidr index, (mpidr, index) ∈ cpus → ∃ cpu cpu',
        children[index]? = some cpu ∧
          graftedCpu contract providers mpidr cpu = .ok cpu' ∧
          children'[index]? = some cpu' := by
  induction cpus generalizing children with
  | nil =>
      cases grafted
      exact ⟨rfl, fun _ _ => rfl, by simp⟩
  | cons item cpus induction =>
      obtain ⟨mpidr, index⟩ := item
      rw [List.foldlM_cons] at grafted
      obtain ⟨next, step, grafted⟩ := Run.bind_eq_ok.mp grafted
      obtain ⟨cpu, cpu', found, changed, rfl⟩ := graftCpu_eq_ok.mp step
      rw [List.map_cons, List.nodup_cons] at indices
      obtain ⟨length, others, each⟩ := induction indices.2 grafted
      rw [List.length_set] at length
      refine ⟨length, ?_, ?_⟩
      · intro other absent
        rw [List.map_cons, List.mem_cons, not_or] at absent
        rw [others other absent.2, List.getElem?_set_ne (Ne.symm absent.1)]
      · intro mpidr' index' member
        rcases List.mem_cons.mp member with same | member
        · cases same
          refine ⟨cpu, cpu', found, changed, ?_⟩
          rw [others index indices.1, List.getElem?_set_self
            (List.getElem?_eq_some_iff.mp found).1]
        · obtain ⟨cpu₂, cpu₂', found₂, changed₂, after⟩ :=
            each mpidr' index' member
          have differs : index ≠ index' := fun same =>
            indices.1 (List.mem_map.mpr ⟨_, member, same.symm⟩)
          rw [List.getElem?_set_ne differs] at found₂
          exact ⟨cpu₂, cpu₂', found₂, changed₂, after⟩

/-- The loop changes the enabled CPUs among the children, each by itself. -/
theorem foldlM_graftCpu_children {root cpus : ContractNode} {map : CpuMap}
    (of : CpusOf root cpus map) {children' : List ContractNode}
    (grafted : map.foldlM (graftCpu contract providers) cpus.children =
      .ok children') :
    List.Forall₂ (GraftsChild contract providers) cpus.children children' := by
  obtain ⟨length, others, each⟩ := foldlM_graftCpu_places of.indices grafted
  rw [List.forall₂_iff_get]
  refine ⟨length.symm, fun index inside inside' => ?_⟩
  have found : cpus.children[index]? = some (cpus.children.get ⟨index, inside⟩) :=
    List.getElem?_eq_getElem inside
  have after : children'[index]? = some (children'.get ⟨index, inside'⟩) :=
    List.getElem?_eq_getElem inside'
  unfold GraftsChild
  split
  · rename_i enabled
    obtain ⟨cpu, cpu', before, changed, later⟩ :=
      each _ index (of.mem_iff.mpr ⟨_, found, enabled, rfl⟩)
    rw [found] at before
    rw [after] at later
    cases before
    cases later
    exact changed
  · rename_i other
    have absent : index ∉ map.map Prod.snd := by
      intro member
      obtain ⟨⟨mpidr, place⟩, among, same⟩ := List.mem_map.mp member
      cases same
      obtain ⟨cpu, before, enabled, _⟩ := of.mem_iff.mp among
      rw [found] at before
      cases before
      exact other enabled
    have same := others index absent
    rw [found, after] at same
    exact Option.some.inj same

/-- The loop changes nothing where it would leave every CPU as it is. -/
theorem foldlM_graftCpu_fixed {cpus : CpuMap} {children : List ContractNode}
    (fixed : ∀ mpidr index, (mpidr, index) ∈ cpus → ∃ cpu,
      children[index]? = some cpu ∧
        graftedCpu contract providers mpidr cpu = .ok cpu) :
    cpus.foldlM (graftCpu contract providers) children = .ok children := by
  induction cpus with
  | nil => rfl
  | cons item cpus induction =>
      obtain ⟨mpidr, index⟩ := item
      obtain ⟨cpu, found, same⟩ := fixed mpidr index List.mem_cons_self
      have unchanged : children.set index cpu = children := by
        obtain ⟨inside, rfl⟩ := List.getElem?_eq_some_iff.mp found
        exact List.set_getElem_self inside
      rw [List.foldlM_cons, graftCpu_eq_ok.mpr ⟨cpu, cpu, found, same, rfl⟩,
        Run.ok_bind, unchanged]
      exact induction fun mpidr index member =>
        fixed mpidr index (List.mem_cons_of_mem _ member)

end

end Pocketboot.Kexec
