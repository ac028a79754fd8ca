import Pocketboot.Kexec.Handoff

/-!
# Grafting again

A grafted blob that still has the four CPUs, and every provider that their
power domains name, is not changed when it is grafted once more.
-/

namespace Pocketboot.Kexec

open DeviceTree

/-! ## Providers that are left -/

section

variable {α : Type} {key : α → Nat} {items : List α} {item : α}

/-- The item of a key, where keys are distinct. -/
theorem find?_of_distinct (distinct : (items.map key).Nodup)
    (member : item ∈ items) : items.find? (key · = key item) = some item := by
  induction items with
  | nil => cases member
  | cons first items induction =>
      rw [List.map_cons, List.nodup_cons] at distinct
      rcases List.mem_cons.mp member with rfl | member
      · rw [List.find?_cons_of_pos (by simp)]
      · have other : key first ≠ key item := fun same =>
          distinct.1 (same ▸ List.mem_map_of_mem member)
        rw [List.find?_cons_of_neg (by simpa using other)]
        exact induction distinct.2 member

end

section

variable {contract : SpinTableContract}
  {providers providers' : List PowerDomainProvider}
  {target cpus root : ContractNode} {children' : List ContractNode}

theorem graftsChildren_providers {children : List ContractNode}
    (grafts : List.Forall₂ (GraftsChild contract providers) children
      children') (psci : Bool) :
    children'.flatMap (providerKeys psci) =
      children.flatMap (providerKeys psci) := by
  induction grafts with
  | nil => rfl
  | cons first _ induction =>
      rw [List.flatMap_cons, List.flatMap_cons, induction,
        first.same.1.providerKeys_eq (by decide)]

/-- Every provider of a grafted tree is one of the target. -/
theorem GraftedFrom.fewerProviders (page : contract.stop < 2 ^ 64)
    (grafted : GraftedFrom contract providers target cpus children' root) :
    (providerKeys false root).Sublist (providerKeys false target) := by
  have keeps := (graftParkingReservation_reserves page grafted.parked).1
  rw [keeps.providers]
  have same := @providerKeys_changeChild target nodeCpus
    (fun cpus => { cpus with children := children' })
    (fun psci child found => by
      cases grafted.child.symm.trans found
      exact @providerKeys_congr cpus { cpus with children := children' }
        (fun _ _ => rfl) (graftsChildren_providers grafted.grafts) psci) false
  rw [← same]
  exact disablePsci_providerKeys false _

/-- Each tuple in the power domains of a CPU names a provider of the tree. -/
def NamesProviders (providers : List PowerDomainProvider)
    (root cpu : ContractNode) : Prop :=
  ∀ domains tuples, cpu.get propPowerDomains = some domains →
    Tuples providers domains tuples → ∀ tuple ∈ tuples,
      ∃ key ∈ providerKeys false root,
        key.provider.phandle = be32At tuple.bytes 0

/-- The CPUs of a grafted tree boot under the providers it has left. -/
theorem BootsFrom.under {cpu : ContractNode}
    (boots : BootsFrom contract providers cpu)
    (listed : powerDomainProviders target = .ok providers)
    (listed' : powerDomainProviders root = .ok providers')
    (fewer : (providerKeys false root).Sublist
      (providerKeys false target))
    (names : NamesProviders providers root cpu) :
    BootsFrom contract providers' cpu := by
  obtain ⟨accepts, rfl⟩ := powerDomainProviders_eq_ok.mp listed
  obtain ⟨accepts', rfl⟩ := powerDomainProviders_eq_ok.mp listed'
  refine ⟨boots.enableMethod, boots.releaseAddress, boots.idleStates,
    boots.domains.transfer fun domains tuples present whole tuple member => ?_⟩
  obtain ⟨key, among, phandle⟩ :=
    names domains tuples present whole tuple member
  have distinct := accepts.distinct
  have distinct' := accepts'.distinct
  rw [← Function.comp_def (fun provider => provider.phandle)
    ProviderKey.provider, ← List.map_map] at distinct distinct'
  have found := find?_of_distinct distinct
    (List.mem_map_of_mem (fewer.subset among))
  have found' := find?_of_distinct distinct' (List.mem_map_of_mem among)
  rw [phandle] at found found'
  rw [(whole.each tuple member).found] at found
  exact found'.trans found.symm

/-! ## The tree -/

/-- A CPU of the root was handed over. -/
theorem CarriesOver.boots (carries : CarriesOver contract providers target root)
    {cpus cpu : ContractNode}
    (before : ∃ cpus, target.child nodeCpus = some cpus)
    (found : root.child nodeCpus = some cpus) (member : cpu ∈ cpus.children)
    (enabled : isCpu cpu = true) : BootsFrom contract providers cpu := by
  obtain ⟨old, child⟩ := before
  cases idle : isPsciIdleState old with
  | true =>
      have gone := carries.gone old child idle
      rw [found] at gone
      cases gone
  | false =>
      obtain ⟨cpus', found', _, handed⟩ := carries.cpus old child idle
      cases found.symm.trans found'
      generalize old.children.filter (!isPsciIdleState ·) = children at handed
      generalize cpus.children = children' at handed member
      induction handed with
      | nil => cases member
      | cons first _ induction =>
          rcases List.mem_cons.mp member with rfl | member
          · exact (first.boots enabled).1
          · exact induction member

/-- The tree is not changed when all its CPUs boot as they should. -/
theorem graftedTree_fixed {map : CpuMap}
    {reserved : ContractNode} {addressCells sizeCells : Nat}
    (page : contract.stop < 2 ^ 64)
    (listed : powerDomainProviders root = .ok providers)
    (of : CpusOf root cpus map)
    (boots : ∀ cpu ∈ cpus.children, isCpu cpu = true →
      BootsFrom contract providers cpu)
    (settled : disablePsci root = root)
    (reserves : Reserves contract root reserved addressCells sizeCells) :
    graftedTree root map contract = .ok root := by
  have small := powerDomainProviders_smallCells listed
  have looped := @foldlM_graftCpu_fixed contract providers map cpus.children
    (fun mpidr index member => by
      obtain ⟨cpu, found, enabled, rfl⟩ := of.mem_iff.mp member
      exact ⟨cpu, found, (boots cpu (List.mem_of_getElem? found)
        enabled).fixed small⟩)
  have same := @ContractNode.changeChild_eq_self root nodeCpus
    (fun other => { other with children := cpus.children }) cpus of.child
    (by cases cpus; rfl)
  rw [graftedTree, listed, Run.ok_bind, of.child]
  change (Except.ok cpus >>= _) = _
  rw [Run.ok_bind, looped, Run.ok_bind, same]
  dsimp only
  rw [settled]
  exact reserves.fixed page

end

/-! ## The blob -/

/-- The CPUs of a tree are the four of the contract, and their domains name
its own providers. -/
structure StillWhole (target root : ContractNode) : Prop where
  cpus : ∃ map, cpuNodes root = .ok map ∧ map.keys = [0, 1, 2, 3]
  named : ∀ providers cpus, powerDomainProviders target = .ok providers →
    root.child nodeCpus = some cpus → ∀ cpu ∈ cpus.children,
      isCpu cpu = true → NamesProviders providers root cpu

theorem bootsFromZero_of {dtb liveDtb : Bytes} (accepted : Accepted dtb)
    (zero : (headerOf dtb).bootCpuidPhys = 0) (liveAccepted : Accepted liveDtb)
    (liveZero : (headerOf liveDtb).bootCpuidPhys = 0) :
    bootsFromZero dtb liveDtb = .ok true := by
  rw [bootsFromZero, headerParse_eq_ok.mpr ⟨rfl, liveAccepted⟩, Run.ok_bind,
    if_pos liveZero, headerParse_eq_ok.mpr ⟨rfl, accepted⟩, Run.ok_bind, zero]
  rfl

/-- A blob that has been grafted is not changed when it is grafted again, as
long as no CPU and no provider that a CPU names was pruned from it. -/
theorem graftSpinTable_again (dtb liveDtb blob : Bytes)
    (grafted : graftSpinTable dtb liveDtb = .ok blob)
    (whole : ∀ target root, contractTree dtb = .ok target →
      contractTree blob = .ok root → StillWhole target root) :
    graftSpinTable blob liveDtb = .ok blob := by
  obtain ⟨live, held, none, rfl⟩ |
      ⟨contract, live, target, targetCpus, root, map, grafts, built⟩ :=
    graftSpinTable_eq_ok grafted
  · exact grafted
  · have page := spinTableContract_page grafts.found
    obtain ⟨_, liveAccepted, zero, accepted⟩ :=
      bootsFromZero_eq_true grafts.fromZero
    obtain ⟨entries, rfl, hands⟩ := grafts.handsOver built
    obtain ⟨providers, cpus, children', rooted⟩ :=
      graftedTree_eq_ok grafts.cpus grafts.tree
    have carries :=
      rooted.carriesOver page grafts.held grafts.cpus grafts.keys
    obtain ⟨reserved, addressCells, sizeCells, reserves⟩ := carries.page
    have still := whole target root grafts.held hands.laid.tree
    obtain ⟨rootCpus, nodes, keys⟩ := still.cpus
    obtain ⟨cpus', of⟩ := cpuNodes_cpusOf nodes
    have fewer := rooted.fewerProviders page
    obtain ⟨accepts, _⟩ := powerDomainProviders_eq_ok.mp rooted.listed
    have listed : powerDomainProviders root =
        .ok ((providerKeys false root).map ProviderKey.provider) :=
      powerDomainProviders_eq_ok.mpr ⟨accepts.sublist fewer, rfl⟩
    have tree := graftedTree_fixed page listed of
      (fun cpu member enabled => (carries.boots ⟨cpus, rooted.child⟩ of.child
        member enabled).under rooted.listed listed fewer
          (still.named providers cpus' rooted.listed of.child cpu member
            enabled)) (rooted.settled page) reserves
    have again : Grafts contract blob liveDtb live root rootCpus root
        (reserveMapBytes entries) :=
      ⟨grafts.liveHeld, grafts.found, bootsFromZero_of hands.laid.accepted
        hands.booted liveAccepted (bootsFromZero_eq_true grafts.fromZero).1,
        grafts.livePage, grafts.liveMap, hands.laid.tree, nodes, keys, tree,
        hands.mapped.2.fixed page hands.laid.accepted hands.laid.reserved
          hands.mapped.1⟩
    rw [graftSpinTable_of_grafts again, hands.laid.rebuild accepted, built]

theorem graftSpinTable_again_board :
    graftSpinTable handedBlob (blobOfTree boardTree) = .ok handedBlob := by
  refine graftSpinTable_again _ _ _ handedBlob_grafted
    fun target root _ held => ?_
  have summary := handedBlob_summary
  rw [cpuSummary, held, Run.ok_bind] at summary
  obtain ⟨map, nodes, same⟩ := Run.bind_eq_ok.mp summary
  obtain ⟨keys, domains⟩ := Prod.mk.inj (Except.ok.inj same)
  refine ⟨⟨map, nodes, keys⟩, ?_⟩
  intro providers cpus _ child cpu member _ value tuples present
  rw [child, Option.map_some, Option.some.injEq] at domains
  have none : cpu.get propPowerDomains ∈ [none, none, none, none] :=
    domains ▸ List.mem_map_of_mem member
  rw [present] at none
  simp at none

end Pocketboot.Kexec
