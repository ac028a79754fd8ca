import Pocketboot.Kexec.Totality

/-!
# Power-domain providers

`power_domain_providers` goes over the nodes of a tree in document order, each
with whether it or a node around it is a PSCI node.
-/

namespace Pocketboot.Kexec

open DeviceTree

mutual

/-- The nodes of a tree in document order, each with whether it stands in a
PSCI node. -/
def withPsci : Bool → ContractNode → List (ContractNode × Bool)
  | psciParent, ⟨name, props, children⟩ =>
      let psci := psciParent || isPsci ⟨name, props, children⟩
      (⟨name, props, children⟩, psci) :: withPsciAll psci children

def withPsciAll : Bool → List ContractNode → List (ContractNode × Bool)
  | _, [] => []
  | psci, node :: nodes => withPsci psci node ++ withPsciAll psci nodes

end

/-- One node of the list of `withPsci`. -/
def addMarked (providers : List PowerDomainProvider)
    (item : ContractNode × Bool) : Result (List PowerDomainProvider) :=
  addProvider item.1 item.2 providers

mutual

theorem visit_eq : ∀ (node : ContractNode) (psciParent : Bool)
    (providers : List PowerDomainProvider),
    visit node psciParent providers =
      (withPsci psciParent node).foldlM addMarked providers
  | ⟨name, props, children⟩, psciParent, providers => by
      rw [visit, withPsci, List.foldlM_cons]
      exact bind_congr fun providers => visitAll_eq children _ providers

theorem visitAll_eq : ∀ (nodes : List ContractNode) (psci : Bool)
    (providers : List PowerDomainProvider),
    visitAll nodes psci providers =
      (withPsciAll psci nodes).foldlM addMarked providers
  | [], psci, providers => by
      rw [visitAll, withPsciAll, List.foldlM_nil]
      rfl
  | node :: nodes, psci, providers => by
      rw [visitAll, withPsciAll, List.foldlM_append, visit_eq node]
      exact bind_congr fun providers => visitAll_eq nodes psci providers

end

theorem powerDomainProviders_eq (root : ContractNode) :
    powerDomainProviders root =
      (withPsci false root).foldlM addMarked [] := visit_eq root false []

/-! ## Providers have small cells -/

/-- Every provider has a number of cells that fits its `u32`. -/
def SmallCells (providers : List PowerDomainProvider) : Prop :=
  ∀ provider ∈ providers, provider.cells < 2 ^ 32

theorem addMarked_returns (providers : List PowerDomainProvider)
    (item : ContractNode × Bool) : (addMarked providers item).Returns := by
  unfold addMarked addProvider
  split
  · refine (propertyU32_returns _ _).bind fun _ _ => ?_
    refine (Run.returns_ensure _ _).bind fun _ _ => ?_
    exact (propertyU32_returns _ _).bind fun _ _ => Run.returns_pure _
  · exact Run.returns_ok _

theorem addMarked_smallCells {providers providers' : List PowerDomainProvider}
    {item : ContractNode × Bool} (small : SmallCells providers)
    (step : addMarked providers item = .ok providers') :
    SmallCells providers' := by
  unfold addMarked addProvider at step
  split at step
  · obtain ⟨_, _, step⟩ := Run.bind_eq_ok.mp step
    obtain ⟨_, _, step⟩ := Run.bind_eq_ok.mp step
    obtain ⟨cells, read, step⟩ := Run.bind_eq_ok.mp step
    cases step
    intro provider member
    rcases List.mem_append.mp member with member | member
    · exact small provider member
    · obtain rfl := List.mem_singleton.mp member
      exact propertyU32_lt read
  · cases step
    exact small

theorem foldlM_smallCells {items : List (ContractNode × Bool)}
    {providers providers' : List PowerDomainProvider}
    (small : SmallCells providers)
    (read : items.foldlM addMarked providers = .ok providers') :
    SmallCells providers' := by
  induction items generalizing providers with
  | nil =>
      cases read
      exact small
  | cons item items induction =>
      rw [List.foldlM_cons] at read
      obtain ⟨next, step, read⟩ := Run.bind_eq_ok.mp read
      exact induction (addMarked_smallCells small step) read

theorem powerDomainProviders_returns (root : ContractNode) :
    (powerDomainProviders root).Returns := by
  rw [powerDomainProviders_eq]
  exact Run.Returns.foldlM (fun _ => True)
    (fun providers item _ => addMarked_returns providers item)
    (fun _ _ _ _ _ => trivial) trivial

theorem powerDomainProviders_smallCells {root : ContractNode}
    {providers : List PowerDomainProvider}
    (read : powerDomainProviders root = .ok providers) :
    SmallCells providers := by
  rw [powerDomainProviders_eq] at read
  refine foldlM_smallCells ?_ read
  intro provider member
  cases member

/-! ## The tuples and names of a CPU -/

theorem retainDomains_returns {domains : Bytes}
    {providers : List PowerDomainProvider} (small : SmallCells providers) :
    ∀ (fuel offset : Nat) (retained : Bytes) (keepNames : List Bool),
      offset ≤ domains.length → domains.length - offset < fuel →
      (retainDomains domains providers fuel offset retained
        keepNames).Returns
  | 0, _, _, _, _, enough => absurd enough (by omega)
  | fuel + 1, offset, retained, keepNames, inside, enough => by
      rw [retainDomains]
      split
      · rename_i before
        refine (readBe32_returns _ _).bind fun phandle _ => ?_
        refine (Run.returns_ofOption _ _).bind fun provider found => ?_
        rw [Run.ofOption_eq_ok] at found
        have cells := small provider (List.mem_of_find?_eq_some found)
        rw [addOrPanic_of (by unfold wordSize; omega), Run.ok_bind,
          mulOrPanic_of (by unfold wordSize; omega), Run.ok_bind,
          subOrPanic_of inside, Run.ok_bind]
        refine (Run.returns_ensure _ _).bind fun _ whole => ?_
        rw [Run.ensure_eq_ok] at whole
        dsimp only
        split
        · exact retainDomains_returns small fuel _ _ _ (by omega) (by omega)
        · rw [sliceOrPanic_of (by omega) (by omega), Run.ok_bind]
          exact retainDomains_returns small fuel _ _ _ (by omega) (by omega)
      · exact Run.returns_ok _

theorem retainNames_returns (names : Bytes) (keepNames : List Bool) :
    (retainNames names keepNames).Returns :=
  (Run.returns_ofOption _ _).bind fun _ _ =>
    (Run.returns_ensure _ _).bind fun _ _ => Run.returns_pure _

theorem retainedNames_returns (cpu : ContractNode) (keepNames : List Bool) :
    (retainedNames cpu keepNames).Returns := by
  unfold retainedNames
  split
  · exact (retainNames_returns _ _).map _
  · exact Run.returns_ok _

theorem removePsciCpuDomains_returns (cpu : ContractNode)
    {providers : List PowerDomainProvider} (small : SmallCells providers) :
    (removePsciCpuDomains cpu providers).Returns := by
  unfold removePsciCpuDomains
  split
  · exact Run.returns_ok _
  · refine (Run.returns_ensure _ _).bind fun _ _ => ?_
    refine (retainDomains_returns small _ _ _ _ (Nat.zero_le _)
      (by omega)).bind fun _ _ => ?_
    exact (retainedNames_returns _ _).bind fun _ _ => Run.returns_pure _

/-! ## Which nodes are providers -/

/-- What the code reads of a provider. -/
structure ProviderKey where
  cells : Bytes
  phandle : Bytes
  psci : Bool
  deriving DecidableEq

namespace ProviderKey

/-- The code accepts the cells and the phandle. -/
structure Valid (key : ProviderKey) : Prop where
  cells : key.cells.length = 4
  phandle : key.phandle.length = 4
  nonzero : Bytes.ofBe key.phandle ≠ 0
  notMax : Bytes.ofBe key.phandle ≠ 2 ^ 32 - 1

def provider (key : ProviderKey) : PowerDomainProvider :=
  ⟨Bytes.ofBe key.phandle, Bytes.ofBe key.cells, key.psci⟩

end ProviderKey

/-- The property that holds the phandle of a node. -/
def phandleOf (node : ContractNode) : Option Bytes :=
  (node.get propPhandle).or (node.get propLinuxPhandle)

/-- A node with power-domain cells and a phandle is a provider. -/
def providerKey (item : ContractNode × Bool) : Option ProviderKey :=
  match item.1.get propPowerDomainCells, phandleOf item.1 with
  | some cells, some phandle => some ⟨cells, phandle, item.2⟩
  | _, _ => none

theorem addMarked_of_none {providers : List PowerDomainProvider}
    {item : ContractNode × Bool} (absent : providerKey item = none) :
    addMarked providers item = .ok providers := by
  unfold providerKey phandleOf at absent
  unfold addMarked addProvider
  rcases hasCells : item.1.get propPowerDomainCells with _ | cells
  · rfl
  rcases hasPhandle : (item.1.get propPhandle).or
    (item.1.get propLinuxPhandle) with _ | phandle
  · rfl
  · rw [hasCells, hasPhandle] at absent
    cases absent

theorem addMarked_eq_ok {providers providers' : List PowerDomainProvider}
    {item : ContractNode × Bool} {key : ProviderKey}
    (found : providerKey item = some key) :
    addMarked providers item = .ok providers' ↔
      key.Valid ∧ key.provider.phandle ∉ providers.map (·.phandle) ∧
        providers' = providers ++ [key.provider] := by
  unfold providerKey phandleOf at found
  split at found
  · rename_i cells phandle hasCells hasPhandle
    cases found
    unfold addMarked addProvider
    simp only [hasCells, hasPhandle, Run.bind_eq_ok, propertyU32_eq_ok]
    have notMem : (¬ (Bytes.ofBe phandle = 0 ∨
        Bytes.ofBe phandle = 2 ^ 32 - 1 ∨
          providers.any (·.phandle = Bytes.ofBe phandle) = true)) ↔
        Bytes.ofBe phandle ≠ 0 ∧ Bytes.ofBe phandle ≠ 2 ^ 32 - 1 ∧
          Bytes.ofBe phandle ∉ providers.map (·.phandle) := by
      simp only [not_or, List.any_eq_true, decide_eq_true_eq, List.mem_map]
    constructor
    · rintro ⟨_, ⟨phandleLength, rfl⟩, _, fresh, _, ⟨cellsLength, rfl⟩, same⟩
      cases same
      rw [Run.ensure_eq_ok, notMem] at fresh
      exact ⟨⟨cellsLength, phandleLength, fresh.1, fresh.2.1⟩, fresh.2.2, rfl⟩
    · rintro ⟨valid, fresh, rfl⟩
      exact ⟨_, ⟨valid.phandle, rfl⟩, (), Run.ensure_of
        (notMem.mpr ⟨valid.nonzero, valid.notMax, fresh⟩) _, _,
        ⟨valid.cells, rfl⟩, rfl⟩
  · cases found

/-- The keys are accepted when each is valid and no phandle is there twice. -/
structure Accepts (start : List PowerDomainProvider)
    (keys : List ProviderKey) : Prop where
  valid : ∀ key ∈ keys, key.Valid
  distinct : (keys.map (·.provider.phandle)).Nodup
  fresh : ∀ key ∈ keys, key.provider.phandle ∉ start.map (·.phandle)

theorem foldlM_addMarked_eq_ok {items : List (ContractNode × Bool)}
    {start providers : List PowerDomainProvider} :
    items.foldlM addMarked start = .ok providers ↔
      Accepts start (items.filterMap providerKey) ∧
        providers = start ++
          (items.filterMap providerKey).map ProviderKey.provider := by
  induction items generalizing start with
  | nil =>
      rw [List.foldlM_nil, List.filterMap_nil, List.map_nil, List.append_nil]
      constructor
      · intro same
        cases same
        exact ⟨⟨by simp, by simp, by simp⟩, rfl⟩
      · rintro ⟨_, rfl⟩
        rfl
  | cons item items induction =>
      rw [List.foldlM_cons, Run.bind_eq_ok]
      cases found : providerKey item with
      | none =>
          rw [List.filterMap_cons_none found, addMarked_of_none found,
            ← induction]
          constructor
          · rintro ⟨_, same, later⟩
            cases same
            exact later
          · exact fun later => ⟨start, rfl, later⟩
      | some key =>
          rw [List.filterMap_cons_some found]
          simp only [addMarked_eq_ok found, induction]
          constructor
          · rintro ⟨_, ⟨valid, fresh, rfl⟩, accepts, rfl⟩
            refine ⟨⟨?_, ?_, ?_⟩, by simp⟩
            · simp only [List.mem_cons, forall_eq_or_imp]
              exact ⟨valid, accepts.valid⟩
            · rw [List.map_cons, List.nodup_cons]
              refine ⟨fun member => ?_, accepts.distinct⟩
              obtain ⟨other, among, same⟩ := List.mem_map.mp member
              exact accepts.fresh other among (by simp [same])
            · simp only [List.mem_cons, forall_eq_or_imp]
              refine ⟨fresh, fun other among member =>
                accepts.fresh other among ?_⟩
              rw [List.map_append]
              exact List.mem_append_left _ member
          · rintro ⟨accepts, rfl⟩
            have valid := accepts.valid
            have distinct := accepts.distinct
            have fresh := accepts.fresh
            simp only [List.mem_cons, forall_eq_or_imp] at valid fresh
            rw [List.map_cons, List.nodup_cons] at distinct
            refine ⟨_, ⟨valid.1, fresh.1, rfl⟩, ⟨valid.2, distinct.2, ?_⟩,
              by simp⟩
            intro other among member
            rw [List.map_append, List.mem_append, List.map_singleton,
              List.mem_singleton] at member
            rcases member with member | same
            · exact fresh.2 other among member
            · exact distinct.1 (List.mem_map.mpr ⟨other, among, same⟩)

/-- The keys of the providers of a tree, in document order. -/
def providerKeys (psciParent : Bool) (node : ContractNode) :
    List ProviderKey :=
  (withPsci psciParent node).filterMap providerKey

theorem powerDomainProviders_eq_ok {root : ContractNode}
    {providers : List PowerDomainProvider} :
    powerDomainProviders root = .ok providers ↔
      Accepts [] (providerKeys false root) ∧
        providers = (providerKeys false root).map ProviderKey.provider := by
  rw [powerDomainProviders_eq, foldlM_addMarked_eq_ok]
  rfl

/-- Fewer keys are accepted too. -/
theorem Accepts.sublist {keys keys' : List ProviderKey}
    (accepts : Accepts [] keys) (fewer : keys'.Sublist keys) :
    Accepts [] keys' where
  valid := fun key member => accepts.valid key (fewer.subset member)
  distinct := accepts.distinct.sublist (fewer.map _)
  fresh := by simp

end Pocketboot.Kexec
