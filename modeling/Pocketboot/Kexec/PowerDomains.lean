import Pocketboot.Kexec.Contract

/-!
# Power domains of the CPUs

CPUs that firmware did not boot through PSCI keep no PSCI power domains and no
PSCI idle states.
-/

namespace Pocketboot.Kexec

open DeviceTree

def propPowerDomains : Bytes := byteString "power-domains"
def propPowerDomainNames : Bytes := byteString "power-domain-names"
def propPowerDomainCells : Bytes := byteString "#power-domain-cells"
def propPhandle : Bytes := byteString "phandle"
def propLinuxPhandle : Bytes := byteString "linux,phandle"

structure PowerDomainProvider where
  phandle : Nat
  cells : Nat
  psci : Bool
  deriving DecidableEq, Repr

def psciCompatibles : List Bytes :=
  [byteString "arm,psci", byteString "arm,psci-0.2", byteString "arm,psci-1.0"]

def isPsci (node : ContractNode) : Bool :=
  psciCompatibles.any node.compatible

/-- What `visit` does with one node before it visits the children. -/
def addProvider (node : ContractNode) (psci : Bool)
    (providers : List PowerDomainProvider) :
    Result (List PowerDomainProvider) :=
  match node.get propPowerDomainCells,
      (node.get propPhandle).or (node.get propLinuxPhandle) with
  | some cells, some phandle => do
      let phandle ← propertyU32 phandle propPhandle
      Run.ensure (¬ (phandle = 0 ∨ phandle = 2 ^ 32 - 1 ∨
          providers.any (·.phandle = phandle)))
        (invalidData "invalid or duplicate power-domain provider phandle")
      return providers ++
        [⟨phandle, ← propertyU32 cells propPowerDomainCells, psci⟩]
  | _, _ => .ok providers

mutual

/-- The recursion of `power_domain_providers`. -/
def visit : ContractNode → Bool → List PowerDomainProvider →
    Result (List PowerDomainProvider)
  | ⟨name, props, children⟩, psciParent, providers => do
      let psci := psciParent || isPsci ⟨name, props, children⟩
      let providers ← addProvider ⟨name, props, children⟩ psci providers
      visitAll children psci providers

def visitAll : List ContractNode → Bool → List PowerDomainProvider →
    Result (List PowerDomainProvider)
  | [], _, providers => .ok providers
  | node :: nodes, psci, providers => do
      visitAll nodes psci (← visit node psci providers)

end

def powerDomainProviders (root : ContractNode) :
    Result (List PowerDomainProvider) := visit root false []

/-- The tuples of a `power-domains` value that stay, and for each tuple
whether it stays. -/
def retainDomains (domains : Bytes) (providers : List PowerDomainProvider) :
    Nat → Nat → Bytes → List Bool → Result (Bytes × List Bool)
  | 0, _, _, _ => .error .outOfFuel
  | fuel + 1, offset, retained, keepNames =>
      if offset < domains.length then do
        let phandle ← readBe32 domains offset
        let provider ← Run.ofOption
          (invalidData "CPU power-domains refers to an unknown provider")
          (providers.find? (·.phandle = phandle))
        let bytes ← mulOrPanic wordSize
          (← addOrPanic wordSize provider.cells 1) 4
        Run.ensure (bytes ≤ (← subOrPanic domains.length offset))
          (invalidData "CPU power-domains contains a partial provider tuple")
        -- no more than the length of the vector
        let stop := offset + bytes
        let keepNames := keepNames ++ [!provider.psci]
        if provider.psci then
          retainDomains domains providers fuel stop retained keepNames
        else
          let tuple ← sliceOrPanic domains offset stop
          retainDomains domains providers fuel stop (retained ++ tuple)
            keepNames
      else .ok (retained, keepNames)

/-- The names that stay, each with its terminator. -/
def retainNames (names : Bytes) (keepNames : List Bool) : Result Bytes := do
  let names ← Run.ofOption
    (invalidData "unterminated CPU power-domain-names") (stripNul names)
  let names := names.splitOn 0
  Run.ensure (names.length = keepNames.length) (invalidData
    "CPU power-domain-names does not match its provider tuples")
  return ((names.zip keepNames).filter (·.2)).flatMap fun (name, _) =>
    name ++ [0]

def retainedNames (cpu : ContractNode) (keepNames : List Bool) :
    Result (Option Bytes) :=
  match cpu.get propPowerDomainNames with
  | some names => some <$> retainNames names keepNames
  | none => .ok none

/-- The properties of a CPU once its domains are filtered. -/
def storeDomains (cpu : ContractNode) (retained : Bytes)
    (names : Option Bytes) : ContractNode :=
  if retained = [] then
    (cpu.remove propPowerDomains).remove propPowerDomainNames
  else
    match names with
    | some names => (cpu.set propPowerDomains retained).set
        propPowerDomainNames names
    | none => cpu.set propPowerDomains retained

def removePsciCpuDomains (cpu : ContractNode)
    (providers : List PowerDomainProvider) : Result ContractNode :=
  match cpu.get propPowerDomains with
  | none => .ok cpu
  | some domains => do
      Run.ensure (domains.length % 4 = 0)
        (invalidData "CPU power-domains contains a partial cell")
      let (retained, keepNames) ←
        retainDomains domains providers (domains.length + 1) 0 [] []
      let names ← retainedNames cpu keepNames
      return storeDomains cpu retained names

/-- A node `disable_psci` removes from among its siblings. -/
def isPsciIdleState (node : ContractNode) : Bool :=
  node.get (byteString "entry-method") = some (byteString "psci" ++ [0]) ||
    (node.get (byteString "arm,psci-suspend-param")).isSome

mutual

def disablePsci : ContractNode → ContractNode
  | ⟨name, props, children⟩ =>
      let node : ContractNode :=
        if isPsci ⟨name, props, children⟩ then
          (ContractNode.mk name props children).set propStatus
            (byteString "disabled" ++ [0])
        else ⟨name, props, children⟩
      { node with children := disablePsciAll children }

/-- The children that stay, each without its own PSCI nodes. -/
def disablePsciAll : List ContractNode → List ContractNode
  | [] => []
  | node :: nodes =>
      if isPsciIdleState node then disablePsciAll nodes
      else disablePsci node :: disablePsciAll nodes

end

end Pocketboot.Kexec
