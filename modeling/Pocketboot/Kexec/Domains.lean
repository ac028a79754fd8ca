import Pocketboot.Kexec.Providers
import Pocketboot.Kexec.TreeEdits
import Pocketboot.Base.Split

/-!
# The power domains of a CPU

The value of `power-domains` is a sequence of tuples, each of which starts with
the phandle of a provider.  `remove_psci_cpu_domains` keeps the tuples whose
provider is outside of every PSCI node and the names of these tuples; it
changes nothing where every tuple is such a one.
-/

namespace Pocketboot.Kexec

open DeviceTree

/-- A provider and the bytes of a tuple that starts with its phandle. -/
structure DomainTuple where
  provider : PowerDomainProvider
  bytes : Bytes

/-- The provider is the one that the table has for the tuple. -/
structure DomainTuple.Of (providers : List PowerDomainProvider)
    (tuple : DomainTuple) : Prop where
  found : providers.find? (·.phandle = be32At tuple.bytes 0) =
    some tuple.provider
  length : tuple.bytes.length = (tuple.provider.cells + 1) * 4

/-- The value is these tuples one after another. -/
structure Tuples (providers : List PowerDomainProvider) (domains : Bytes)
    (tuples : List DomainTuple) : Prop where
  each : ∀ tuple ∈ tuples, tuple.Of providers
  joined : domains = tuples.flatMap (·.bytes)

/-- The tuples whose provider is no PSCI one. -/
def keptTuples (tuples : List DomainTuple) : List DomainTuple :=
  tuples.filter (!·.provider.psci)

section

variable {providers : List PowerDomainProvider} {domains rest : Bytes}
  {tuples : List DomainTuple} {tuple : DomainTuple}

theorem Tuples.nil : Tuples providers [] [] := ⟨by simp, rfl⟩

theorem Tuples.cons (head : tuple.Of providers)
    (tail : Tuples providers rest tuples) :
    Tuples providers (tuple.bytes ++ rest) (tuple :: tuples) :=
  ⟨List.forall_mem_cons.mpr ⟨head, tail.each⟩, by
    rw [List.flatMap_cons, ← tail.joined]⟩

theorem Tuples.tail (whole : Tuples providers domains (tuple :: tuples)) :
    tuple.Of providers ∧ domains = tuple.bytes ++ tuples.flatMap (·.bytes) ∧
      Tuples providers (tuples.flatMap (·.bytes)) tuples :=
  ⟨whole.each tuple List.mem_cons_self,
    by rw [whole.joined, List.flatMap_cons],
    fun other member => whole.each other (List.mem_cons_of_mem _ member), rfl⟩

theorem be32At_append {front back : Bytes} (long : 4 ≤ front.length) :
    be32At (front ++ back) 0 = be32At front 0 := by
  unfold be32At Bytes.slice
  rw [List.drop_zero, List.drop_zero, List.take_append_of_le_length long]

theorem DomainTuple.Of.long (of : tuple.Of providers) :
    4 ≤ tuple.bytes.length := by
  have := of.length
  omega

/-- The first tuple of a value is determined by the table. -/
theorem Tuples.head_eq {first : DomainTuple}
    (whole : Tuples providers (first.bytes ++ rest) (tuple :: tuples))
    (of : first.Of providers) :
    tuple = first ∧ tuples.flatMap (·.bytes) = rest := by
  obtain ⟨head, same, _⟩ := whole.tail
  have phandle : be32At tuple.bytes 0 = be32At first.bytes 0 := by
    calc be32At tuple.bytes 0
      _ = be32At (tuple.bytes ++ tuples.flatMap (·.bytes)) 0 :=
          (be32At_append head.long).symm
      _ = be32At (first.bytes ++ rest) 0 := by rw [same]
      _ = be32At first.bytes 0 := be32At_append of.long
  have provider : tuple.provider = first.provider := by
    have found := head.found
    rw [phandle, of.found] at found
    exact (Option.some.inj found).symm
  have length : first.bytes.length = tuple.bytes.length := by
    rw [of.length, head.length, provider]
  obtain ⟨bytes, later⟩ := List.append_inj same length
  cases tuple with
  | mk =>
      cases first with
      | mk =>
          cases provider
          cases bytes
          exact ⟨rfl, later.symm⟩

/-- A value is a sequence of tuples in at most one way. -/
theorem Tuples.unique {tuples' : List DomainTuple}
    (whole : Tuples providers domains tuples)
    (whole' : Tuples providers domains tuples') : tuples = tuples' := by
  induction tuples generalizing domains tuples' with
  | nil =>
      cases tuples' with
      | nil => rfl
      | cons tuple' tuples' =>
          have long := (whole'.each tuple' List.mem_cons_self).long
          have empty : domains = [] := whole.joined
          have lengths := congrArg List.length whole'.joined
          rw [empty, List.flatMap_cons, List.length_append,
            List.length_nil] at lengths
          omega
  | cons tuple tuples induction =>
      obtain ⟨head, rfl, later⟩ := whole.tail
      cases tuples' with
      | nil =>
          have lengths := congrArg List.length whole'.joined
          rw [List.flatMap_nil, List.length_append, List.length_nil] at lengths
          have long := head.long
          omega
      | cons tuple' tuples' =>
          obtain ⟨rfl, same⟩ := whole'.head_eq head
          rw [← induction (same ▸ later) whole'.tail.2.2]

/-- Some of the tuples are a value of their own. -/
theorem Tuples.kept (whole : Tuples providers domains tuples) :
    Tuples providers ((keptTuples tuples).flatMap (·.bytes))
      (keptTuples tuples) :=
  ⟨fun tuple member => whole.each tuple (List.mem_of_mem_filter member), rfl⟩

/-- Another table that has the same providers for the tuples. -/
theorem Tuples.transfer {providers' : List PowerDomainProvider}
    (whole : Tuples providers domains tuples)
    (same : ∀ tuple ∈ tuples,
      providers'.find? (·.phandle = be32At tuple.bytes 0) =
        some tuple.provider) : Tuples providers' domains tuples :=
  ⟨fun tuple member =>
    ⟨same tuple member, (whole.each tuple member).length⟩, whole.joined⟩

theorem Tuples.length_mod (whole : Tuples providers domains tuples) :
    domains.length % 4 = 0 := by
  induction tuples generalizing domains with
  | nil =>
      rw [whole.joined]
      rfl
  | cons tuple tuples induction =>
      obtain ⟨head, rfl, later⟩ := whole.tail
      have tail := induction later
      have length := head.length
      rw [List.length_append]
      omega

end

/-! ## The loop over the tuples -/

theorem readBe32_append {front rest : Bytes} {phandle : Nat}
    (short : (front ++ rest).length < 2 ^ 32) :
    readBe32 (front ++ rest) front.length = .ok phandle ↔
      4 ≤ rest.length ∧ phandle = be32At rest 0 := by
  rw [List.length_append] at short
  rw [readBe32_eq_ok (by omega), List.length_append]
  have word : be32At (front ++ rest) front.length = be32At rest 0 := by
    unfold be32At Bytes.slice
    rw [List.drop_left, List.drop_zero, Nat.add_sub_cancel_left,
      Nat.zero_add, Nat.sub_zero]
  rw [word]
  constructor
  · rintro ⟨inside, same⟩
    exact ⟨by omega, same⟩
  · rintro ⟨inside, same⟩
    exact ⟨by omega, same⟩

/-- The loop cuts the rest of the value into tuples. -/
theorem retainDomains_from {providers : List PowerDomainProvider}
    (small : SmallCells providers) {fuel : Nat} :
    ∀ {front rest retained : Bytes} {keepNames : List Bool}
      {result : Bytes × List Bool}, (front ++ rest).length < 2 ^ 32 →
      rest.length < fuel →
      (retainDomains (front ++ rest) providers fuel front.length retained
          keepNames = .ok result ↔
        ∃ tuples, Tuples providers rest tuples ∧ result =
          (retained ++ (keptTuples tuples).flatMap (·.bytes),
            keepNames ++ tuples.map (!·.provider.psci))) := by
  induction fuel with
  | zero =>
      intro _ _ _ _ _ _ enough
      omega
  | succ fuel induction =>
      intro front rest retained keepNames result short enough
      have length : (front ++ rest).length = front.length + rest.length :=
        List.length_append
      rw [retainDomains]
      by_cases empty : rest = []
      · subst empty
        rw [if_neg (by simp)]
        constructor
        · intro same
          cases same
          exact ⟨[], .nil, by simp [keptTuples]⟩
        · rintro ⟨tuples, whole, rfl⟩
          obtain rfl := Tuples.nil.unique whole
          simp [keptTuples]
      · have positive := List.length_pos_iff.mpr empty
        rw [if_pos (by omega)]
        have head : ∀ {provider : PowerDomainProvider},
            providers.find? (·.phandle = be32At rest 0) = some provider →
              (provider.cells + 1) * 4 < 2 ^ 35 := by
          intro provider found
          have := small provider (List.mem_of_find?_eq_some found)
          omega
        constructor
        · intro returns
          obtain ⟨phandle, read, returns⟩ := Run.bind_eq_ok.mp returns
          obtain ⟨fits, rfl⟩ := (readBe32_append short).mp read
          obtain ⟨provider, found, returns⟩ := Run.bind_eq_ok.mp returns
          rw [Run.ofOption_eq_ok] at found
          have bound := head found
          rw [addOrPanic_of (by unfold wordSize; omega), Run.ok_bind,
            mulOrPanic_of (by unfold wordSize; omega), Run.ok_bind,
            subOrPanic_of (by omega), Run.ok_bind] at returns
          obtain ⟨_, whole, returns⟩ := Run.bind_eq_ok.mp returns
          rw [Run.ensure_eq_ok] at whole
          have split := (List.take_append_drop ((provider.cells + 1) * 4)
            rest).symm
          have taken : (rest.take ((provider.cells + 1) * 4)).length =
              (provider.cells + 1) * 4 := by
            rw [List.length_take]
            omega
          generalize rest.take ((provider.cells + 1) * 4) = bytes at split taken
          generalize rest.drop ((provider.cells + 1) * 4) = later at split
          subst split
          have of : (DomainTuple.mk provider bytes).Of providers := by
            refine ⟨?_, taken⟩
            rw [be32At_append (by omega)] at found
            exact found
          have regroup : front ++ (bytes ++ later) =
              (front ++ bytes) ++ later := (List.append_assoc _ _ _).symm
          have stop : front.length + (provider.cells + 1) * 4 =
              (front ++ bytes).length := by
            rw [List.length_append, taken]
          rw [List.length_append] at enough
          dsimp only at returns
          split at returns
          · rename_i psci
            rw [regroup, stop] at returns
            obtain ⟨tuples, tail, rfl⟩ :=
              (induction (regroup ▸ short) (by omega)).mp returns
            exact ⟨_, Tuples.cons of tail, by simp [keptTuples, psci]⟩
          · rename_i other
            rw [sliceOrPanic_of (by omega) (by
              simp only [List.length_append] at length ⊢
              omega), Run.ok_bind] at returns
            have cut : Bytes.slice (front ++ (bytes ++ later)) front.length
                (front.length + (provider.cells + 1) * 4) = bytes := by
              rw [Bytes.slice, List.drop_left, Nat.add_sub_cancel_left,
                ← taken, List.take_left]
            rw [cut, regroup, stop] at returns
            obtain ⟨tuples, tail, rfl⟩ :=
              (induction (regroup ▸ short) (by omega)).mp returns
            exact ⟨_, Tuples.cons of tail, by simp [keptTuples, other]⟩
        · rintro ⟨tuples, whole, rfl⟩
          cases tuples with
          | nil => exact absurd whole.joined empty
          | cons tuple tuples =>
              obtain ⟨of, rfl, tail⟩ := whole.tail
              generalize tuples.flatMap (·.bytes) = later
                at tail short length enough
              have long := of.long
              have taken := of.length
              have read : readBe32 (front ++ (tuple.bytes ++ later))
                  front.length = .ok (be32At tuple.bytes 0) :=
                (readBe32_append short).mpr ⟨by
                  rw [List.length_append]
                  omega, (be32At_append long).symm⟩
              have bound := small tuple.provider
                (List.mem_of_find?_eq_some of.found)
              have found := of.found
              simp only [List.length_append] at length enough
              have regroup : front ++ (tuple.bytes ++ later) =
                  (front ++ tuple.bytes) ++ later :=
                (List.append_assoc _ _ _).symm
              have stop : front.length + (tuple.provider.cells + 1) * 4 =
                  (front ++ tuple.bytes).length := by
                rw [List.length_append, taken]
              rw [read, Run.ok_bind, found, Run.ofOption, Run.ok_bind,
                addOrPanic_of (by unfold wordSize; omega), Run.ok_bind,
                mulOrPanic_of (by unfold wordSize; omega), Run.ok_bind,
                subOrPanic_of (by
                  simp only [List.length_append]
                  omega), Run.ok_bind,
                Run.ensure_of (by
                  simp only [List.length_append]
                  omega), Run.ok_bind]
              dsimp only
              split
              · rename_i psci
                rw [regroup, stop]
                exact (induction (regroup ▸ short) (by omega)).mpr
                  ⟨tuples, tail, by simp [keptTuples, psci]⟩
              · rename_i other
                have cut : Bytes.slice (front ++ (tuple.bytes ++ later))
                    front.length
                    (front.length + (tuple.provider.cells + 1) * 4) =
                      tuple.bytes := by
                  rw [Bytes.slice, List.drop_left, Nat.add_sub_cancel_left,
                    ← taken, List.take_left]
                rw [sliceOrPanic_of (by omega) (by
                  simp only [List.length_append]
                  omega), Run.ok_bind, cut, regroup, stop]
                exact (induction (regroup ▸ short) (by omega)).mpr
                  ⟨tuples, tail, by simp [keptTuples, other]⟩

theorem retainDomains_eq_ok {providers : List PowerDomainProvider}
    (small : SmallCells providers) {domains : Bytes}
    (short : domains.length < 2 ^ 32) {result : Bytes × List Bool} :
    retainDomains domains providers (domains.length + 1) 0 [] [] =
        .ok result ↔
      ∃ tuples, Tuples providers domains tuples ∧ result =
        ((keptTuples tuples).flatMap (·.bytes),
          tuples.map (!·.provider.psci)) := by
  have whole : (([] : Bytes) ++ domains).length < 2 ^ 32 := short
  exact retainDomains_from small whole (Nat.lt_succ_self _)

/-! ## Names of the tuples -/

/-- The names of a value that is not cut off, with the tuples that stay. -/
def keptPieces (names : Bytes) (keepNames : List Bool) : List Bytes :=
  (((names.dropLast.splitOn 0).zip keepNames).filter (·.2)).map Prod.fst

theorem retainNames_eq_ok {names result : Bytes} {keepNames : List Bool} :
    retainNames names keepNames = .ok result ↔
      names.getLast? = some 0 ∧
        (names.dropLast.splitOn 0).length = keepNames.length ∧
        result = (keptPieces names keepNames).flatMap (· ++ [0]) := by
  rw [retainNames, Run.bind_eq_ok]
  simp only [Run.ofOption_eq_ok, stripNul, Run.bind_eq_ok, keptPieces,
    List.flatMap_map]
  constructor
  · rintro ⟨stripped, found, _, same, kept⟩
    rw [Run.ensure_eq_ok] at same
    cases kept
    split at found
    · rename_i last
      cases found
      exact ⟨last, same, rfl⟩
    · cases found
  · rintro ⟨last, same, rfl⟩
    exact ⟨names.dropLast, if_pos last, (), Run.ensure_of same _, rfl⟩

theorem keptPieces_length {names : Bytes} {keepNames : List Bool}
    (same : (names.dropLast.splitOn 0).length = keepNames.length) :
    (keptPieces names keepNames).length = (keepNames.filter id).length := by
  rw [keptPieces, List.length_map]
  generalize names.dropLast.splitOn 0 = pieces at same
  induction pieces generalizing keepNames with
  | nil =>
      obtain rfl := List.length_eq_zero_iff.mp same.symm
      rfl
  | cons piece pieces induction =>
      cases keepNames with
      | nil => cases same
      | cons keep keepNames =>
          have later := induction (Nat.succ_inj.mp same)
          cases keep with
          | false => simpa using later
          | true => simpa using later

theorem keptPieces_noNul {names piece : Bytes} {keepNames : List Bool}
    (member : piece ∈ keptPieces names keepNames) : (0 : UInt8) ∉ piece := by
  obtain ⟨⟨name, keep⟩, among, rfl⟩ := List.mem_map.mp member
  exact Bytes.notMem_splitOn
    (List.of_mem_zip (List.mem_of_mem_filter among)).1

/-- Names of which all stay are the same afterwards. -/
theorem retainNames_all {pieces : List Bytes} {keepNames : List Bool}
    (nonempty : pieces ≠ [])
    (noNul : ∀ piece ∈ pieces, (0 : UInt8) ∉ piece)
    (count : pieces.length = keepNames.length)
    (all : ∀ keep ∈ keepNames, keep = true) :
    retainNames (pieces.flatMap (· ++ [0])) keepNames =
      .ok (pieces.flatMap (· ++ [0])) := by
  have split := Bytes.splitOn_terminated nonempty noNul
  rw [retainNames_eq_ok, keptPieces, split]
  refine ⟨?_, count, ?_⟩
  · rw [Bytes.terminated_eq nonempty, List.getLast?_concat]
  · congr 1
    rw [List.filter_eq_self.mpr, List.map_fst_zip (le_of_eq count)]
    intro item member
    exact all item.2 (List.of_mem_zip member).2

/-! ## The domains of a CPU -/

/-- The domains are tuples of providers outside of every PSCI node, and there
is a name for each when there are names. -/
structure FilteredTuples (providers : List PowerDomainProvider)
    (node : ContractNode) (domains : Bytes) (tuples : List DomainTuple) :
    Prop where
  whole : Tuples providers domains tuples
  nonempty : tuples ≠ []
  outside : ∀ tuple ∈ tuples, tuple.provider.psci = false
  short : domains.length < 2 ^ 32
  named : ∀ names, node.get propPowerDomainNames = some names →
    ∃ pieces : List Bytes, pieces.length = tuples.length ∧
      (∀ piece ∈ pieces, (0 : UInt8) ∉ piece) ∧
      names = pieces.flatMap (· ++ [0])

/-- The power domains of a node are filtered, when it has any. -/
def FilteredDomains (providers : List PowerDomainProvider)
    (node : ContractNode) : Prop :=
  ∀ domains, node.get propPowerDomains = some domains →
    ∃ tuples, FilteredTuples providers node domains tuples

theorem propPowerDomainNames_ne : propPowerDomainNames ≠ propPowerDomains := by
  decide

theorem keptTuples_outside {tuples : List DomainTuple} {tuple : DomainTuple}
    (member : tuple ∈ keptTuples tuples) : tuple.provider.psci = false := by
  simpa using (List.mem_filter.mp member).2

theorem keptTuples_count (tuples : List DomainTuple) :
    ((tuples.map (!·.provider.psci)).filter id).length =
      (keptTuples tuples).length := by
  rw [List.filter_map, List.length_map]
  rfl

theorem keptTuples_length_le (tuples : List DomainTuple) :
    ((keptTuples tuples).flatMap (·.bytes)).length ≤
      (tuples.flatMap (·.bytes)).length := by
  induction tuples with
  | nil => exact le_rfl
  | cons tuple tuples induction =>
      rw [keptTuples, List.filter_cons]
      split
      · rw [List.flatMap_cons, List.flatMap_cons, List.length_append,
          List.length_append]
        exact Nat.add_le_add_left induction _
      · rw [List.flatMap_cons, List.length_append]
        exact induction.trans (Nat.le_add_left _ _)

section

variable {providers : List PowerDomainProvider} {cpu cpu' : ContractNode}

/-- What a run of the filter did to the properties of a CPU. -/
theorem removePsciCpuDomains_eq {domains : Bytes}
    (small : SmallCells providers)
    (found : cpu.get propPowerDomains = some domains)
    (short : domains.length < 2 ^ 32)
    (removed : removePsciCpuDomains cpu providers = .ok cpu') :
    ∃ tuples names, Tuples providers domains tuples ∧
      retainedNames cpu (tuples.map (!·.provider.psci)) = .ok names ∧
      cpu' = storeDomains cpu ((keptTuples tuples).flatMap (·.bytes))
        names := by
  unfold removePsciCpuDomains at removed
  rw [found] at removed
  obtain ⟨_, _, removed⟩ := Run.bind_eq_ok.mp removed
  obtain ⟨retained, returns, removed⟩ := Run.bind_eq_ok.mp removed
  obtain ⟨tuples, whole, rfl⟩ :=
    (retainDomains_eq_ok small short).mp returns
  obtain ⟨names, named, removed⟩ := Run.bind_eq_ok.mp removed
  cases removed
  exact ⟨tuples, names, whole, named, rfl⟩

theorem removePsciCpuDomains_filtered (small : SmallCells providers)
    (short : ∀ domains, cpu.get propPowerDomains = some domains →
      domains.length < 2 ^ 32)
    (removed : removePsciCpuDomains cpu providers = .ok cpu') :
    FilteredDomains providers cpu' := by
  cases found : cpu.get propPowerDomains with
  | none =>
      unfold removePsciCpuDomains at removed
      rw [found] at removed
      cases removed
      intro domains present
      rw [found] at present
      cases present
  | some domains =>
      have bound := short domains found
      obtain ⟨tuples, names, whole, named, rfl⟩ :=
        removePsciCpuDomains_eq small found bound removed
      intro domains' present
      unfold storeDomains at present ⊢
      split at present
      · rw [ContractNode.get_remove_of_ne propPowerDomainNames_ne.symm,
          ContractNode.get_remove_self] at present
        cases present
      · rename_i kept
        rw [if_neg kept]
        have nonempty : keptTuples tuples ≠ [] := fun none => by
          rw [none] at kept
          exact kept rfl
        have less := keptTuples_length_le tuples
        rw [← whole.joined] at less
        unfold retainedNames at named
        split at named
        · rename_i held _
          obtain ⟨held', retain, rfl⟩ := Run.map_eq_ok.mp named
          obtain ⟨_, count, rfl⟩ := retainNames_eq_ok.mp retain
          dsimp only at present ⊢
          rw [ContractNode.get_set_of_ne propPowerDomainNames_ne.symm,
            ContractNode.get_set_self] at present
          cases present
          refine ⟨_, whole.kept, nonempty, fun _ => keptTuples_outside,
            by omega, fun names present => ?_⟩
          rw [ContractNode.get_set_self] at present
          cases present
          exact ⟨_, (keptPieces_length count).trans (keptTuples_count tuples),
            fun piece => keptPieces_noNul, rfl⟩
        · rename_i absent
          cases named
          dsimp only at present ⊢
          rw [ContractNode.get_set_self] at present
          cases present
          refine ⟨_, whole.kept, nonempty, fun _ => keptTuples_outside,
            by omega, fun names present => ?_⟩
          rw [ContractNode.get_set_of_ne propPowerDomainNames_ne,
            absent] at present
          cases present

/-- The filter does not change what is filtered already. -/
theorem FilteredDomains.fixed (small : SmallCells providers)
    (filtered : FilteredDomains providers cpu) :
    removePsciCpuDomains cpu providers = .ok cpu := by
  unfold removePsciCpuDomains
  cases found : cpu.get propPowerDomains with
  | none => rfl
  | some domains =>
      obtain ⟨tuples, filtered⟩ := filtered domains found
      have all : keptTuples tuples = tuples := by
        rw [keptTuples, List.filter_eq_self]
        intro tuple member
        rw [filtered.outside tuple member]
        rfl
      have returns := (retainDomains_eq_ok small filtered.short).mpr
        ⟨tuples, filtered.whole, rfl⟩
      rw [all, ← filtered.whole.joined] at returns
      have kept : ∀ keep ∈ tuples.map (!·.provider.psci), keep = true := by
        intro keep member
        obtain ⟨tuple, among, rfl⟩ := List.mem_map.mp member
        rw [filtered.outside tuple among]
        rfl
      have present : domains ≠ [] := by
        intro empty
        obtain ⟨tuple, rest, rfl⟩ :=
          List.exists_cons_of_ne_nil filtered.nonempty
        have long := (filtered.whole.each tuple List.mem_cons_self).long
        have joined := congrArg List.length filtered.whole.joined
        rw [empty, List.flatMap_cons, List.length_append,
          List.length_nil] at joined
        omega
      dsimp only
      rw [Run.ensure_of filtered.whole.length_mod, Run.ok_bind, returns,
        Run.ok_bind]
      dsimp only
      unfold retainedNames storeDomains
      cases named : cpu.get propPowerDomainNames with
      | none =>
          dsimp only
          rw [Run.ok_bind, if_neg present, ContractNode.set_of_get found]
          rfl
      | some names =>
          obtain ⟨pieces, count, noNul, rfl⟩ := filtered.named names named
          have nonempty : pieces ≠ [] := by
            intro empty
            rw [empty] at count
            exact filtered.nonempty
              (List.length_eq_zero_iff.mp count.symm)
          have same := retainNames_all nonempty noNul
            (count.trans (List.length_map _).symm) kept
          dsimp only
          rw [same]
          change Except.ok _ = _
          dsimp only
          rw [if_neg present, ContractNode.set_of_get found,
            ContractNode.set_of_get named]

/-- Filtered domains stay so under a table with the same providers. -/
theorem FilteredDomains.transfer {providers' : List PowerDomainProvider}
    (filtered : FilteredDomains providers cpu)
    (same : ∀ domains tuples, cpu.get propPowerDomains = some domains →
      Tuples providers domains tuples → ∀ tuple ∈ tuples,
        providers'.find? (·.phandle = be32At tuple.bytes 0) =
          some tuple.provider) :
    FilteredDomains providers' cpu := by
  intro domains present
  obtain ⟨tuples, filtered⟩ := filtered domains present
  exact ⟨tuples, filtered.whole.transfer
    (same domains tuples present filtered.whole), filtered.nonempty,
    filtered.outside, filtered.short, filtered.named⟩

end

end Pocketboot.Kexec
