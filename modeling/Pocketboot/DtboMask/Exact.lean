import Pocketboot.DtboMask.Sites

/-!
# What the checks of a mask are worth

The checks are meant to say that the marks are on the nodes of the symbols
under `masked-devices`.  They compare paths, so a child of the root with a
slash in its name passes for such a node.  They are right unless a tree that
has such a child satisfies them.
-/

namespace Pocketboot.DtboMask

open DeviceTree

/-- The marks on a node. -/
def markValues (body : Content) : List Bytes :=
  body.values dtboMaskValidationProperty.utf8

/-- The marked nodes are exactly the nodes of the symbols, each marked with its
symbol. -/
structure TargetsExact (tree : Content) (symbols : List Text) : Prop where
  each : ∀ symbol ∈ symbols, ∃ body, MaskedDevice tree symbol body ∧
    markValues body = [symbol.utf8 ++ [0]]
  only : ∀ node ∈ tree.nodes [], markValues node.2 ≠ [] →
    ∃ symbol ∈ symbols, node.1 = [[], maskedDevices, symbol.utf8]

/-- Every symbol has its node, and is exported as that. -/
def SymbolsNamed (tree : Content) (symbols : List Text) : Prop :=
  ∀ symbol ∈ symbols,
    (∃ body, MaskedDevice tree symbol body) ∧ Exported tree symbol

/-- The marked nodes are one for each symbol, marked with it: its node, or the
child of the root with the slash in its name. -/
structure TargetsSited (tree : Content) (symbols : List Text) : Prop where
  each : ∀ symbol ∈ symbols, ∃ body,
    (MaskedDevice tree symbol body ∨ SlashedDevice tree symbol body) ∧
      markValues body = [symbol.utf8 ++ [0]]
  only : ∀ node ∈ tree.nodes [], markValues node.2 ≠ [] →
    ∃ symbol ∈ symbols, node.1 = [[], maskedDevices, symbol.utf8] ∨
      node.1 = [[], slashedName symbol]

/-- Every symbol is exported, and there is its node or the child of the root
with the slash in its name. -/
def SymbolsSited (tree : Content) (symbols : List Text) : Prop :=
  ∀ symbol ∈ symbols, (∃ body,
    MaskedDevice tree symbol body ∨ SlashedDevice tree symbol body) ∧
      Exported tree symbol

/-- Some symbol has a child of the root with the slash in its name. -/
def HasSlashed (tree : Content) (symbols : List Text) : Prop :=
  ∃ symbol ∈ symbols, ∃ body, SlashedDevice tree symbol body

section

variable {contents : FdtContents} {tree : Content} {symbols : List Text}

/-- The node with the path of a symbol is in one of the two places. -/
theorem Flattened.sited_iff (flattened : Flattened contents tree)
    {symbol : Text} (name : IsSymbol symbol) {body : Content} :
    (MaskedDevice tree symbol body ∨ SlashedDevice tree symbol body) ↔
      ∃ chain, (chain, body) ∈ tree.nodes [] ∧
        flatPath chain = (maskedDevice symbol).utf8 := by
  rw [flattened.maskedDevice_iff, SlashedDevice, flattened.child_iff]
  constructor
  · rintro (masked | slashed)
    · exact ⟨_, masked, (flatPath_eq_maskedDevice
        (flattened.rooted _ masked) name).mpr (.inl rfl)⟩
    · exact ⟨_, slashed, (flatPath_eq_maskedDevice
        (flattened.rooted _ slashed) name).mpr (.inr rfl)⟩
  · rintro ⟨chain, inside, path⟩
    rcases (flatPath_eq_maskedDevice (flattened.rooted _ inside) name).mp path
      with rfl | rfl
    · exact .inl inside
    · exact .inr inside

/-- A tree does not have a symbol's node in both places. -/
theorem Flattened.not_both (flattened : Flattened contents tree)
    {symbol : Text} (name : IsSymbol symbol) {first second : Content}
    (masked : MaskedDevice tree symbol first)
    (slashed : SlashedDevice tree symbol second) : False := by
  rw [flattened.maskedDevice_iff] at masked
  rw [SlashedDevice, flattened.child_iff] at slashed
  have left := (flatPath_eq_maskedDevice
    (flattened.rooted _ masked) name).mpr (.inl rfl)
  have right := (flatPath_eq_maskedDevice
    (flattened.rooted _ slashed) name).mpr (.inr rfl)
  have same := flattened.node_unique masked slashed (left.trans right.symm)
  cases congrArg (fun node => node.1.length) same

theorem Flattened.exported_iff (flattened : Flattened contents tree)
    {symbol : Text} : Exported tree symbol ↔
      (Text.utf8 "/__symbols__".toList, some symbol.utf8,
          (maskedDevice symbol).utf8 ++ [0]) ∈
        contents.properties.entries.map flatProperty := by
  rw [flattened.mem_properties]
  constructor
  · rintro ⟨root, body, rooted, one, values⟩
    have inside := flattened.child_iff.mp ⟨root, rooted, one⟩
    refine ⟨_, inside, ?_, ?_⟩
    · exact (flatPath_eq_symbols (flattened.rooted _ inside)).mpr rfl
    · exact (Content.values_eq_singleton
        (flattened.props_nodup inside)).mp values
  · rintro ⟨⟨chain, body⟩, inside, path, held⟩
    obtain rfl := (flatPath_eq_symbols (flattened.rooted _ inside)).mp path
    obtain ⟨root, rooted, one⟩ := flattened.child_iff.mpr inside
    exact ⟨root, body, rooted, one, (Content.values_eq_singleton
      (flattened.props_nodup inside)).mpr held⟩

/-- The marks the parser returns are those on the nodes. -/
theorem Flattened.mem_marks (flattened : Flattened contents tree)
    {path value : Bytes} :
    (path, value) ∈ marks (contents.properties.entries.map flatProperty) ↔
      ∃ node ∈ tree.nodes [], flatPath node.1 = path ∧
        markValues node.2 = [value] := by
  have held : (path, value) ∈
      marks (contents.properties.entries.map flatProperty) ↔
        (path, some dtboMaskValidationProperty.utf8, value) ∈
          contents.properties.entries.map flatProperty := by
    rw [marks, List.mem_map]
    constructor
    · rintro ⟨⟨path', name, value'⟩, member, same⟩
      obtain ⟨member, marked⟩ := List.mem_filter.mp member
      obtain rfl := of_decide_eq_true marked
      obtain ⟨rfl, rfl⟩ := Prod.mk.inj same
      exact member
    · intro member
      exact ⟨_, List.mem_filter.mpr ⟨member, decide_eq_true rfl⟩, rfl⟩
  rw [held, flattened.mem_properties]
  refine exists_congr fun node => and_congr_right fun inside => ?_
  rw [markValues,
    Content.values_eq_singleton (flattened.props_nodup inside)]

theorem marks_nodup :
    (marks (contents.properties.entries.map flatProperty)).Nodup := by
  have entries : contents.properties.entries.Nodup :=
    List.Nodup.of_map Prod.fst contents.properties.keys_nodup
  refine List.Nodup.map_on ?_
    ((entries.map flatProperty_injective).filter _)
  rintro ⟨path, name, value⟩ left ⟨path', name', value'⟩ right same
  obtain rfl := of_decide_eq_true (List.mem_filter.mp left).2
  obtain rfl := of_decide_eq_true (List.mem_filter.mp right).2
  obtain ⟨rfl, rfl⟩ := Prod.mk.inj same
  rfl

/-- The check of the marks says where they are up to slashes. -/
theorem Flattened.targetsSited_iff (flattened : Flattened contents tree)
    (names : ∀ symbol ∈ symbols, IsSymbol symbol) (distinct : symbols.Nodup) :
    (marks (contents.properties.entries.map flatProperty)).Perm
        (symbols.map fun symbol => markOf (symbol, maskedDevice symbol)) ↔
      TargetsSited tree symbols := by
  have expected : (symbols.map fun symbol =>
      markOf (symbol, maskedDevice symbol)).Nodup :=
    distinct.map fun _ _ same => (Prod.mk.inj (markOf_injective same)).1
  rw [List.perm_ext_iff_of_nodup marks_nodup expected]
  constructor
  · intro same
    constructor
    · intro symbol member
      have mark := (same _).mpr (List.mem_map_of_mem member)
      obtain ⟨⟨chain, body⟩, inside, path, values⟩ :=
        flattened.mem_marks.mp mark
      exact ⟨body, (flattened.sited_iff (names symbol member)).mpr
        ⟨chain, inside, path⟩, values⟩
    · intro node inside marked
      obtain ⟨value, held⟩ := List.exists_mem_of_ne_nil _ marked
      have one := (Content.values_eq_singleton
        (flattened.props_nodup inside)).mpr (Content.mem_values.mp held)
      have mark := (same _).mp
        (flattened.mem_marks.mpr ⟨node, inside, rfl, one⟩)
      obtain ⟨symbol, member, equal⟩ := List.mem_map.mp mark
      exact ⟨symbol, member, (flatPath_eq_maskedDevice
        (flattened.rooted _ inside) (names symbol member)).mp
          (Prod.mk.inj equal).1.symm⟩
  · rintro ⟨each, only⟩ ⟨path, value⟩
    rw [flattened.mem_marks, List.mem_map]
    constructor
    · rintro ⟨node, inside, rfl, marked⟩
      obtain ⟨symbol, member, chain⟩ := only node inside (by
        rw [marked]
        exact List.cons_ne_nil _ _)
      have name := names symbol member
      have path := (flatPath_eq_maskedDevice
        (flattened.rooted _ inside) name).mpr chain
      obtain ⟨body, place, values⟩ := each symbol member
      obtain ⟨chain', inside', path'⟩ := (flattened.sited_iff name).mp place
      obtain rfl := flattened.node_unique inside inside' (path.trans path'.symm)
      refine ⟨symbol, member, ?_⟩
      rw [markOf, path, List.singleton_inj.mp (marked.symm.trans values)]
    · rintro ⟨symbol, member, same⟩
      obtain ⟨rfl, rfl⟩ := Prod.mk.inj same
      obtain ⟨body, place, values⟩ := each symbol member
      obtain ⟨chain, inside, path⟩ :=
        (flattened.sited_iff (names symbol member)).mp place
      exact ⟨_, inside, path, values⟩

/-- Exact marks are marks up to slashes in a tree without slashed names. -/
theorem Flattened.targetsExact_iff (flattened : Flattened contents tree)
    (names : ∀ symbol ∈ symbols, IsSymbol symbol) :
    TargetsExact tree symbols ↔
      TargetsSited tree symbols ∧ ¬HasSlashed tree symbols := by
  constructor
  · rintro ⟨each, only⟩
    refine ⟨⟨fun symbol member => ?_, fun node inside marked => ?_⟩, ?_⟩
    · obtain ⟨body, masked, values⟩ := each symbol member
      exact ⟨body, .inl masked, values⟩
    · obtain ⟨symbol, member, chain⟩ := only node inside marked
      exact ⟨symbol, member, .inl chain⟩
    · rintro ⟨symbol, member, body, slashed⟩
      obtain ⟨body', masked, _⟩ := each symbol member
      exact flattened.not_both (names symbol member) masked slashed
  · rintro ⟨⟨each, only⟩, free⟩
    refine ⟨fun symbol member => ?_, fun node inside marked => ?_⟩
    · obtain ⟨body, masked | slashed, values⟩ := each symbol member
      · exact ⟨body, masked, values⟩
      · exact absurd ⟨symbol, member, body, slashed⟩ free
    · obtain ⟨symbol, member, chain | chain⟩ := only node inside marked
      · exact ⟨symbol, member, chain⟩
      · refine absurd ⟨symbol, member, node.2, flattened.child_iff.mpr ?_⟩ free
        rw [← chain]
        exact inside

/-- The check of the exports says which nodes there are up to slashes. -/
theorem Flattened.symbolsSited_iff (flattened : Flattened contents tree)
    (names : ∀ symbol ∈ symbols, IsSymbol symbol) :
    (∀ symbol ∈ symbols,
      (Text.utf8 "/__symbols__".toList, some symbol.utf8,
          (maskedDevice symbol).utf8 ++ [0]) ∈
        contents.properties.entries.map flatProperty ∧
      (maskedDevice symbol).utf8 ∈ contents.nodes.keys.map Text.utf8) ↔
      SymbolsSited tree symbols := by
  refine forall₂_congr fun symbol member => ?_
  rw [and_comm, ← flattened.exported_iff, flattened.nodes.mem_iff,
    List.mem_map]
  refine and_congr_left fun _ => ?_
  simp only [flattened.sited_iff (names symbol member)]
  constructor
  · rintro ⟨⟨chain, body⟩, inside, path⟩
    exact ⟨body, chain, inside, path⟩
  · rintro ⟨body, chain, inside, path⟩
    exact ⟨(chain, body), inside, path⟩

theorem Flattened.symbolsNamed_iff (flattened : Flattened contents tree)
    (names : ∀ symbol ∈ symbols, IsSymbol symbol)
    (sited : SymbolsSited tree symbols) :
    SymbolsNamed tree symbols ↔ ¬HasSlashed tree symbols := by
  constructor
  · rintro named ⟨symbol, member, body, slashed⟩
    obtain ⟨⟨body', masked⟩, _⟩ := named symbol member
    exact flattened.not_both (names symbol member) masked slashed
  · intro free symbol member
    obtain ⟨⟨body, masked | slashed⟩, exported⟩ := sited symbol member
    · exact ⟨⟨body, masked⟩, exported⟩
    · exact absurd ⟨symbol, member, body, slashed⟩ free

end

/-- The checks are exact: the marks are found on the nodes of the symbols and
nowhere else, and what passes as exported is. -/
structure ChecksExact (quote : Text → String) (contents : FdtContents)
    (manifest : DtboMaskManifest) (path : String) (tree : Content) :
    Prop where
  targets : validateMaskTargets quote contents manifest path = .ok () ↔
    TargetsExact tree manifest.symbols
  symbols : validateMaskSymbols quote contents manifest path = .ok () →
    SymbolsNamed tree manifest.symbols

/-- The checks of a mask are exact, unless the tree satisfies one of them up to
slashes and has a child of the root with a slash in its name in the place of a
symbol's node. -/
theorem maskChecks_exact_iff {quote : Text → String} {bytes : Bytes}
    {contents : FdtContents} {manifest : DtboMaskManifest}
    {manifestPath path : String} (parsed : parseFdt bytes = .ok contents)
    (valid : validateDtboMaskManifest quote manifest manifestPath = .ok ()) :
    (∃ tree, Encodes bytes tree) ∧ ∀ tree, Encodes bytes tree →
      (ChecksExact quote contents manifest path tree ↔
        ¬((TargetsSited tree manifest.symbols ∨
            SymbolsSited tree manifest.symbols) ∧
          HasSlashed tree manifest.symbols)) := by
  obtain ⟨tree, encodes, flattened⟩ := parseFdt_encodes parsed
  obtain ⟨names, distinct, _⟩ := validateDtboMaskManifest_symbols valid
  refine ⟨⟨tree, encodes⟩, fun other encodes' => ?_⟩
  obtain rfl := encodes.unique encodes'
  have targets : validateMaskTargets quote contents manifest path = .ok () ↔
      TargetsSited tree manifest.symbols :=
    (validateMaskTargets_eq_ok names distinct).trans
      (flattened.targetsSited_iff names distinct)
  have symbols : validateMaskSymbols quote contents manifest path = .ok () ↔
      SymbolsSited tree manifest.symbols :=
    (validateMaskSymbols_eq_ok names).trans (flattened.symbolsSited_iff names)
  have marked := flattened.targetsExact_iff names
  have named := flattened.symbolsNamed_iff names
  constructor
  · rintro ⟨exactTargets, exactSymbols⟩ ⟨sited | sited, slashed⟩
    · have exact' := exactTargets.mp (targets.mpr sited)
      exact (marked.mp exact').2 slashed
    · have exact' := exactSymbols (symbols.mpr sited)
      exact (named sited).mp exact' slashed
  · intro free
    constructor
    · rw [targets, marked]
      exact ⟨fun sited => ⟨sited, fun slashed => free ⟨.inl sited, slashed⟩⟩,
        And.left⟩
    · rw [symbols]
      intro sited
      exact (named sited).mpr fun slashed => free ⟨.inr sited, slashed⟩

/-! ## A slash in a name -/

def slashedManifest : DtboMaskManifest where
  format := 1
  source := ['d']
  sourceSha256 := List.replicate 64 '0'
  dtboEntries := 1
  symbols := [['a']]

/-- A root with one child, which is named `masked-devices/a` and marked with
`a`. -/
def slashedBlob : Bytes :=
  assemble ⟨0, 0, 0, 0, 17, 16, 0, 0, 0⟩ []
    (be32 beginNodeToken ++ [0, 0, 0, 0] ++
      be32 beginNodeToken ++ byteString "masked-devices/a" ++ [0, 0, 0, 0] ++
      be32 propToken ++ be32 2 ++ be32 0 ++ [97, 0, 0, 0] ++
      be32 endNodeToken ++ be32 endNodeToken ++ be32 endToken)
    (byteString "pocketboot,dtbo-mask-target" ++ [0])

private theorem slashedBlob_passes : ∃ contents,
    parseFdt slashedBlob = .ok contents ∧
      validateMaskTargets String.ofList contents slashedManifest "" = .ok () ∧
        flatPath [[], maskedDevices] ∉ contents.nodes.keys.map Text.utf8 := by
  have run : (do
      let contents ← parseFdt slashedBlob
      validateMaskTargets String.ofList contents slashedManifest ""
      Run.ensure (flatPath [[], maskedDevices] ∉
        contents.nodes.keys.map Text.utf8) "") = .ok () := by
    decide +kernel
  obtain ⟨contents, parsed, run⟩ := Run.bind_eq_ok.mp run
  obtain ⟨_, passes, absent⟩ := Run.bind_eq_ok.mp run
  exact ⟨contents, parsed, passes, Run.ensure_eq_ok.mp absent⟩

private theorem slashedManifest_valid :
    validateDtboMaskManifest String.ofList slashedManifest "" = .ok () := by
  decide +kernel

theorem maskChecks_exact_slashed : ∃ contents,
    parseFdt slashedBlob = .ok contents ∧ ∀ tree, Encodes slashedBlob tree →
      (ChecksExact String.ofList contents slashedManifest "" tree ↔
        ¬((TargetsSited tree slashedManifest.symbols ∨
            SymbolsSited tree slashedManifest.symbols) ∧
          HasSlashed tree slashedManifest.symbols)) := by
  obtain ⟨contents, parsed, _⟩ := slashedBlob_passes
  exact ⟨contents, parsed,
    (maskChecks_exact_iff parsed slashedManifest_valid).2⟩

/-- The mark is not on a node under `masked-devices`, and passes. -/
theorem maskChecks_slashed_notExact : ∃ contents tree,
    parseFdt slashedBlob = .ok contents ∧
      validateDtboMaskManifest String.ofList slashedManifest "" = .ok () ∧
        Encodes slashedBlob tree ∧
          ¬ChecksExact String.ofList contents slashedManifest "" tree := by
  obtain ⟨contents, parsed, passes, absent⟩ := slashedBlob_passes
  obtain ⟨tree, encodes, flattened⟩ := parseFdt_encodes parsed
  refine ⟨contents, tree, parsed, slashedManifest_valid, encodes, ?_⟩
  intro checks
  obtain ⟨body, ⟨root, masked, rooted, middle, _⟩, _⟩ :=
    (checks.targets.mp passes).each ['a'] (.head _)
  have inside := flattened.child_iff.mp ⟨root, rooted, middle⟩
  apply absent
  rw [flattened.nodes.mem_iff]
  exact List.mem_map_of_mem inside

end Pocketboot.DtboMask
