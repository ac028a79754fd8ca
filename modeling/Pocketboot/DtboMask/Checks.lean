import Pocketboot.DtboMask.Flatten
import Pocketboot.DtboMask.Manifest

/-!
# What the checks of a mask say

The symbols of a valid manifest are distinct names without a slash or a zero.
The checks of the marks and of the exported symbols are conditions on the paths
and properties that the parser returns, in bytes.
-/

namespace Pocketboot.DtboMask

open DeviceTree

/-! ## Manifests -/

/-- A symbol is a name: it is not empty and has no slash and no zero. -/
structure IsSymbol (symbol : Text) : Prop where
  nonempty : symbol.utf8 ≠ []
  noSlash : slash ∉ symbol.utf8
  noNul : (0 : UInt8) ∉ symbol.utf8

private theorem startsSymbol_other {byte : UInt8}
    (starts : startsSymbol byte = true) : byte ≠ slash ∧ byte ≠ 0 := by
  constructor
  · rintro rfl
    exact absurd starts (by decide)
  · rintro rfl
    exact absurd starts (by decide)

private theorem continuesSymbol_other {byte : UInt8}
    (continues : continuesSymbol byte = true) : byte ≠ slash ∧ byte ≠ 0 := by
  constructor
  · rintro rfl
    exact absurd continues (by decide)
  · rintro rfl
    exact absurd continues (by decide)

theorem validDtboSymbol_isSymbol {symbol : Text}
    (valid : validDtboSymbol symbol = true) : IsSymbol symbol := by
  unfold validDtboSymbol at valid
  split at valid
  · cases valid
  · rename_i first rest split
    rw [Bool.and_eq_true, List.all_eq_true] at valid
    have each : ∀ byte ∈ symbol.utf8, byte ≠ slash ∧ byte ≠ 0 := by
      rw [split]
      exact List.forall_mem_cons.mpr ⟨startsSymbol_other valid.1,
        fun byte member => continuesSymbol_other (valid.2 byte member)⟩
    exact ⟨split ▸ List.cons_ne_nil _ _, fun member => (each _ member).1 rfl,
      fun member => (each _ member).2 rfl⟩

theorem validateSymbols_sorted {quote : Text → String} {path : String}
    {previous : Option Text} {symbols : List Text}
    (valid : validateSymbols quote path previous symbols = .ok ()) :
    (∀ symbol ∈ symbols, IsSymbol symbol) ∧
      (previous.toList ++ symbols).IsChain (· < ·) := by
  induction symbols generalizing previous with
  | nil =>
      refine ⟨List.forall_mem_nil _, ?_⟩
      cases previous with
      | none => exact .nil
      | some previous => exact .singleton previous
  | cons symbol rest induction =>
      obtain ⟨_, named, valid⟩ := Run.bind_eq_ok.mp valid
      rw [Run.ensure_eq_ok] at named
      have isSymbol := validDtboSymbol_isSymbol named
      cases previous with
      | none =>
          obtain ⟨names, chain⟩ := induction valid
          exact ⟨List.forall_mem_cons.mpr ⟨isSymbol, names⟩, chain⟩
      | some previous =>
          obtain ⟨_, after, valid⟩ := Run.bind_eq_ok.mp valid
          rw [Run.ensure_eq_ok, not_le] at after
          obtain ⟨names, chain⟩ := induction valid
          exact ⟨List.forall_mem_cons.mpr ⟨isSymbol, names⟩,
            List.isChain_cons_cons.mpr ⟨after, chain⟩⟩

/-- The symbols of a valid manifest. -/
theorem validateDtboMaskManifest_symbols {quote : Text → String}
    {manifest : DtboMaskManifest} {path : String}
    (valid : validateDtboMaskManifest quote manifest path = .ok ()) :
    (∀ symbol ∈ manifest.symbols, IsSymbol symbol) ∧
      manifest.symbols.Nodup ∧ manifest.symbols ≠ [] := by
  obtain ⟨_, _, valid⟩ := Run.bind_eq_ok.mp valid
  obtain ⟨_, _, valid⟩ := Run.bind_eq_ok.mp valid
  obtain ⟨_, _, valid⟩ := Run.bind_eq_ok.mp valid
  obtain ⟨_, _, valid⟩ := Run.bind_eq_ok.mp valid
  obtain ⟨_, nonempty, valid⟩ := Run.bind_eq_ok.mp valid
  rw [Run.ensure_eq_ok] at nonempty
  obtain ⟨names, chain⟩ := validateSymbols_sorted valid
  exact ⟨names, (List.isChain_iff_pairwise.mp chain).imp ne_of_lt, nonempty⟩

/-! ## Marks -/

/-- The marks among some properties, with the paths of their nodes. -/
def marks (properties : List (Bytes × Option Bytes × Bytes)) :
    List (Bytes × Bytes) :=
  (properties.filter fun property =>
    property.2.1 = some dtboMaskValidationProperty.utf8).map fun property =>
      (property.1, property.2.2)

/-- The mark of a symbol at a path. -/
def markOf (target : Text × Text) : Bytes × Bytes :=
  (target.2.utf8, target.1.utf8 ++ [0])

theorem markOf_injective : Function.Injective markOf := by
  rintro ⟨symbol, path⟩ ⟨symbol', path'⟩ same
  obtain ⟨paths, values⟩ := Prod.mk.inj same
  obtain rfl := Text.utf8_inj paths
  obtain rfl := Text.utf8_inj (List.append_cancel_right values)
  rfl

private theorem marks_cons {key : Text ×ₗ Text} {value : Bytes}
    {rest : List (Bytes × Option Bytes × Bytes)} :
    marks (flatProperty (key, value) :: rest) =
      if (ofLex key).2 = dtboMaskValidationProperty then
        ((ofLex key).1.utf8, value) :: marks rest
      else marks rest := by
  rw [marks, List.filter_cons]
  by_cases marked : (ofLex key).2 = dtboMaskValidationProperty
  · rw [if_pos marked, if_pos (by simp [flatProperty, marked])]
    rfl
  · rw [if_neg marked, if_neg]
    · rfl
    · simp only [flatProperty, Option.some.injEq, decide_eq_true_eq]
      exact fun same => marked (Text.utf8_inj same)

section

variable {quote : Text → String} {path : String}
  {entries : List ((Text ×ₗ Text) × Bytes)}
  {targets result : OrderedMap Text Text}

/-- The targets that are collected are the marks. -/
theorem maskTargets_found
    (collected : maskTargets quote path entries targets = .ok result) :
    ∃ found : List (Text × Text),
      result.entries.Perm (found ++ targets.entries) ∧
        marks (entries.map flatProperty) = found.map markOf := by
  induction entries generalizing targets with
  | nil =>
      rw [← Except.ok.inj collected]
      exact ⟨[], .refl _, rfl⟩
  | cons entry rest induction =>
      obtain ⟨key, value⟩ := entry
      rw [maskTargets] at collected
      dsimp only at collected
      rw [List.map_cons, marks_cons]
      split at collected
      · rename_i other
        rw [if_neg other]
        exact induction collected
      · rename_i marked
        rw [if_pos (not_not.mp marked)]
        obtain ⟨symbol, read, collected⟩ := Run.bind_eq_ok.mp collected
        obtain ⟨_, fresh, collected⟩ := Run.bind_eq_ok.mp collected
        rw [Run.mapError_eq_ok, fdtString_eq_ok] at read
        rw [Run.ensure_eq_ok] at fresh
        obtain ⟨found, perm, same⟩ := induction collected
        refine ⟨(symbol, (ofLex key).1) :: found, ?_, ?_⟩
        · exact (perm.trans ((OrderedMap.insert_perm fresh).append_left
            found)).trans List.perm_middle
        · rw [same, List.map_cons, read.2]
          rfl

/-- Marks with distinct symbols are collected. -/
theorem maskTargets_of_marks {found : List (Text × Text)}
    (same : marks (entries.map flatProperty) = found.map markOf)
    (noNul : ∀ target ∈ found, (0 : UInt8) ∉ target.1.utf8)
    (distinct : (found.map Prod.fst ++ targets.keys).Nodup) :
    ∃ result, maskTargets quote path entries targets = .ok result ∧
      result.entries.Perm (found ++ targets.entries) := by
  induction entries generalizing targets found with
  | nil =>
      obtain rfl : found = [] := List.map_eq_nil_iff.mp same.symm
      exact ⟨targets, rfl, .refl _⟩
  | cons entry rest induction =>
      obtain ⟨key, value⟩ := entry
      rw [List.map_cons, marks_cons] at same
      rw [maskTargets]
      dsimp only
      split at same
      · rename_i marked
        rw [if_neg (not_not.mpr marked)]
        rcases found with _ | ⟨⟨symbol, nodePath⟩, found⟩
        · cases same
        · obtain ⟨first, others⟩ := List.cons.inj same
          obtain ⟨sited, held⟩ := Prod.mk.inj first
          obtain rfl := Text.utf8_inj sited
          obtain ⟨free, noNul⟩ := List.forall_mem_cons.mp noNul
          have read : fdtString value = .ok symbol :=
            fdtString_eq_ok.mpr ⟨free, held⟩
          have fresh : targets.get symbol = none :=
            OrderedMap.get_eq_none.mpr fun member =>
              (List.nodup_cons.mp distinct).1 (List.mem_append_right _ member)
          have inserted := @OrderedMap.insert_perm _ _ _ targets symbol
            (ofLex key).1 fresh
          have later := (((inserted.map Prod.fst).append_left
            (found.map Prod.fst)).trans List.perm_middle).nodup_iff.mpr distinct
          obtain ⟨result, collected, perm⟩ := induction others noNul later
          refine ⟨result, ?_, (perm.trans (inserted.append_left _)).trans
            List.perm_middle⟩
          rw [read]
          dsimp only [Run.mapError, Run.ok_bind]
          rw [Run.ensure_of fresh]
          exact collected
      · rename_i other
        rw [if_pos other]
        exact induction same noNul distinct

theorem validateMaskTarget_eq_ok {symbol : Text} :
    validateMaskTarget quote targets path symbol = .ok () ↔
      (symbol, maskedDevice symbol) ∈ targets.entries := by
  rw [← OrderedMap.get_eq_some, validateMaskTarget]
  cases targets.get symbol with
  | none => simp
  | some actual => simp

theorem forM_eq_ok {α : Type} {check : α → Run String Unit} {items : List α} :
    items.forM check = .ok () ↔ ∀ item ∈ items, check item = .ok () := by
  induction items with
  | nil => simp
  | cons item items induction =>
      change (check item >>= fun _ => items.forM check) = .ok () ↔ _
      rw [Run.bind_eq_ok, List.forall_mem_cons, ← induction]
      exact ⟨fun ⟨_, first, rest⟩ => ⟨first, rest⟩,
        fun ⟨first, rest⟩ => ⟨(), first, rest⟩⟩

/-- The check of the marks: each symbol has one, at the path of its node, and
there are no others. -/
theorem validateMaskTargets_eq_ok {fdt : FdtContents}
    {manifest : DtboMaskManifest}
    (names : ∀ symbol ∈ manifest.symbols, IsSymbol symbol)
    (distinct : manifest.symbols.Nodup) :
    validateMaskTargets quote fdt manifest path = .ok () ↔
      (marks (fdt.properties.entries.map flatProperty)).Perm
        (manifest.symbols.map fun symbol =>
          markOf (symbol, maskedDevice symbol)) := by
  have keyed : ((manifest.symbols.map fun symbol =>
      (symbol, maskedDevice symbol)).map Prod.fst) = manifest.symbols := by
    rw [List.map_map]
    exact List.map_id _
  constructor
  · intro valid
    obtain ⟨targets, collected, valid⟩ := Run.bind_eq_ok.mp valid
    obtain ⟨_, count, each⟩ := Run.bind_eq_ok.mp valid
    rw [Run.ensure_eq_ok] at count
    have each := forM_eq_ok.mp each
    obtain ⟨found, perm, same⟩ := maskTargets_found collected
    have nodup : (manifest.symbols.map fun symbol =>
        (symbol, maskedDevice symbol)).Nodup := by
      apply List.Nodup.of_map Prod.fst
      rw [keyed]
      exact distinct
    have inside : (manifest.symbols.map fun symbol =>
        (symbol, maskedDevice symbol)) ⊆ targets.entries := by
      intro target member
      obtain ⟨symbol, listed, rfl⟩ := List.mem_map.mp member
      exact validateMaskTarget_eq_ok.mp (each symbol listed)
    have whole := (nodup.subperm inside).perm_of_length_le
      (by rw [List.length_map, count])
    have back := (whole.trans perm).map markOf
    rw [List.map_map, OrderedMap.empty, List.append_nil, ← same] at back
    exact back.symm
  · intro perm
    have decoded : marks (fdt.properties.entries.map flatProperty) ∈
        Set.range (List.map markOf) := by
      rw [Set.range_list_map]
      intro mark member
      obtain ⟨symbol, _, rfl⟩ := List.mem_map.mp (perm.mem_iff.mp member)
      exact ⟨_, rfl⟩
    obtain ⟨found, same⟩ := decoded
    have perm : found.Perm (manifest.symbols.map fun symbol =>
        (symbol, maskedDevice symbol)) := by
      rw [← List.map_perm_map_iff markOf_injective, List.map_map, same]
      exact perm
    have keys := perm.map Prod.fst
    rw [keyed] at keys
    have noNul : ∀ target ∈ found, (0 : UInt8) ∉ target.1.utf8 := by
      intro target member
      have symbol := keys.mem_iff.mp (List.mem_map_of_mem member)
      exact (names _ symbol).noNul
    have fresh : (found.map Prod.fst ++
        (OrderedMap.empty : OrderedMap Text Text).keys).Nodup := by
      rw [OrderedMap.empty, OrderedMap.keys, List.map_nil, List.append_nil]
      exact keys.nodup_iff.mpr distinct
    obtain ⟨targets, collected, entries⟩ :
        ∃ result, maskTargets quote path fdt.properties.entries .empty =
          .ok result ∧ result.entries.Perm
            (found ++ OrderedMap.empty.entries) :=
      maskTargets_of_marks same.symm noNul fresh
    rw [OrderedMap.empty, List.append_nil] at entries
    have entries := entries.trans perm
    rw [validateMaskTargets, Run.bind_eq_ok]
    refine ⟨targets, collected, ?_⟩
    rw [Run.bind_eq_ok]
    refine ⟨(), Run.ensure_of (by rw [entries.length_eq, List.length_map]) _,
      forM_eq_ok.mpr fun symbol member => ?_⟩
    rw [validateMaskTarget_eq_ok, entries.mem_iff]
    exact List.mem_map_of_mem member

theorem flatProperty_injective : Function.Injective flatProperty := by
  rintro ⟨key, value⟩ ⟨key', value'⟩ same
  obtain ⟨paths, rest⟩ := Prod.mk.inj same
  obtain ⟨names, rfl⟩ := Prod.mk.inj rest
  have paths : (ofLex key).1 = (ofLex key').1 := Text.utf8_inj paths
  have names : (ofLex key).2 = (ofLex key').2 :=
    Text.utf8_inj (Option.some.inj names)
  exact congrArg (fun key : Text × Text => (toLex key, value))
    (Prod.ext paths names)

theorem maskedDevice_utf8 (symbol : Text) : (maskedDevice symbol).utf8 =
    Text.utf8 "/masked-devices/".toList ++ symbol.utf8 :=
  Text.utf8_append _ _

theorem maskedDevice_noNul {symbol : Text} (name : IsSymbol symbol) :
    (0 : UInt8) ∉ (maskedDevice symbol).utf8 := by
  have literal : Char.ofNat 0 ∉ "/masked-devices/".toList := by decide
  rw [maskedDevice_utf8, List.mem_append, not_or]
  exact ⟨Text.zero_notMem_utf8 literal, name.noNul⟩

/-- The check of an exported symbol: it names its node, and there is a node
with that path. -/
theorem validateMaskSymbol_eq_ok {fdt : FdtContents} {symbol : Text}
    (name : IsSymbol symbol) :
    validateMaskSymbol quote fdt path symbol = .ok () ↔
      (Text.utf8 "/__symbols__".toList, some symbol.utf8,
          (maskedDevice symbol).utf8 ++ [0]) ∈
        fdt.properties.entries.map flatProperty ∧
      (maskedDevice symbol).utf8 ∈ fdt.nodes.keys.map Text.utf8 := by
  have free := maskedDevice_noNul name
  have held : ∀ value : Bytes,
      (Text.utf8 "/__symbols__".toList, some symbol.utf8, value) ∈
        fdt.properties.entries.map flatProperty ↔
      fdt.properties.get (toLex ("/__symbols__".toList, symbol)) =
        some value := by
    intro value
    have same : (Text.utf8 "/__symbols__".toList, some symbol.utf8, value) =
        flatProperty (toLex ("/__symbols__".toList, symbol), value) := rfl
    rw [OrderedMap.get_eq_some, same]
    exact List.mem_map_of_injective flatProperty_injective
  have sited : (maskedDevice symbol).utf8 ∈ fdt.nodes.keys.map Text.utf8 ↔
      fdt.nodes.get (maskedDevice symbol) ≠ none := by
    rw [Ne, OrderedMap.get_eq_none, not_not]
    exact List.mem_map_of_injective fun _ _ => Text.utf8_inj
  rw [held, sited]
  constructor
  · intro valid
    obtain ⟨value, found, valid⟩ := Run.bind_eq_ok.mp valid
    obtain ⟨text, read, valid⟩ := Run.bind_eq_ok.mp valid
    obtain ⟨_, expected, valid⟩ := Run.bind_eq_ok.mp valid
    rw [Run.ofOption_eq_ok] at found
    rw [Run.mapError_eq_ok, fdtString_eq_ok] at read
    rw [Run.ensure_eq_ok] at expected valid
    rw [found, read.2, expected]
    exact ⟨rfl, valid⟩
  · rintro ⟨found, valid⟩
    have read := fdtString_eq_ok.mpr ⟨free, rfl⟩
    rw [validateMaskSymbol, found]
    dsimp only [Run.ofOption, Run.ok_bind]
    rw [read]
    dsimp only [Run.mapError, Run.ok_bind]
    rw [Run.ensure_of rfl, Run.ok_bind]
    exact Run.ensure_of valid _

/-- The check of the exported symbols. -/
theorem validateMaskSymbols_eq_ok {fdt : FdtContents}
    {manifest : DtboMaskManifest}
    (names : ∀ symbol ∈ manifest.symbols, IsSymbol symbol) :
    validateMaskSymbols quote fdt manifest path = .ok () ↔
      ∀ symbol ∈ manifest.symbols,
        (Text.utf8 "/__symbols__".toList, some symbol.utf8,
            (maskedDevice symbol).utf8 ++ [0]) ∈
          fdt.properties.entries.map flatProperty ∧
        (maskedDevice symbol).utf8 ∈ fdt.nodes.keys.map Text.utf8 := by
  rw [validateMaskSymbols, forM_eq_ok]
  exact forall₂_congr fun symbol member =>
    validateMaskSymbol_eq_ok (names symbol member)

end

end Pocketboot.DtboMask
