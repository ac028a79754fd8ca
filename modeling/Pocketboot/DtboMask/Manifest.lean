import Pocketboot.Base.Utf8
import Pocketboot.DtboMask.Fdt

/-!
# Masks for device tree overlays

A manifest lists the symbols that the overlays of a device refer to.  The
kernel build gives each a node under `/masked-devices`, checks that the tree
exports the symbols as these nodes (`validate_mask_symbols`), and applies an
overlay that marks every symbol's node and checks where the marks are
(`validate_mask_targets`).  `quote` is the formatting of a string between
quotes.
-/

namespace Pocketboot.DtboMask

def dtboMaskFormat : Nat := 1

def dtboMaskValidationProperty : Text := "pocketboot,dtbo-mask-target".toList

structure DtboMaskManifest where
  format : Nat
  source : Text
  sourceSha256 : Text
  dtboEntries : Nat
  symbols : List Text
  deriving DecidableEq, Repr

/-- `is_ascii_digit`, or a lower-case hexadecimal letter. -/
def isLowerHex (byte : UInt8) : Bool :=
  (48 ≤ byte && byte ≤ 57) || (97 ≤ byte && byte ≤ 102)

/-- An ASCII letter or an underscore. -/
def startsSymbol (byte : UInt8) : Bool :=
  (97 ≤ byte && byte ≤ 122) || (65 ≤ byte && byte ≤ 90) || byte = 95

/-- `is_ascii_alphanumeric`, or an underscore. -/
def continuesSymbol (byte : UInt8) : Bool :=
  (48 ≤ byte && byte ≤ 57) || (65 ≤ byte && byte ≤ 90) ||
    (97 ≤ byte && byte ≤ 122) || byte = 95

def validDtboSymbol (symbol : Text) : Bool :=
  match symbol.utf8 with
  | [] => false
  | first :: rest => startsSymbol first && rest.all continuesSymbol

section

variable (quote : Text → String)

/-- The loop over the symbols, after the one before them. -/
def validateSymbols (path : String) : Option Text → List Text →
    Run String Unit
  | _, [] => .ok ()
  | previous, symbol :: rest => do
      Run.ensure (validDtboSymbol symbol)
        s!"{path}: invalid DTBO fixup symbol {quote symbol}"
      if let some previous := previous then
        let reason := if symbol = previous then "duplicate" else "not sorted"
        Run.ensure (¬symbol ≤ previous)
          s!"{path}: DTBO fixup symbols are {reason} near {quote symbol}"
      validateSymbols path (some symbol) rest

def validateDtboMaskManifest (manifest : DtboMaskManifest) (path : String) :
    Run String Unit := do
  Run.ensure (manifest.format = dtboMaskFormat)
    (s!"{path}: unsupported DTBO mask format {manifest.format}; expected " ++
      toString dtboMaskFormat)
  Run.ensure (Text.trim manifest.source ≠ [])
    s!"{path}: DTBO mask source is empty"
  Run.ensure (manifest.sourceSha256.utf8.length = 64 ∧
      manifest.sourceSha256.utf8.all isLowerHex)
    (s!"{path}: DTBO mask source_sha256 must be " ++
      "64 lowercase hexadecimal characters")
  Run.ensure (manifest.dtboEntries ≠ 0)
    s!"{path}: DTBO mask must describe at least one DTBO table entry"
  Run.ensure (manifest.symbols ≠ [])
    s!"{path}: DTBO mask symbol list is empty"
  validateSymbols quote path none manifest.symbols

/-- The path of the node of a symbol. -/
def maskedDevice (symbol : Text) : Text := "/masked-devices/".toList ++ symbol

/-- The body of the loop of `validate_mask_symbols`. -/
def validateMaskSymbol (fdt : FdtContents) (path : String) (symbol : Text) :
    Run String Unit := do
  let value ← Run.ofOption
    s!"{path}: generated DTBO mask did not export symbol {quote symbol}"
    (fdt.properties.get (toLex ("/__symbols__".toList, symbol)))
  let value ← (fdtString value).mapError fun err =>
    s!"{path}: invalid /__symbols__/{String.ofList symbol} value: {err}"
  let expected := maskedDevice symbol
  Run.ensure (value = expected)
    (s!"{path}: DTBO fixup symbol {quote symbol} resolves to " ++
      s!"{quote value}, expected {quote expected}")
  Run.ensure (fdt.nodes.get expected ≠ none)
    (s!"{path}: DTBO fixup symbol {quote symbol} resolves to missing node " ++
      String.ofList expected)

def validateMaskSymbols (fdt : FdtContents) (manifest : DtboMaskManifest)
    (path : String) : Run String Unit :=
  manifest.symbols.forM (validateMaskSymbol quote fdt path)

/-- The loop over the properties: the marks in the tree, with their places. -/
def maskTargets (path : String) : List ((Text ×ₗ Text) × Bytes) →
    OrderedMap Text Text → Run String (OrderedMap Text Text)
  | [], targets => .ok targets
  | (key, value) :: rest, targets => do
      let (nodePath, name) := ofLex key
      if name ≠ dtboMaskValidationProperty then
        maskTargets path rest targets
      else
        let symbol ← (fdtString value).mapError fun err =>
          s!"{path}: invalid {String.ofList dtboMaskValidationProperty} " ++
            s!"at {String.ofList nodePath}: {err}"
        Run.ensure (targets.get symbol = none)
          s!"{path}: duplicate DTBO mask validation target for {quote symbol}"
        maskTargets path rest (targets.insert symbol nodePath)

/-- The body of the loop over the symbols. -/
def validateMaskTarget (targets : OrderedMap Text Text) (path : String)
    (symbol : Text) : Run String Unit :=
  let expected := maskedDevice symbol
  match targets.get symbol with
  | some actual =>
      Run.ensure (actual = expected)
        (s!"{path}: DTBO fixup {quote symbol} landed at " ++
          s!"{String.ofList actual}, outside {String.ofList expected}")
  | none =>
      Run.fail (s!"{path}: DTBO fixup {quote symbol} did not land in " ++
        "/masked-devices")

def validateMaskTargets (fdt : FdtContents) (manifest : DtboMaskManifest)
    (path : String) : Run String Unit := do
  let targets ← maskTargets quote path fdt.properties.entries .empty
  Run.ensure (targets.entries.length = manifest.symbols.length)
    (s!"{path}: only {targets.entries.length} of " ++
      s!"{manifest.symbols.length} DTBO fixups reached a validation target")
  manifest.symbols.forM (validateMaskTarget quote targets path)

end

end Pocketboot.DtboMask
