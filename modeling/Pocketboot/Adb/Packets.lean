import Pocketboot.Base.Text

/-!
# ADB packets and services

The packets of the debug bridge, and the service an `OPEN` packet names.
-/

namespace Pocketboot.Adb

def aSync : UInt32 := 0x434e5953
def aCnxn : UInt32 := 0x4e584e43
def aOpen : UInt32 := 0x4e45504f
def aOkay : UInt32 := 0x59414b4f
def aClse : UInt32 := 0x45534c43
def aWrte : UInt32 := 0x45545257
def aAuth : UInt32 := 0x48545541
def aStls : UInt32 := 0x534c5453

def aVersion : UInt32 := 0x01000001
def maxPayloadV1 : UInt32 := 4 * 1024
def maxPayload : UInt32 := 1024 * 1024
def shellChunk : Nat := 4 * 1024
def syncChunk : Nat := 64 * 1024

/-- A packet; its lengths and checks are those of its payload. -/
structure Packet where
  command : UInt32
  arg0 : UInt32
  arg1 : UInt32
  payload : Bytes
  deriving DecidableEq, Repr

/-- What the host is told when it connects. -/
def connectionBanner : Bytes :=
  Text.utf8 "recovery::ro.product.name=pocketboot;ro.product.model=pocketboot;ro.product.device=pocketboot;features=".toList

inductive AdbService where
  | shell (command : Option Text)
  | exec (command : Text)
  | sync
  deriving DecidableEq, Repr

/-- The service name of an `OPEN` payload; one trailing NUL is dropped. -/
def serviceName (payload : Bytes) : Run IoError Text :=
  let name := if payload.getLast? = some 0 then payload.dropLast else payload
  Run.ofOption (invalidData "adb service is not utf-8") (Text.ofUtf8 name)

def adbService (service : Text) : Option AdbService :=
  if service = "shell".toList ∨ service = "shell:".toList then
    some (.shell none)
  else if service = "sync:".toList then some .sync
  else
    match Text.stripPrefix "exec:".toList service with
    | some command => some (.exec command)
    | none =>
        (Text.stripPrefix "shell:".toList service).map (AdbService.shell ∘ some)

/-- The sessions of a sync service acknowledge a `WRTE` before they use it. -/
def AdbService.acknowledgeBeforeWrite : AdbService → Bool
  | .sync => true
  | _ => false

example : adbService "shell:ls /".toList = some (.shell (some "ls /".toList)) :=
  by decide +kernel

end Pocketboot.Adb
