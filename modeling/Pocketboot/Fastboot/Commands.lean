import Pocketboot.Base.Stateful
import Pocketboot.Base.Text

/-!
# Fastboot commands

The constants of the fastboot server, the errors it tells apart, and how a
command line is matched to its handler.
-/

namespace Pocketboot.Fastboot

def commandMax : Nat := 64
def downloadPrefix : Text := "download:".toList
def maxDownloadSize : Nat := 256 * 1024 * 1024
def transferChunk : Nat := 1024 * 1024
def responseMax : Nat := 64
def responseStatusLen : Nat := 4
def responsePayloadMax : Nat := responseMax - responseStatusLen

/-! ## Errors -/

/-- An error with the number the kernel gave for it. -/
structure OsError where
  error : IoError
  rawOsError : Option Nat
  deriving DecidableEq, Repr

/-- An error the code makes itself. -/
def OsError.plain (error : IoError) : OsError := ⟨error, none⟩

def eio : Nat := 5
def enodev : Nat := 19
def epipe : Nat := 32
def econnreset : Nat := 104
def eshutdown : Nat := 108

def isUsbDisconnect (error : OsError) : Bool :=
  error.rawOsError ∈
      [some eshutdown, some epipe, some enodev, some econnreset, some eio] ||
    error.error.kind ∈
      [.brokenPipe, .connectionAborted, .connectionReset, .notConnected]

/-! ## The command table -/

/-- The handlers that touch the staging area; the others are one case. -/
inductive Handler where
  | boot
  | kexecLoad
  | flash
  | cat
  | dmesg
  | shell
  | shellStaged
  | other
  deriving DecidableEq, Repr

inductive CommandMatch where
  | exact
  | startsWith
  deriving DecidableEq, Repr

structure Command where
  name : Text
  matchKind : CommandMatch
  handler : Handler
  deriving DecidableEq, Repr

/-- `fastboot_commands`, in the order of the table. -/
def fastbootCommands : List Command :=
  [⟨"boot".toList, .exact, .boot⟩,
    ⟨"oem kexec-load".toList, .exact, .kexecLoad⟩,
    ⟨"oem kexec-status".toList, .exact, .other⟩,
    ⟨"getvar:".toList, .startsWith, .other⟩,
    ⟨"flash:".toList, .startsWith, .flash⟩,
    ⟨"erase:".toList, .startsWith, .other⟩,
    ⟨"set_active:".toList, .startsWith, .other⟩,
    ⟨"oem cat:".toList, .startsWith, .cat⟩,
    ⟨"oem dmesg".toList, .exact, .dmesg⟩,
    ⟨"oem shell:".toList, .startsWith, .shell⟩,
    ⟨"oem shell-staged".toList, .exact, .shellStaged⟩,
    ⟨"oem ums-start:".toList, .startsWith, .other⟩,
    ⟨"oem ums-stop:".toList, .startsWith, .other⟩,
    ⟨"reboot".toList, .exact, .other⟩,
    ⟨"reboot-bootloader".toList, .exact, .other⟩]

/-- An exact match wins over any prefix. -/
def findCommandHandler (commands : List Command) (command : Text) :
    Option Handler :=
  let exact := commands.find? fun entry =>
    entry.matchKind = .exact ∧ entry.name = command
  let starts := commands.find? fun entry =>
    entry.matchKind = .startsWith ∧ entry.name.isPrefixOf command
  (exact.orElse fun _ => starts).map Command.handler

/-- What `run_once` does with a command line. -/
inductive Dispatch where
  | notUtf8
  | leave
  | upload
  | download (command : Text)
  | handler (handler : Handler) (command : Text)
  | unsupported
  deriving DecidableEq, Repr

def dispatch (line : Bytes) : Dispatch :=
  match Text.ofUtf8 line with
  | none => .notUtf8
  | some command =>
      if command = "continue".toList then .leave
      else if command = "upload".toList ∨ command = "get_staged".toList then
        .upload
      else if downloadPrefix.isPrefixOf command then .download command
      else
        match findCommandHandler fastbootCommands command with
        | some handler => .handler handler command
        | none => .unsupported

/-- The size of a download; `none` without the prefix. -/
def parseDownloadCommand (command : Text) : Run OsError (Option Nat) :=
  match Text.stripPrefix downloadPrefix command with
  | none => .ok none
  | some size =>
      if size.utf8.length ≠ 8 then
        Run.fail (.plain (invalidInput "download size must be 8 hex digits"))
      else
        match Text.parseU32 16 size with
        | some value => .ok (some value)
        | none => Run.fail (.plain (invalidInput "invalid download size"))

/-- The command line of a packet ends before its first NUL. -/
def commandLine {β : Type} (value : β → UInt8) (packet : List β) : List β :=
  packet.takeWhile fun item => value item ≠ 0

end Pocketboot.Fastboot
