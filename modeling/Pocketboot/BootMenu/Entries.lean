import Pocketboot.Base.Text

/-!
# Boot entries and the menu rows made from them

The coordinator keeps all entries of a discovery list; the menu has a row for
each entry that can be booted directly, and remembers where in the list the
entry of each row stands.
-/

namespace Pocketboot.BootMenu

inductive BootPartitionRole where
  | xbootldr
  | esp
  | nested
  deriving DecidableEq, Repr

/-- The two readings of a path the menu shows. -/
structure SourcePath where
  fileName : Option Text
  whole : Option Text
  deriving DecidableEq, Repr

/-- The fields of an entry the menu is made from. -/
structure BootEntry where
  id : Text
  title : Option Text
  version : Option Text
  architecture : Option Text
  source : SourcePath
  role : BootPartitionRole
  disk : Text
  partition : Text
  preferred : Bool
  options : List Text
  deriving DecidableEq, Repr

namespace BootEntry

def cmdline (entry : BootEntry) : Text :=
  List.intercalate [' '] entry.options

/-- No argument of the command line starts with `$`. -/
def isDirectlyBootable (entry : BootEntry) : Bool :=
  !(Text.splitWhitespace entry.cmdline).any fun arg => arg.head? = some '$'

end BootEntry

structure BootMenuEntryInfo where
  title : Text
  subtitle : Text
  detail : Text
  badge : Text
  deriving DecidableEq, Repr

/-- A field that is there and not blank, without the blanks around it. -/
def shownField (field : Option Text) : Option Text :=
  (field.map Text.trim).filter fun value => !value.isEmpty

def bootEntryTitle (entry : BootEntry) : Text :=
  (shownField entry.title).getD entry.id

def bootEntrySubtitle (entry : BootEntry) : Text :=
  let parts :=
    (shownField entry.version).toList ++ (shownField entry.architecture).toList
  if parts.isEmpty then "Ready to boot".toList
  else List.intercalate " - ".toList parts

def bootEntryDetail (entry : BootEntry) : Text :=
  let source :=
    entry.source.fileName.getD (entry.source.whole.getD "boot entry".toList)
  entry.disk ++ ':' :: entry.partition ++ " - ".toList ++ source

def bootEntryBadge (entry : BootEntry) : Text :=
  let role := match entry.role with
    | .xbootldr => "xbootldr".toList
    | .esp => "esp".toList
    | .nested => "nested".toList
  if entry.preferred then "default ".toList ++ role else role

def menuInfo (entry : BootEntry) : BootMenuEntryInfo where
  title := bootEntryTitle entry
  subtitle := bootEntrySubtitle entry
  detail := bootEntryDetail entry
  badge := bootEntryBadge entry

/-- The loop of `boot_menu_entries`, at an index of the list. -/
def bootMenuEntriesFrom : Nat → List BootEntry →
    List Nat × List BootMenuEntryInfo
  | _, [] => ([], [])
  | index, entry :: rest =>
      let (indices, entries) := bootMenuEntriesFrom (index + 1) rest
      if entry.isDirectlyBootable then
        (index :: indices, menuInfo entry :: entries)
      else (indices, entries)

def bootMenuEntries (bootEntries : List BootEntry) :
    List Nat × List BootMenuEntryInfo :=
  bootMenuEntriesFrom 0 bootEntries

/-! ## What the rows stand for -/

/-- The entries of a list that have a row, in the order of the rows. -/
def menuRows (bootEntries : List BootEntry) : List BootEntry :=
  bootEntries.filter BootEntry.isDirectlyBootable

private theorem bootMenuEntriesFrom_rows (front entries : List BootEntry) :
    (bootMenuEntriesFrom front.length entries).2 =
        (menuRows entries).map menuInfo ∧
      ∀ row : Nat, ((bootMenuEntriesFrom front.length entries).1[row]?).bind
        (fun index => (front ++ entries)[index]?) = (menuRows entries)[row]? := by
  induction entries generalizing front with
  | nil => simp [bootMenuEntriesFrom, menuRows]
  | cons entry rest induction =>
      obtain ⟨infos, indices⟩ := induction (front ++ [entry])
      simp only [List.length_append, List.length_singleton, List.append_assoc,
        List.singleton_append] at infos indices
      unfold menuRows at infos indices ⊢
      by_cases bootable : entry.isDirectlyBootable
      · simp only [bootMenuEntriesFrom, bootable, if_true,
          List.filter_cons_of_pos, List.map_cons, infos, true_and]
        intro row
        cases row with
        | zero => simp
        | succ row => simpa using indices row
      · simp only [bootMenuEntriesFrom, bootable, Bool.false_eq_true, if_false,
          List.filter_cons_of_neg bootable, infos, true_and]
        exact indices

/-- A row shows the entry it stands for. -/
theorem bootMenuEntries_infos (entries : List BootEntry) :
    (bootMenuEntries entries).2 = (menuRows entries).map menuInfo :=
  (bootMenuEntriesFrom_rows [] entries).1

/-- The remembered index of a row leads back to its entry. -/
theorem bootMenuEntries_indices (entries : List BootEntry) (row : Nat) :
    ((bootMenuEntries entries).1[row]?).bind (fun index => entries[index]?) =
      (menuRows entries)[row]? :=
  (bootMenuEntriesFrom_rows [] entries).2 row

end Pocketboot.BootMenu
