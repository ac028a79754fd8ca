import Pocketboot.Base.Split

/-!
# Paths

The components of a path of bytes, and how paths are put together.  A path that
is pushed onto another is read as the components of both, unless it starts at
the root.
-/

namespace Pocketboot.BootMenu

/-- A component of a path, in the order in which paths compare them. -/
inductive PathComponent where
  | rootDir
  | curDir
  | parentDir
  | normal (name : Bytes)
  deriving DecidableEq, Repr

def separator : UInt8 := 47

/-- The component that a piece between separators is, behind the first one. -/
def componentOf (piece : Bytes) : Option PathComponent :=
  if piece = [] ∨ piece = [46] then none
  else if piece = [46, 46] then some .parentDir
  else some (.normal piece)

def isAbsolute (path : Bytes) : Bool := path.head? = some separator

/-- What a path begins with, besides its pieces: the root, or a `.`. -/
def lead (path : Bytes) : List PathComponent :=
  if isAbsolute path then [.rootDir]
  else if (path.splitOn separator).head? = some [46] then [.curDir]
  else []

def components (path : Bytes) : List PathComponent :=
  lead path ++ (path.splitOn separator).filterMap componentOf

/-- `PathBuf::push`. -/
def push (buffer path : Bytes) : Bytes :=
  if isAbsolute path then path
  else if buffer = [] ∨ buffer.getLast? = some separator then buffer ++ path
  else buffer ++ separator :: path

/-- `Path::join`. -/
def join (root path : Bytes) : Bytes := push root path

/-! ## Names -/

/-- A name that is a component of its own. -/
structure NormalName (name : Bytes) : Prop where
  filled : name ≠ []
  whole : separator ∉ name
  notHere : name ≠ [46]
  notParent : name ≠ [46, 46]

theorem componentOf_normal {name : Bytes} (normal : NormalName name) :
    componentOf name = some (.normal name) := by
  rw [componentOf, if_neg (not_or.mpr ⟨normal.filled, normal.notHere⟩),
    if_neg normal.notParent]

theorem normalName_of_componentOf {piece name : Bytes}
    (whole : separator ∉ piece)
    (normal : componentOf piece = some (.normal name)) : NormalName name := by
  unfold componentOf at normal
  split at normal
  · cases normal
  · rename_i named
    split at normal
    · cases normal
    · rename_i notParent
      obtain rfl := PathComponent.normal.inj (Option.some.inj normal)
      exact ⟨fun empty => named (.inl empty), whole,
        fun here => named (.inr here), notParent⟩

/-! ## Paths of names -/

/-- A path that is nothing but some names. -/
structure Relative (path : Bytes) (names : List Bytes) : Prop where
  filled : names ≠ []
  normal : ∀ name ∈ names, NormalName name
  pieces : path.splitOn separator = names

theorem NormalName.relative {name : Bytes} (normal : NormalName name) :
    Relative name [name] where
  filled := by simp
  normal := by simpa using normal
  pieces := List.splitOn_eq_singleton normal.whole

theorem splitOn_separator (front back : Bytes) :
    (front ++ separator :: back).splitOn separator =
      front.splitOn separator ++ back.splitOn separator :=
  List.splitOn_append_cons_self front back

theorem filterMap_normal {names : List Bytes}
    (normal : ∀ name ∈ names, NormalName name) :
    names.filterMap componentOf = names.map .normal :=
  List.filterMap_eq_map_iff_forall_eq_some.mpr fun name member =>
    componentOf_normal (normal name member)

namespace Relative

variable {path tail root : Bytes} {names others : List Bytes}

theorem path_ne_nil (relative : Relative path names) : path ≠ [] := by
  rintro rfl
  have pieces := relative.pieces
  rw [List.splitOn_nil] at pieces
  exact (relative.normal [] (pieces ▸ List.mem_singleton_self _)).filled rfl

theorem notAbsolute (relative : Relative path names) :
    isAbsolute path = false := by
  cases path with
  | nil => rfl
  | cons byte path =>
      rw [isAbsolute, List.head?_cons, decide_eq_false_iff_not]
      intro same
      obtain rfl := Option.some.inj same
      have pieces := relative.pieces
      rw [List.splitOn_cons_eq_if_modifyHead, if_pos (beq_self_eq_true _)]
        at pieces
      exact (relative.normal [] (pieces ▸ List.mem_cons_self)).filled rfl

/-- Its last byte is in its last name. -/
theorem getLast?_ne (relative : Relative path names) :
    path.getLast? ≠ some separator := by
  intro ends
  obtain ⟨front, rfl⟩ := List.getLast?_eq_some_iff.mp ends
  have pieces := relative.pieces
  rw [splitOn_separator, List.splitOn_nil] at pieces
  have empty : [] ∈ names := by
    rw [← pieces]
    exact List.mem_append_right _ (List.mem_singleton_self _)
  exact (relative.normal [] empty).filled rfl

theorem components_eq (relative : Relative path names) :
    components path = names.map .normal := by
  have first : (path.splitOn separator).head? ≠ some [46] := by
    rw [relative.pieces]
    intro here
    exact (relative.normal _ (List.mem_of_head? here)).notHere rfl
  rw [components, lead, relative.notAbsolute, if_neg Bool.false_ne_true,
    if_neg first, List.nil_append, relative.pieces,
    filterMap_normal relative.normal]

/-- What is pushed onto names follows them. -/
theorem push (relative : Relative path names) (more : Relative tail others) :
    Relative (push path tail) (names ++ others) where
  filled := by simp [relative.filled]
  normal name member := by
    rcases List.mem_append.mp member with front | back
    · exact relative.normal name front
    · exact more.normal name back
  pieces := by
    rw [BootMenu.push, more.notAbsolute, if_neg Bool.false_ne_true,
      if_neg (not_or.mpr ⟨relative.path_ne_nil, relative.getLast?_ne⟩),
      splitOn_separator, relative.pieces, more.pieces]

end Relative

/-- A path starts in the same way when more is put behind a separator. -/
theorem components_separator (front back : Bytes) :
    components (front ++ separator :: back) =
      components (front ++ [separator]) ++
        (back.splitOn separator).filterMap componentOf := by
  have same : lead (front ++ separator :: back) =
      lead (front ++ [separator]) := by
    unfold lead isAbsolute
    rw [splitOn_separator, splitOn_separator, List.head?_append,
      List.head?_append, List.head?_append, List.head?_append]
    obtain ⟨first, rest, pieces⟩ := List.exists_cons_of_ne_nil
      (List.splitOn_ne_nil separator front)
    rw [pieces]
    rfl
  have empty : componentOf [] = none := rfl
  rw [components, components, same, splitOn_separator, splitOn_separator,
    List.filterMap_append, List.filterMap_append, List.splitOn_nil,
    List.filterMap_cons_none empty, List.filterMap_nil, List.append_nil,
    List.append_assoc]

theorem components_trailing {front : Bytes} (filled : front ≠ []) :
    components (front ++ [separator]) = components front := by
  have same : lead (front ++ [separator]) = lead front := by
    unfold lead isAbsolute
    obtain ⟨byte, rest, rfl⟩ := List.exists_cons_of_ne_nil filled
    obtain ⟨first, pieces, split⟩ := List.exists_cons_of_ne_nil
      (List.splitOn_ne_nil separator (byte :: rest))
    rw [splitOn_separator, split]
    rfl
  have empty : componentOf [] = none := rfl
  rw [components, components, same, splitOn_separator, List.filterMap_append,
    List.splitOn_nil, List.filterMap_cons_none empty, List.filterMap_nil,
    List.append_nil]

/-- A path of names that is pushed onto a root stays below it. -/
theorem Relative.components_join {path : Bytes} {names : List Bytes}
    (relative : Relative path names) (root : Bytes) :
    components (join root path) = components root ++ names.map .normal := by
  unfold join BootMenu.push
  rw [relative.notAbsolute, if_neg Bool.false_ne_true]
  by_cases empty : root = []
  · subst empty
    rw [if_pos (.inl rfl), List.nil_append, relative.components_eq]
    rfl
  · by_cases ends : root.getLast? = some separator
    · rw [if_pos (.inr ends)]
      obtain ⟨front, rfl⟩ := List.getLast?_eq_some_iff.mp ends
      rw [List.append_assoc, List.singleton_append, components_separator,
        relative.pieces, filterMap_normal relative.normal]
    · rw [if_neg (not_or.mpr ⟨empty, ends⟩), components_separator,
        components_trailing empty, relative.pieces,
        filterMap_normal relative.normal]

theorem Relative.prefix_join {path : Bytes} {names : List Bytes}
    (relative : Relative path names) (root : Bytes) :
    root <+: join root path := by
  unfold join BootMenu.push
  rw [relative.notAbsolute, if_neg Bool.false_ne_true]
  split <;> exact List.prefix_append _ _

end Pocketboot.BootMenu
