import Pocketboot.Base.Utf8
import Pocketboot.BootMenu.Paths

/-!
# Paths of boot files

A boot configuration names its files with paths, and a device tree is looked
for under names made of compatible strings.  Neither leads out of the directory
that it is resolved in.
-/

namespace Pocketboot.BootMenu

open Text

/-- The body of the loop of `resolve_boot_path`. -/
def pushComponent (quoted : String) (relative : Bytes) :
    PathComponent → Run IoError Bytes
  | .normal part => .ok (push relative part)
  | .curDir => .ok relative
  | .rootDir => .ok relative
  | .parentDir => Run.fail (invalidData s!"unsafe boot path {quoted}")

/-- `quote` is the formatting of a string between quotes. -/
def resolveBootPath (quote : Text → String) (root : Bytes) (value : Text) :
    Run IoError Bytes := do
  let value := trim value
  let quoted := quote value
  Run.ensure (value ≠ []) (invalidData "empty boot path")
  let relative ← (components (utf8 (value.dropWhile (· = '/')))).foldlM
    (pushComponent quoted) []
  Run.ensure (relative ≠ []) (invalidData s!"empty boot path {quoted}")
  return join root relative

structure CompatibleName where
  vendor : Text
  name : Text
  deriving DecidableEq, Repr

/-- `is_ascii_alphanumeric`, or one of three marks. -/
def isNamePart (byte : UInt8) : Bool :=
  (48 ≤ byte && byte ≤ 57) || (65 ≤ byte && byte ≤ 90) ||
    (97 ≤ byte && byte ≤ 122) || byte = 45 || byte = 95 || byte = 46

def safeDtbNamePart (value : Text) : Option Text :=
  let value := trim value
  if value ≠ [] ∧ value ≠ ['.'] ∧ value ≠ ['.', '.'] ∧
    value.utf8.all isNamePart then some value
  else none

def parseCompatibleName (compatible : Text) : Option CompatibleName := do
  let (vendor, name) ← splitOnce ',' compatible
  let vendor ← safeDtbNamePart vendor
  let name ← safeDtbNamePart name
  return ⟨vendor, name⟩

/-- Paths are equal when their components are. -/
def pushUniquePath (paths : List Bytes) (path : Bytes) : List Bytes :=
  if paths.any fun existing => components existing = components path then paths
  else paths ++ [path]

def dtb : Text := ".dtb".toList

def pushDtbCandidatePaths (paths : List Bytes) (compatible : CompatibleName) :
    List Bytes :=
  let paths := pushUniquePath paths
    (join compatible.vendor.utf8 (compatible.name ++ dtb).utf8)
  let paths := pushUniquePath paths (compatible.name ++ dtb).utf8
  pushUniquePath paths
    (compatible.vendor ++ ',' :: (compatible.name ++ dtb)).utf8

/-- The body of the inner loop of `fdtdir_candidate_paths`. -/
def pushSocPaths (board : CompatibleName) (paths : List Bytes)
    (soc : CompatibleName) : List Bytes :=
  let paths := pushUniquePath paths (join soc.vendor.utf8
    (soc.name ++ '-' :: (board.vendor ++ '-' :: (board.name ++ dtb))).utf8)
  pushUniquePath paths
    (join soc.vendor.utf8 (soc.name ++ '-' :: (board.name ++ dtb)).utf8)

/-- The loop over the boards; the socs of a board are the names behind it. -/
def boardLoop : List CompatibleName → List Bytes → List Bytes
  | [], paths => paths
  | board :: socs, paths =>
      boardLoop socs
        (socs.foldl (pushSocPaths board) (pushDtbCandidatePaths paths board))

def fdtdirCandidatePaths (compatibles : List Text) : List Bytes :=
  boardLoop (compatibles.filterMap parseCompatibleName) []

def selectFdtdirDtb (isFile : Bytes → Bool) (fdtdir : Bytes)
    (compatibles : List Text) : Option Bytes :=
  ((fdtdirCandidatePaths compatibles).map (join fdtdir)).find? isFile

example : fdtdirCandidatePaths ["oneplus,fajita".toList, "qcom,sdm845".toList] =
    ["oneplus/fajita.dtb", "fajita.dtb", "oneplus,fajita.dtb",
      "qcom/sdm845-oneplus-fajita.dtb", "qcom/sdm845-fajita.dtb",
      "qcom/sdm845.dtb", "sdm845.dtb", "qcom,sdm845.dtb"].map
        fun path => utf8 path.toList := by
  decide +kernel

/-! ## Boot paths -/

/-- What the loop has built: nothing yet, or a path of names. -/
def Built (relative : Bytes) : Prop :=
  relative = [] ∨ ∃ names, Relative relative names

theorem Built.push {relative part : Bytes} (built : Built relative)
    (normal : NormalName part) : Built (push relative part) := by
  rcases built with rfl | ⟨names, path⟩
  · refine .inr ⟨[part], ?_⟩
    rw [BootMenu.push, normal.relative.notAbsolute, if_neg Bool.false_ne_true,
      if_pos (.inl rfl), List.nil_append]
    exact normal.relative
  · exact .inr ⟨_, path.push normal.relative⟩

theorem normalName_of_mem {path name : Bytes}
    (member : .normal name ∈ components path) : NormalName name := by
  rcases List.mem_append.mp member with leads | follows
  · unfold lead at leads
    split at leads
    · simp at leads
    · split at leads <;> simp at leads
  · obtain ⟨piece, inside, normal⟩ := List.mem_filterMap.mp follows
    exact normalName_of_componentOf (Bytes.notMem_splitOn inside) normal

theorem foldlM_pushComponent {quoted : String} {parts : List PathComponent}
    {relative result : Bytes} (built : Built relative)
    (normal : ∀ name, .normal name ∈ parts → NormalName name)
    (folded : parts.foldlM (pushComponent quoted) relative = .ok result) :
    Built result := by
  induction parts generalizing relative with
  | nil =>
      obtain rfl := Except.ok.inj folded
      exact built
  | cons part parts induction =>
      rw [List.foldlM_cons, Run.bind_eq_ok] at folded
      obtain ⟨next, step, folded⟩ := folded
      refine induction ?_ (fun name member =>
        normal name (List.mem_cons_of_mem _ member)) folded
      cases part with
      | normal name =>
          obtain rfl := Except.ok.inj step
          exact built.push (normal name List.mem_cons_self)
      | curDir =>
          obtain rfl := Except.ok.inj step
          exact built
      | rootDir =>
          obtain rfl := Except.ok.inj step
          exact built
      | parentDir => cases step

/-- A boot path is its root, followed by names. -/
theorem resolveBootPath_below {quote : Text → String} {root path : Bytes}
    {value : Text} (resolved : resolveBootPath quote root value = .ok path) :
    root <+: path ∧ ∃ names, names ≠ [] ∧ (∀ name ∈ names, NormalName name) ∧
      components path = components root ++ names.map .normal := by
  simp only [resolveBootPath, Run.bind_eq_ok, Run.ensure_eq_ok,
    Run.pure_eq_ok, Except.ok.injEq] at resolved
  obtain ⟨-, -, relative, folded, -, filled, rfl⟩ := resolved
  rcases foldlM_pushComponent (.inl rfl) (fun name => normalName_of_mem) folded
    with empty | ⟨names, path⟩
  · exact absurd empty filled
  · exact ⟨path.prefix_join root, names, path.filled, path.normal,
      path.components_join root⟩

/-! ## Lists without doubles -/

/-- One path after the other. -/
def pushAll (paths items : List Bytes) : List Bytes :=
  items.foldl pushUniquePath paths

section

variable {paths items : List Bytes} {path : Bytes}

theorem pushUniquePath_cases (paths : List Bytes) (path : Bytes) :
    (pushUniquePath paths path = paths ∧
      ∃ existing ∈ paths, components existing = components path) ∨
    (pushUniquePath paths path = paths ++ [path] ∧
      ∀ existing ∈ paths, components existing ≠ components path) := by
  unfold pushUniquePath
  split
  · rename_i found
    simp only [List.any_eq_true, decide_eq_true_eq] at found
    exact .inl ⟨rfl, found⟩
  · rename_i absent
    simp only [List.any_eq_true, decide_eq_true_eq, not_exists, not_and]
      at absent
    exact .inr ⟨rfl, absent⟩

/-- The list only grows, and by new paths. -/
theorem pushAll_extends (paths items : List Bytes) :
    ∃ added, pushAll paths items = paths ++ added ∧
      ∀ path ∈ added, path ∈ items := by
  induction items generalizing paths with
  | nil => exact ⟨[], (List.append_nil _).symm, fun _ member => member⟩
  | cons item items induction =>
      obtain ⟨added, grown, sub⟩ := induction (pushUniquePath paths item)
      have later : ∀ path ∈ added, path ∈ item :: items := fun path member =>
        List.mem_cons_of_mem _ (sub path member)
      rcases pushUniquePath_cases paths item with ⟨same, -⟩ | ⟨new, -⟩
      · rw [same] at grown
        exact ⟨added, by rw [pushAll, List.foldl_cons, same]; exact grown, later⟩
      · rw [new] at grown
        refine ⟨item :: added, ?_, List.forall_mem_cons.mpr
          ⟨List.mem_cons_self, later⟩⟩
        rw [pushAll, List.foldl_cons, new, List.append_cons paths item added]
        exact grown

theorem mem_pushAll (member : path ∈ paths) : path ∈ pushAll paths items := by
  obtain ⟨added, grown, -⟩ := pushAll_extends paths items
  rw [grown]
  exact List.mem_append_left _ member

/-- Everything that is pushed is there. -/
theorem exists_mem_pushAll (member : path ∈ paths ++ items) :
    ∃ kept ∈ pushAll paths items, components kept = components path := by
  induction items generalizing paths with
  | nil =>
      rw [List.append_nil] at member
      exact ⟨path, member, rfl⟩
  | cons item items induction =>
      rw [List.append_cons] at member
      rcases pushUniquePath_cases paths item with ⟨same, found⟩ | ⟨new, -⟩
      · rw [pushAll, List.foldl_cons, same]
        rcases List.mem_append.mp member with front | back
        · rcases List.mem_append.mp front with front | here
          · exact induction (List.mem_append_left _ front)
          · obtain rfl := List.mem_singleton.mp here
            obtain ⟨existing, inside, equal⟩ := found
            rw [← equal]
            exact ⟨existing, mem_pushAll inside, rfl⟩
        · exact induction (List.mem_append_right _ back)
      · rw [pushAll, List.foldl_cons, new]
        exact induction member

theorem pushAll_distinct
    (distinct : paths.Pairwise fun left right =>
      components left ≠ components right) :
    (pushAll paths items).Pairwise fun left right =>
      components left ≠ components right := by
  induction items generalizing paths with
  | nil => exact distinct
  | cons item items induction =>
      rw [pushAll, List.foldl_cons]
      rcases pushUniquePath_cases paths item with ⟨same, -⟩ | ⟨new, absent⟩
      · rw [same]
        exact induction distinct
      · rw [new]
        refine induction (List.pairwise_append.mpr
          ⟨distinct, List.pairwise_singleton _ _, ?_⟩)
        intro existing inside other here
        obtain rfl := List.mem_singleton.mp here
        exact absent existing inside

theorem pushAll_append (paths front back : List Bytes) :
    pushAll paths (front ++ back) = pushAll (pushAll paths front) back :=
  List.foldl_append

/-- A path that is new behind some others comes after all of them. -/
theorem pushAll_order {front back : List Bytes} {first second : Bytes}
    (early : first ∈ front) (late : second ∈ back)
    (fresh : ∀ other ∈ front, components other ≠ components second) :
    ∃ before one middle two after, pushAll [] (front ++ back) =
        before ++ one :: (middle ++ two :: after) ∧
      components one = components first ∧
        components two = components second := by
  obtain ⟨one, oneMember, oneSame⟩ := @exists_mem_pushAll [] front first early
  obtain ⟨two, twoMember, twoSame⟩ :=
    @exists_mem_pushAll (pushAll [] front) back second
      (List.mem_append_right _ late)
  obtain ⟨kept, keptSplit, keptSub⟩ := pushAll_extends [] front
  obtain ⟨added, grown, -⟩ := pushAll_extends (pushAll [] front) back
  rw [grown] at twoMember
  have behind : two ∈ added := by
    rcases List.mem_append.mp twoMember with inside | behind
    · rw [keptSplit, List.nil_append] at inside
      exact absurd twoSame (fresh two (keptSub two inside))
    · exact behind
  obtain ⟨before, middle, frontSplit⟩ := List.append_of_mem oneMember
  obtain ⟨between, after, backSplit⟩ := List.append_of_mem behind
  refine ⟨before, one, middle ++ between, two, after, ?_, oneSame, twoSame⟩
  rw [pushAll_append, grown, frontSplit, backSplit]
  simp only [List.append_assoc, List.cons_append]

end

/-! ## Candidates of device trees -/

/-- A part of a name that is accepted. -/
structure SafePart (part : Text) : Prop where
  filled : part ≠ []
  notHere : part ≠ ['.']
  notParent : part ≠ ['.', '.']
  safe : (utf8 part).all isNamePart

theorem safePart_of_eq_some {value part : Text}
    (parsed : safeDtbNamePart value = some part) : SafePart part := by
  obtain ⟨⟨filled, notHere, notParent, safe⟩, accepted⟩ :=
    Option.ite_none_right_eq_some.mp parsed
  obtain rfl := Option.some.inj accepted
  exact ⟨filled, notHere, notParent, safe⟩

/-- A name whose parts are accepted. -/
structure SafeName (compatible : CompatibleName) : Prop where
  vendor : SafePart compatible.vendor
  name : SafePart compatible.name

theorem safeName_of_eq_some {compatible : Text} {found : CompatibleName}
    (parsed : parseCompatibleName compatible = some found) : SafeName found := by
  simp only [parseCompatibleName, Option.bind_eq_bind, Option.bind_eq_some_iff,
    Option.pure_def, Option.some.injEq] at parsed
  obtain ⟨_, -, vendor, vendorParsed, name, nameParsed, rfl⟩ := parsed
  exact ⟨safePart_of_eq_some vendorParsed, safePart_of_eq_some nameParsed⟩

theorem SafePart.whole {part : Text} (safe : SafePart part) :
    separator ∉ utf8 part := fun member =>
  absurd (List.all_eq_true.mp safe.safe separator member) (by decide)

theorem utf8_dots : utf8 ['.'] = [46] ∧ utf8 ['.', '.'] = [46, 46] :=
  ⟨utf8_of_ascii (by simp), utf8_of_ascii (by simp)⟩

theorem SafePart.normalName {part : Text} (safe : SafePart part) :
    NormalName (utf8 part) where
  filled empty := safe.filled (utf8_inj (empty.trans utf8_nil.symm))
  whole := safe.whole
  notHere here := safe.notHere (utf8_inj (here.trans utf8_dots.1.symm))
  notParent up := safe.notParent (utf8_inj (up.trans utf8_dots.2.symm))

theorem utf8_dtb : utf8 dtb = [46, 100, 116, 98] := by
  have ascii : ∀ letter ∈ ".dtb".toList, letter.toNat < 0x80 := by simp
  exact utf8_of_ascii ascii

/-- With its extension a name is no directory of its own or above. -/
theorem normalName_dtb {stem : Text} (whole : separator ∉ utf8 stem) :
    NormalName (utf8 (stem ++ dtb)) := by
  have length : 4 ≤ (utf8 (stem ++ dtb)).length := by
    rw [utf8_append, List.length_append, utf8_dtb]
    exact Nat.le_add_left _ _
  refine ⟨?_, ?_, ?_, ?_⟩
  · intro empty
    rw [empty] at length
    exact absurd length (by decide)
  · rw [utf8_append, List.mem_append, utf8_dtb]
    rintro (front | back)
    · exact whole front
    · exact absurd back (by decide)
  · intro here
    rw [here] at length
    exact absurd length (by decide)
  · intro up
    rw [up] at length
    exact absurd length (by decide)

/-- A path of names with the extension of a device tree. -/
def IsDtbPath (path : Bytes) : Prop :=
  (∃ names, Relative path names) ∧ utf8 dtb <:+ path

theorem isDtbPath_of_stem {stem : Text} (whole : separator ∉ utf8 stem) :
    IsDtbPath (utf8 (stem ++ dtb)) :=
  ⟨⟨_, (normalName_dtb whole).relative⟩, by
    rw [utf8_append]
    exact List.suffix_append _ _⟩

theorem isDtbPath_join {vendor stem : Text} (safe : SafePart vendor)
    (whole : separator ∉ utf8 stem) :
    IsDtbPath (join (utf8 vendor) (utf8 (stem ++ dtb))) := by
  have tail := (normalName_dtb whole).relative
  refine ⟨⟨_, safe.normalName.relative.push tail⟩, ?_⟩
  have ends : utf8 dtb <:+ utf8 (stem ++ dtb) := by
    rw [utf8_append]
    exact List.suffix_append _ _
  refine ends.trans ?_
  unfold join push
  split
  · exact List.suffix_rfl
  · split
    · exact List.suffix_append _ _
    · exact (List.suffix_cons _ _).trans (List.suffix_append _ _)

/-- The paths that `push_dtb_candidate_paths` pushes. -/
def dtbPaths (compatible : CompatibleName) : List Bytes :=
  [join (utf8 compatible.vendor) (utf8 (compatible.name ++ dtb)),
    utf8 (compatible.name ++ dtb),
    utf8 (compatible.vendor ++ ',' :: (compatible.name ++ dtb))]

/-- The paths of a board on a soc. -/
def socPaths (board soc : CompatibleName) : List Bytes :=
  [join (utf8 soc.vendor)
      (utf8 (soc.name ++ '-' :: (board.vendor ++ '-' :: (board.name ++ dtb)))),
    join (utf8 soc.vendor) (utf8 (soc.name ++ '-' :: (board.name ++ dtb)))]

/-- All candidates of a board. -/
def boardPaths (board : CompatibleName) (socs : List CompatibleName) :
    List Bytes :=
  dtbPaths board ++ socs.flatMap (socPaths board)

/-- The candidates of each compatible string as the board. -/
def candidatesOf : List Text → List (List Bytes)
  | [] => []
  | compatible :: others =>
      (parseCompatibleName compatible).elim [] (fun board =>
        boardPaths board (others.filterMap parseCompatibleName)) ::
          candidatesOf others

theorem foldl_pushSocPaths (board : CompatibleName)
    (socs : List CompatibleName) (paths : List Bytes) :
    socs.foldl (pushSocPaths board) paths =
      pushAll paths (socs.flatMap (socPaths board)) := by
  induction socs generalizing paths with
  | nil => rfl
  | cons soc socs induction =>
      rw [List.foldl_cons, induction, List.flatMap_cons, pushAll_append]
      rfl

/-- The loops push the candidates of one board after those of another. -/
theorem boardLoop_eq (compatibles : List Text) (paths : List Bytes) :
    boardLoop (compatibles.filterMap parseCompatibleName) paths =
      pushAll paths (candidatesOf compatibles).flatten := by
  induction compatibles generalizing paths with
  | nil => rfl
  | cons compatible others induction =>
      rw [candidatesOf, List.flatten_cons, pushAll_append]
      cases parsed : parseCompatibleName compatible with
      | none =>
          rw [List.filterMap_cons_none parsed, induction]
          rfl
      | some board =>
          rw [List.filterMap_cons_some parsed, boardLoop, foldl_pushSocPaths,
            induction, Option.elim_some, boardPaths, pushAll_append]
          rfl

theorem fdtdirCandidatePaths_eq (compatibles : List Text) :
    fdtdirCandidatePaths compatibles =
      pushAll [] (candidatesOf compatibles).flatten :=
  boardLoop_eq compatibles []

theorem whole_append {front back : Text} (left : separator ∉ utf8 front)
    (right : separator ∉ utf8 back) : separator ∉ utf8 (front ++ back) := by
  rw [utf8_append, List.mem_append, not_or]
  exact ⟨left, right⟩

theorem whole_mark {mark : Char} (marks : mark = '-' ∨ mark = ',')
    {text : Text} (whole : separator ∉ utf8 text) :
    separator ∉ utf8 (mark :: text) := by
  have single : separator ∉ utf8 [mark] := by
    rcases marks with rfl | rfl
    · rw [utf8_of_ascii (by simp)]
      decide
    · rw [utf8_of_ascii (by simp)]
      decide
  exact @whole_append [mark] text single whole

theorem dtbPaths_isDtbPath {compatible : CompatibleName}
    (safe : SafeName compatible) :
    ∀ path ∈ dtbPaths compatible, IsDtbPath path := by
  have regroup : compatible.vendor ++ ',' :: (compatible.name ++ dtb) =
      (compatible.vendor ++ ',' :: compatible.name) ++ dtb := by simp
  simp only [dtbPaths, regroup, List.forall_mem_cons, List.not_mem_nil,
    false_implies, implies_true, and_true]
  exact ⟨isDtbPath_join safe.vendor safe.name.whole,
    isDtbPath_of_stem safe.name.whole,
    isDtbPath_of_stem (whole_append safe.vendor.whole
      (whole_mark (.inr rfl) safe.name.whole))⟩

theorem socPaths_isDtbPath {board soc : CompatibleName}
    (boardSafe : SafeName board) (socSafe : SafeName soc) :
    ∀ path ∈ socPaths board soc, IsDtbPath path := by
  have longer : soc.name ++ '-' :: (board.vendor ++ '-' :: (board.name ++ dtb)) =
      (soc.name ++ '-' :: (board.vendor ++ '-' :: board.name)) ++ dtb := by simp
  have shorter : soc.name ++ '-' :: (board.name ++ dtb) =
      (soc.name ++ '-' :: board.name) ++ dtb := by simp
  have named := whole_mark (.inl rfl) boardSafe.name.whole
  simp only [socPaths, longer, shorter, List.forall_mem_cons, List.not_mem_nil,
    false_implies, implies_true, and_true]
  exact ⟨isDtbPath_join socSafe.vendor (whole_append socSafe.name.whole
      (whole_mark (.inl rfl) (whole_append boardSafe.vendor.whole named))),
    isDtbPath_join socSafe.vendor (whole_append socSafe.name.whole named)⟩

theorem candidatesOf_isDtbPath {compatibles : List Text} :
    ∀ paths ∈ candidatesOf compatibles, ∀ path ∈ paths, IsDtbPath path := by
  induction compatibles with
  | nil => exact fun _ member => absurd member List.not_mem_nil
  | cons compatible others induction =>
      rw [candidatesOf]
      refine List.forall_mem_cons.mpr ⟨?_, induction⟩
      intro path member
      cases parsed : parseCompatibleName compatible with
      | none =>
          rw [parsed] at member
          cases member
      | some board =>
          rw [parsed, Option.elim_some, boardPaths] at member
          have boardSafe := safeName_of_eq_some parsed
          rcases List.mem_append.mp member with own | onSoc
          · exact dtbPaths_isDtbPath boardSafe path own
          · obtain ⟨soc, listed, inside⟩ := List.mem_flatMap.mp onSoc
            obtain ⟨_, -, socParsed⟩ := List.mem_filterMap.mp listed
            exact socPaths_isDtbPath boardSafe (safeName_of_eq_some socParsed)
              path inside

theorem fdtdirCandidatePaths_isDtbPath {compatibles : List Text} :
    ∀ path ∈ fdtdirCandidatePaths compatibles, IsDtbPath path := by
  intro path member
  obtain ⟨added, grown, sub⟩ := pushAll_extends []
    (candidatesOf compatibles).flatten
  rw [fdtdirCandidatePaths_eq, grown, List.nil_append] at member
  obtain ⟨paths, listed, inside⟩ := List.mem_flatten.mp (sub path member)
  exact candidatesOf_isDtbPath paths listed path inside

/-- What is selected lies below the directory. -/
theorem selectFdtdirDtb_below {isFile : Bytes → Bool} {fdtdir path : Bytes}
    {compatibles : List Text}
    (selected : selectFdtdirDtb isFile fdtdir compatibles = some path) :
    fdtdir <+: path ∧ ∃ names, names ≠ [] ∧ (∀ name ∈ names, NormalName name) ∧
      components path = components fdtdir ++ names.map .normal := by
  have member := List.mem_of_find?_eq_some selected
  obtain ⟨candidate, listed, rfl⟩ := List.mem_map.mp member
  obtain ⟨⟨names, relative⟩, -⟩ := fdtdirCandidatePaths_isDtbPath _ listed
  exact ⟨relative.prefix_join fdtdir, names, relative.filled, relative.normal,
    relative.components_join fdtdir⟩

/-- The candidates of a compatible string come before those that no string up
to a later one produces. -/
theorem fdtdirCandidatePaths_order {compatibles : List Text}
    {earlier later : Nat} {firsts seconds : List Bytes} {first second : Bytes}
    (ordered : earlier < later)
    (firstsOf : (candidatesOf compatibles)[earlier]? = some firsts)
    (secondsOf : (candidatesOf compatibles)[later]? = some seconds)
    (firstMember : first ∈ firsts) (secondMember : second ∈ seconds)
    (fresh : ∀ index < later, ∀ others,
      (candidatesOf compatibles)[index]? = some others →
        ∀ other ∈ others, components other ≠ components second) :
    ∃ before one middle two after, fdtdirCandidatePaths compatibles =
        before ++ one :: (middle ++ two :: after) ∧
      components one = components first ∧
        components two = components second := by
  have split : (candidatesOf compatibles).flatten =
      ((candidatesOf compatibles).take later).flatten ++
        ((candidatesOf compatibles).drop later).flatten := by
    rw [← List.flatten_append, List.take_append_drop]
  rw [fdtdirCandidatePaths_eq, split]
  refine pushAll_order ?_ ?_ ?_
  · refine List.mem_flatten.mpr ⟨firsts, ?_, firstMember⟩
    refine List.mem_of_getElem? (i := earlier) ?_
    rw [List.getElem?_take_of_lt ordered, firstsOf]
  · refine List.mem_flatten.mpr ⟨seconds, ?_, secondMember⟩
    refine List.mem_of_getElem? (i := 0) ?_
    rw [List.getElem?_drop, Nat.add_zero, secondsOf]
  · intro other member
    obtain ⟨others, listed, inside⟩ := List.mem_flatten.mp member
    obtain ⟨index, found⟩ := List.mem_iff_getElem?.mp listed
    rw [List.getElem?_take] at found
    obtain ⟨small, found⟩ := Option.ite_none_right_eq_some.mp found
    exact fresh index small others found other inside

/-- Boot paths stay below their root.  The candidates of device trees are
relative paths of names with their extension, all different, and those that
only a later compatible string produces as the board come after all of an
earlier one. -/
theorem bootPaths_confined :
    (∀ {quote : Text → String} {root path : Bytes} {value : Text},
      resolveBootPath quote root value = .ok path →
        root <+: path ∧ ∃ names, names ≠ [] ∧
          (∀ name ∈ names, NormalName name) ∧
          components path = components root ++ names.map .normal) ∧
    ∀ compatibles : List Text,
      (∀ path ∈ fdtdirCandidatePaths compatibles,
        isAbsolute path = false ∧ utf8 dtb <:+ path ∧
          ∃ names, names ≠ [] ∧ (∀ name ∈ names, NormalName name) ∧
            components path = names.map .normal) ∧
      ((fdtdirCandidatePaths compatibles).Pairwise fun left right =>
        components left ≠ components right) ∧
      ∀ (earlier later : Nat) (firsts seconds : List Bytes), earlier < later →
        (candidatesOf compatibles)[earlier]? = some firsts →
        (candidatesOf compatibles)[later]? = some seconds →
        ∀ first ∈ firsts, ∀ second ∈ seconds,
          (∀ index, index ≠ later → ∀ others,
            (candidatesOf compatibles)[index]? = some others →
              ∀ other ∈ others, components other ≠ components second) →
          ∃ before one middle two after, fdtdirCandidatePaths compatibles =
              before ++ one :: (middle ++ two :: after) ∧
            components one = components first ∧
              components two = components second := by
  refine ⟨resolveBootPath_below, fun compatibles => ⟨?_, ?_, ?_⟩⟩
  · intro path member
    obtain ⟨⟨names, relative⟩, ends⟩ :=
      fdtdirCandidatePaths_isDtbPath path member
    exact ⟨relative.notAbsolute, ends, names, relative.filled, relative.normal,
      relative.components_eq⟩
  · rw [fdtdirCandidatePaths_eq]
    exact pushAll_distinct List.Pairwise.nil
  · intro earlier later firsts seconds ordered firstsOf secondsOf first
      firstMember second secondMember only
    exact fdtdirCandidatePaths_order ordered firstsOf secondsOf firstMember
      secondMember fun index small => only index (Nat.ne_of_lt small)

def compatiblesSmall : List Text :=
  ["oneplus,fajita".toList, "qcom,sdm845".toList]

theorem bootPaths_confined_small :
    (∃ path, resolveBootPath String.ofList (utf8 "/mnt/boot".toList)
        "//./vmlinuz ".toList = .ok path ∧
      utf8 "/mnt/boot".toList <+: path) ∧
    ∃ before one middle two after, fdtdirCandidatePaths compatiblesSmall =
        before ++ one :: (middle ++ two :: after) ∧
      components one = components (utf8 "fajita.dtb".toList) ∧
        components two = components (utf8 "sdm845.dtb".toList) :=
  have resolved : resolveBootPath String.ofList (utf8 "/mnt/boot".toList)
      "//./vmlinuz ".toList = .ok (utf8 "/mnt/boot/vmlinuz".toList) := by
    decide +kernel
  have only : ∀ index, index ≠ 1 → ∀ others,
      (candidatesOf compatiblesSmall)[index]? = some others →
        ∀ other ∈ others,
          components other ≠ components (utf8 "sdm845.dtb".toList) := by
    intro index different others found
    have small : index < 2 := (List.getElem?_eq_some_iff.mp found).1
    obtain rfl : index = 0 := by omega
    have each : ∀ other ∈ ((candidatesOf compatiblesSmall)[0]?).getD [],
        components other ≠ components (utf8 "sdm845.dtb".toList) := by
      decide +kernel
    rwa [found] at each
  ⟨⟨_, resolved, (bootPaths_confined.1 resolved).1⟩,
    (bootPaths_confined.2 compatiblesSmall).2.2 0 1 _ _ (by decide) rfl rfl
      (utf8 "fajita.dtb".toList) (by decide +kernel)
      (utf8 "sdm845.dtb".toList) (by decide +kernel) only⟩

end Pocketboot.BootMenu
