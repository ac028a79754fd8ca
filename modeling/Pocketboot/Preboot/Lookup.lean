import Pocketboot.Preboot.Nodes
import Pocketboot.Preboot.Paths

/-!
# Lookups in a well-formed device tree

Nodes are found by path and by phandle, and the child nodes of a node are
yielded, as they are in document order.
-/

namespace Pocketboot.Preboot

open DeviceTree

/-! ## Well-formed device trees -/

theorem checkedSlice_length {data piece : Bytes} {offset size : Nat}
    (slices : checkedSlice data offset size = .ok piece) :
    piece.length = size ∧ piece.length ≤ data.length := by
  obtain ⟨stop, sum, slices⟩ := Run.bind_eq_ok.mp slices
  rw [Run.ofOption_eq_ok, checkedAdd_eq_some] at sum
  obtain ⟨_, rfl⟩ := sum
  obtain ⟨_, fits, slices⟩ := Run.bind_eq_ok.mp slices
  rw [Run.ensure_eq_ok] at fits
  obtain ⟨_, _, rfl⟩ := sliceOrPanic_eq_ok.mp slices
  rw [Bytes.slice_length_of_le fits]
  omega

theorem sizeDtStruct_lt {dtb : Bytes} {reader : Reader}
    (accepted : Reader.new dtb = .ok reader) :
    reader.header.sizeDtStruct < 2 ^ 32 := by
  simp only [Reader.new, headerParse, bind_assoc, Run.bind_eq_ok,
    Run.pure_eq_ok, Except.ok.injEq] at accepted
  obtain ⟨_, _, _, _, _, _, _, _, _, _, _, _, _, _, _, _, _, _, _, _, _, _,
    sizeDtStruct, read, accepted⟩ := accepted
  obtain ⟨_, _, _, _, _, _, _, _, _, _, _, rfl, _, _, rfl⟩ := accepted
  obtain ⟨_, rfl⟩ := (readBe32_eq_ok (by omega)).mp read
  exact be32At_lt _ _

/-- A reader with the nodes of its structure block: there is one root, it has
no name, the nodes are not too deep, the properties of a node come before its
child nodes, and their names are in the strings block.  No-operations may be
anywhere. -/
structure Document (reader : Reader) where
  strings : Bytes
  forest : Forest
  trailing : Bytes
  readsBlock : reader.structBlock =
    .ok (forest.bytes ++ (be32 endToken ++ trailing))
  readsStrings : reader.strings = .ok strings
  root : Placed
  only : forest.tops 0 [] = [root]
  unnamed : root.chain = [[]]
  bare : forest.properties = []
  depth : forest.depth ≤ maxDepth
  ordered : forest.Ordered
  named : ∀ placed ∈ forest.nodes 0 [], ∀ property ∈ placed.body.properties,
    (DeviceTree.stringAt strings property.nameoff).isSome

namespace Document

variable {reader : Reader} (document : Document reader)

def block : Bytes :=
  document.forest.bytes ++ (be32 endToken ++ document.trailing)

/-- The nodes in document order. -/
def nodes : List Placed := document.forest.nodes 0 []

/-- The first node in document order that is wanted. -/
def first (wanted : Placed → Bool) : Result Node :=
  Run.ofOption .notFound
    ((document.nodes.find? wanted).map fun placed => ⟨placed.offset⟩)

end Document

/-- The iterator yields these nodes and then ends. -/
inductive Yields (reader : Reader) : Iter → List Node → Prop
  | done {iter last : Iter}
      (ends : reader.subnodesNext iter = .ok (none, last)) :
      Yields reader iter []
  | more {iter next : Iter} {node : Node} {nodes : List Node}
      (yields : reader.subnodesNext iter = .ok (some node, next))
      (later : Yields reader next nodes) : Yields reader iter (node :: nodes)

/-- The lookups find what they are asked for, and nothing else. -/
structure LooksUp {reader : Reader} (document : Document reader)
    (components : List Bytes) : Prop where
  path : reader.findPath (pathOf components) =
    document.first (·.chain = [] :: components)
  phandle : ∀ phandle, reader.findPhandle phandle =
    document.first (·.phandle document.strings = some phandle)
  subnodes : ∀ placed ∈ document.nodes, ∃ iter,
    reader.subnodes ⟨placed.offset⟩ = .ok iter ∧
      Yields reader iter (placed.children.map fun child => ⟨child.offset⟩)

namespace Document

variable {dtb : Bytes} {reader : Reader} (document : Document reader)

theorem readsStruct : reader.structBlock = .ok document.block :=
  document.readsBlock

theorem place (accepted : Reader.new dtb = .ok reader) :
    At document.block 0
      (document.forest.bytes ++ (be32 endToken ++ document.trailing)) where
  after := rfl
  aligned := rfl
  inside := Nat.zero_le _
  short := by
    have size := sizeDtStruct_lt accepted
    rw [← (checkedSlice_length document.readsBlock).1] at size
    exact size

/-- A search through the whole block. -/
theorem search (accepted : Reader.new dtb = .ok reader) {σ : Type}
    {body : Body Error σ Nat} (steady : Steady document.block body)
    {fits : List Bytes → σ → Prop} {allowed wanted : Placed → Prop}
    [DecidablePred wanted]
    (searches : Searches document.block body fits allowed wanted) {state : σ}
    (begins : fits [] state) (allow : ∀ placed ∈ document.nodes, allowed placed)
    (ends : ∀ state cursor next,
      body state cursor .fin next = Run.fail .notFound) :
    (do return ⟨← loop blockReader document.block body state 0⟩ :
      Result Node) = document.first (wanted ·) := by
  have place := document.place accepted
  have searched := @loop_search _ _ blockReader _ _ steady _ _ _ _ searches
    document.forest _ _ _ _ begins place allow
  rw [Document.first, Document.nodes]
  cases found : (document.forest.nodes 0 []).find? (wanted ·) with
  | some placed =>
      rw [found] at searched
      rw [show loop blockReader document.block body state 0 = _ from searched]
      rfl
  | none =>
      rw [found] at searched
      obtain ⟨last, _, passes⟩ := searched
      rw [passes, loop_fin steady place.forest_rest, ends]
      rfl

theorem findPhandle_eq (accepted : Reader.new dtb = .ok reader)
    (phandle : Nat) : reader.findPhandle phandle =
      document.first (·.phandle document.strings = some phandle) := by
  have inside := (checkedSlice_length document.readsBlock).2
  rw [Reader.findPhandle, document.readsBlock, Run.ok_bind]
  refine document.search accepted (findPhandle_steady phandle)
    (findPhandle_searches document.readsBlock document.readsStrings inside
      phandle) trivial ?_ fun _ _ _ => rfl
  intro placed member
  exact ⟨Forest.ordered_body document.ordered placed member,
    document.named placed member⟩

theorem findPath_eq (accepted : Reader.new dtb = .ok reader)
    {components : List Bytes} (valid : Components components)
    (some' : components ≠ []) : reader.findPath (pathOf components) =
      document.first (·.chain = [] :: components) := by
  obtain ⟨name, components, rfl⟩ := List.exists_cons_of_ne_nil some'
  obtain ⟨full, noSlash⟩ := valid name (.head _)
  have path : pathOf (name :: components) =
      slash :: (name ++ components.flatMap (slash :: ·)) := rfl
  have longer : pathOf (name :: components) ≠ [slash] := by
    rw [path]
    simp [full]
  rw [Reader.findPath, if_neg longer, Run.ensure_of (by rw [path]; rfl),
    document.readsBlock, Run.ok_bind, Run.ok_bind,
    countPathComponents_pathOf valid some', Run.ok_bind]
  refine document.search accepted (findPath_steady _ _ _)
    (findPath_searches valid some' _) (.initially _) ?_ fun _ _ _ => rfl
  intro placed member
  have deep := Forest.chain_length_le placed member
  have := document.depth
  simp only [List.length_nil] at deep
  omega

theorem nextNode {chain : List Bytes}
    {children : List Placed} {forest : Forest} {cursor : Nat} {rest : Bytes}
    (tops : forest.tops cursor chain = children)
    (place : At document.block cursor
      (forest.bytes ++ (be32 endNodeToken ++ rest))) :
    ∃ item, reader.subnodesNext ⟨cursor, false⟩ = .ok item ∧
      NextNode document.block rest chain children item := by
  have enough : forest.bytes.length < document.block.length + 1 := by
    have := place.length_eq
    rw [List.length_append] at this
    omega
  have next := @nextNode_at _ _ chain forest _ _ enough place
  have step : reader.subnodesNext ⟨cursor, false⟩ =
      Preboot.nextNode document.block (document.block.length + 1) cursor := by
    rw [Reader.subnodesNext, document.readsStruct]
    rfl
  rwa [tops, ← step] at next

theorem yields {chain : List Bytes}
    {children : List Placed} {forest : Forest} {cursor : Nat} {rest : Bytes}
    (tops : forest.tops cursor chain = children)
    (place : At document.block cursor
      (forest.bytes ++ (be32 endNodeToken ++ rest))) :
    Yields reader ⟨cursor, false⟩
      (children.map fun child => ⟨child.offset⟩) := by
  induction children generalizing forest cursor with
  | nil =>
      obtain ⟨item, next, result⟩ := document.nextNode tops place
      cases result
      exact .done next
  | cons child children induction =>
      obtain ⟨item, next, result⟩ := document.nextNode tops place
      generalize known : child :: children = all at result
      cases result with
      | none => simp at known
      | some place' =>
          obtain ⟨rfl, rfl⟩ := List.cons.inj known
          exact .more next (induction rfl place')

theorem subnodes_eq (accepted : Reader.new dtb = .ok reader)
    {placed : Placed} (member : placed ∈ document.nodes) :
    ∃ iter, reader.subnodes ⟨placed.offset⟩ = .ok iter ∧
      Yields reader iter
        (placed.children.map fun child => ⟨child.offset⟩) := by
  obtain ⟨rest, place⟩ := (document.place accepted).placed placed member
  have whole : At document.block placed.offset (placed.name.bytes ++
      (placed.body.bytes ++ (be32 endNodeToken ++ rest))) := place.node_rest
  refine ⟨_, ?_, document.yields rfl whole.name_rest⟩
  rw [Reader.subnodes, document.readsStruct, Run.ok_bind,
    nodeContentStart_at whole]
  rfl

/-! ## The root -/

/-- The first node is the root. -/
theorem first_root : document.first (·.chain = [[]]) =
    .ok ⟨document.root.offset⟩ := by
  have head := document.forest.head_nodes 0 []
  rw [document.only] at head
  obtain ⟨more, nodes⟩ : ∃ more, document.nodes = document.root :: more := by
    cases known : document.nodes with
    | nil =>
        rw [Document.nodes] at known
        simp [known] at head
    | cons first more =>
        rw [Document.nodes] at known
        simp only [known, List.head?_cons, Option.some.injEq] at head
        exact ⟨more, by rw [head]⟩
  rw [Document.first, nodes, List.find?_cons, document.unnamed]
  rfl

theorem root_eq (accepted : Reader.new dtb = .ok reader) :
    reader.root = document.first (·.chain = [[]]) ↔
      be32At document.block 0 ≠ nopToken := by
  rw [first_root]
  have place := document.place accepted
  have only := document.only
  have bare := document.bare
  cases forest : document.forest with
  | nil => simp [forest, Forest.tops] at only
  | nop more =>
      rw [forest, Forest.bytes, List.append_assoc] at place
      have word := At.be32At_eq place.after (by decide)
      have fails : reader.root = Run.fail .badToken := by
        rw [Reader.root, document.readsStruct, Run.ok_bind,
          readBe32_of_at place (by decide), Run.ok_bind,
          Run.ensure_of_not (by decide)]
        rfl
      rw [fails, word]
      simp [Run.fail]
  | prop property more => simp [forest, Forest.properties] at bare
  | node name body more =>
      rw [forest] at place only
      have named := place.node_rest
      rw [NodeName.bytes, List.append_assoc] at named
      have word := At.be32At_eq named.after (by decide)
      have begins : reader.root = .ok ⟨0⟩ := by
        rw [Reader.root, document.readsStruct, Run.ok_bind,
          readBe32_of_at named (by decide), Run.ok_bind,
          Run.ensure_of (by decide)]
        rfl
      have root : document.root.offset = 0 := by
        rw [← (List.cons.inj only).1]
      rw [begins, root, word]
      simp [beginNodeToken, nopToken]

end Document

/-- The lookups are exact, but that of `/` in a block that begins with a
no-operation. -/
theorem lookups_exact_iff {dtb : Bytes} {reader : Reader}
    (accepted : Reader.new dtb = .ok reader) (document : Document reader)
    {components : List Bytes} (valid : Components components) :
    LooksUp document components ↔
      (components = [] → be32At document.block 0 ≠ nopToken) := by
  have phandle := document.findPhandle_eq accepted
  have subnodes := fun placed member =>
    @document.subnodes_eq _ _ accepted placed member
  cases components with
  | nil =>
      have path : reader.findPath (pathOf []) = reader.root := if_pos rfl
      rw [← document.root_eq accepted]
      constructor
      · intro looksUp _
        rw [← path]
        exact looksUp.path
      · intro root
        exact ⟨path.trans (root rfl), phandle, subnodes⟩
  | cons name components =>
      refine ⟨fun _ empty => by simp at empty, fun _ => ⟨?_, phandle, subnodes⟩⟩
      exact document.findPath_eq accepted valid (by simp)

/-- A blob with these nodes and no strings. -/
def blobOf (forest : Forest) : Bytes :=
  assemble ⟨0, 0, 0, 0, 17, 16, 0, 0, 0⟩ (List.replicate 16 0)
    (forest.bytes ++ be32 endToken) []

def readerOf (forest : Forest) : Reader :=
  ⟨blobOf forest, headerOf (blobOf forest)⟩

def rootName : NodeName := .plain [] (by simp)

/-- A root with one child node. -/
def cpusForest : Forest :=
  .node rootName (.node (.plain (byteString "cpus") (by decide)) .nil .nil) .nil

def cpusDocument : Document (readerOf cpusForest) where
  strings := []
  forest := cpusForest
  trailing := []
  readsBlock := by decide +kernel
  readsStrings := by decide +kernel
  root := ⟨0, [[]], rootName, _⟩
  only := rfl
  unnamed := rfl
  bare := rfl
  depth := by decide
  ordered := ⟨⟨trivial, trivial, rfl⟩, trivial, rfl⟩
  named := by simp [cpusForest, Forest.nodes, Forest.properties]

theorem lookups_exact_cpus :
    LooksUp cpusDocument [byteString "cpus"] ∧
      (readerOf cpusForest).findPath (byteString "/cpus") = .ok ⟨8⟩ := by
  have accepted : Reader.new (blobOf cpusForest) = .ok (readerOf cpusForest) := by
    decide +kernel
  have valid : Components [byteString "cpus"] := by decide
  exact ⟨(lookups_exact_iff accepted cpusDocument valid).mpr (by simp),
    by decide +kernel⟩

/-- A root behind a no-operation. -/
def nopForest : Forest := .nop (.node rootName .nil .nil)

def nopDocument : Document (readerOf nopForest) where
  strings := []
  forest := nopForest
  trailing := []
  readsBlock := by decide +kernel
  readsStrings := by decide +kernel
  root := ⟨4, [[]], rootName, .nil⟩
  only := rfl
  unnamed := rfl
  bare := rfl
  depth := by decide
  ordered := ⟨trivial, trivial, rfl⟩
  named := by simp [nopForest, Forest.nodes, Forest.properties]

theorem lookups_fail_nop :
    ¬∀ (dtb : Bytes) (reader : Reader) (document : Document reader)
      (components : List Bytes), Reader.new dtb = .ok reader →
      Components components → LooksUp document components := by
  intro always
  have accepted : Reader.new (blobOf nopForest) = .ok (readerOf nopForest) := by
    decide +kernel
  have looksUp := always _ _ nopDocument [] accepted (by simp [Components])
  have fails : (readerOf nopForest).findPath (pathOf []) =
      Run.fail .badToken := by decide +kernel
  have path := looksUp.path
  rw [fails, nopDocument.first_root] at path
  cases path

end Pocketboot.Preboot
