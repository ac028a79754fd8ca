import Pocketboot.Kexec.Reserved

/-!
# Owned trees

The spin-table code reads a blob into a tree, changes the tree and writes it
out again.  `contract_tree` accepts trees with one unnamed root, properties in
front of the child nodes, and no name used twice among siblings.
-/

namespace Pocketboot.Kexec

open DeviceTree

structure ContractNode where
  name : Bytes
  props : List (Bytes × Bytes)
  children : List ContractNode

namespace ContractNode

/-- `ContractNode::new`. -/
def new (name : Bytes) : ContractNode := ⟨name, [], []⟩

/-- The value of the first property of a name. -/
def lookup (name : Bytes) : List (Bytes × Bytes) → Option Bytes
  | [] => none
  | (key, value) :: props =>
      if key = name then some value else lookup name props

/-- Replace the first property of a name, or add it at the end. -/
def assign (name value : Bytes) :
    List (Bytes × Bytes) → List (Bytes × Bytes)
  | [] => [(name, value)]
  | (key, old) :: props =>
      if key = name then (key, value) :: props
      else (key, old) :: assign name value props

def get (node : ContractNode) (name : Bytes) : Option Bytes :=
  lookup name node.props

def set (node : ContractNode) (name value : Bytes) : ContractNode :=
  { node with props := assign name value node.props }

def remove (node : ContractNode) (name : Bytes) : ContractNode :=
  { node with props := node.props.filter (·.1 ≠ name) }

def child (node : ContractNode) (name : Bytes) : Option ContractNode :=
  node.children.find? (·.name = name)

/-- `children.push`. -/
def push (node child : ContractNode) : ContractNode :=
  { node with children := node.children ++ [child] }

/-- Change the first of some nodes with a name. -/
def changeFirst (name : Bytes) (change : ContractNode → ContractNode) :
    List ContractNode → List ContractNode
  | [] => []
  | node :: nodes =>
      if node.name = name then change node :: nodes
      else node :: changeFirst name change nodes

/-- Change the child that `child` finds. -/
def changeChild (node : ContractNode) (name : Bytes)
    (change : ContractNode → ContractNode) : ContractNode :=
  { node with children := changeFirst name change node.children }

def enabled (node : ContractNode) : Bool :=
  (node.get propStatus).all propertyStatusEnabled

def compatible (node : ContractNode) (value : Bytes) : Bool :=
  (node.get (byteString "compatible")).any fun list =>
    (list.splitOn 0).any (· = value)

def cells (node : ContractNode) (name : Bytes) (default : Nat) : Result Nat :=
  match node.get name with
  | some value => propertyU32 value name
  | none => .ok default

/-- Write some properties after one another. -/
def writeProps : List (Bytes × Bytes) → Bytes → Bytes → Result (Bytes × Bytes)
  | [], block, strings => .ok (block, strings)
  | (name, value) :: props, block, strings => do
      let (strings, offset) ← ensureString strings name
      writeProps props (writeProp block offset value) strings

mutual

def write : ContractNode → Bytes → Bytes → Result (Bytes × Bytes)
  | ⟨name, props, children⟩, block, strings => do
      let (block, strings) ← writeProps props (writeBeginNode block name) strings
      let (block, strings) ← writeAll children block strings
      return (writeBe32 block endNodeToken, strings)

def writeAll : List ContractNode → Bytes → Bytes → Result (Bytes × Bytes)
  | [], block, strings => .ok (block, strings)
  | node :: nodes, block, strings => do
      let (block, strings) ← node.write block strings
      writeAll nodes block strings

end

@[simp] theorem name_set (node : ContractNode) (name value : Bytes) :
    (node.set name value).name = node.name := rfl

@[simp] theorem children_set (node : ContractNode) (name value : Bytes) :
    (node.set name value).children = node.children := rfl

@[simp] theorem name_push (node child : ContractNode) :
    (node.push child).name = node.name := rfl

theorem child_name {node child : ContractNode} {name : Bytes}
    (found : node.child name = some child) : child.name = name := by
  simpa using List.find?_some found

theorem child_mem {node child : ContractNode} {name : Bytes}
    (found : node.child name = some child) : child ∈ node.children :=
  List.mem_of_find?_eq_some found

theorem child_push_of_ne {node child : ContractNode} {name : Bytes}
    (other : child.name ≠ name) :
    (node.push child).child name = node.child name := by
  unfold ContractNode.child push
  rw [List.find?_append]
  simp [other]

theorem child_push_of_none {node child : ContractNode} {name : Bytes}
    (absent : node.child name = none) (same : child.name = name) :
    (node.push child).child name = some child := by
  unfold ContractNode.child push at *
  rw [List.find?_append, absent]
  simp [same]

theorem child_changeChild_of_ne {node : ContractNode} {name other : Bytes}
    {change : ContractNode → ContractNode}
    (keeps : ∀ child, (change child).name = child.name)
    (different : other ≠ name) :
    (node.changeChild name change).child other = node.child other := by
  unfold ContractNode.child changeChild
  simp only
  induction node.children with
  | nil => rfl
  | cons first nodes induction =>
      rw [changeFirst]
      split
      · rename_i same
        have skipped : ¬ first.name = other := fun equal =>
          different (equal.symm.trans same)
        simp [keeps, skipped]
      · simp only [List.find?_cons, induction]

end ContractNode

/-- The open nodes, the innermost first, and the root once it is closed. -/
structure TreeState where
  stack : List ContractNode
  root : Option ContractNode

/-- The loop body of `contract_tree`. -/
def treeBody (strings : Bytes) : Body IoError TreeState ContractNode :=
  fun state _ token next =>
    match token with
    | .beginNode name => do
        Run.ensure (¬ (state.stack = [] ∧ (state.root.isSome ∨ name ≠ [])))
          (invalidData "DTB must have exactly one unnamed root")
        Run.ensure (state.stack.length < 64)
          (invalidData "DTB exceeds maximum node nesting depth")
        return .more { state with stack := .new name :: state.stack } next
    | .endNode =>
        match state.stack with
        | [] => invalid "DTB has unmatched END_NODE"
        | [node] => return .more ⟨[], some node⟩ next
        | node :: parent :: stack => do
            Run.ensure (parent.child node.name).isNone
              (invalidData "DTB has duplicate sibling node names")
            return .more { state with stack := parent.push node :: stack } next
    | .prop nameoff value => do
        let name ← Run.ofOption
          (invalidData "DTB property has invalid string offset")
          (stringAt strings nameoff)
        match state.stack with
        | [] => invalid "DTB property outside a node"
        | node :: stack => do
            Run.ensure ((node.get name).isNone ∧ node.children.isEmpty)
              (invalidData
                "DTB has duplicate property or property after child nodes")
            return .more { state with stack := node.set name value :: stack }
              next
    | .nop => return .more state next
    | .fin =>
        match state.stack with
        | [] => do
            return .done (← Run.ofOption (invalidData "DTB has no root node")
              state.root)
        | _ :: _ => invalid "DTB has unterminated nodes"

def contractTree (dtb : Bytes) : Result ContractNode := do
  let header ← headerParse dtb
  let structBlock ← checkedSlice dtb header.offDtStruct header.sizeDtStruct
    "DTB structure block"
  let strings ← checkedSlice dtb header.offDtStrings header.sizeDtStrings
    "DTB strings block"
  loop blockReader structBlock (treeBody strings) ⟨[], none⟩ 0

def buildContractTree (dtb : Bytes) (root : ContractNode) (map : Bytes) :
    Result Bytes := do
  let header ← headerParse dtb
  let (block, strings) ← root.write [] []
  buildDtb header map (writeBe32 block endToken) strings

end Pocketboot.Kexec
