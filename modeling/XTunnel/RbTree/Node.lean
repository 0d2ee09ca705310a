import XTunnel.Code
import XTunnel.RedBlack

/-! hev-rbtree.c: nodes with pointers to their parent and their children. -/
namespace XTunnel.RbTree

open RedBlack Code

/-- The address of a node. -/
abbrev Ptr := Nat

/-- `__parent_color` is the parent and the color. -/
structure HevRBTreeNode where
  parent : Option Ptr
  color : Color
  right : Option Ptr
  left : Option Ptr
deriving DecidableEq, Repr

/-- A tree and the memory that its nodes are in; the address of a node that is not allocated has
`none`. -/
structure HevRBTree where
  root : Option Ptr
  mem : Ptr → Option HevRBTreeNode

namespace HevRBTreeNode

def get (s : Side) (n : HevRBTreeNode) : Option Ptr :=
  match s with
  | .left => n.left
  | .right => n.right

def set (s : Side) (p : Option Ptr) (n : HevRBTreeNode) : HevRBTreeNode :=
  match s with
  | .left => { n with left := p }
  | .right => { n with right := p }

/-- A node with `a` on side `s` and `b` on the other one. -/
def cell (s : Side) (up : Option Ptr) (c : Color) (a b : Option Ptr) : HevRBTreeNode :=
  match s with
  | .left => ⟨up, c, b, a⟩
  | .right => ⟨up, c, a, b⟩

variable {s : Side} {up p a b : Option Ptr} {c : Color}

@[simp] theorem parent_cell : (cell s up c a b).parent = up := by cases s <;> rfl

@[simp] theorem color_cell : (cell s up c a b).color = c := by cases s <;> rfl

@[simp] theorem get_cell : (cell s up c a b).get s = a := by cases s <;> rfl

@[simp] theorem get_cell_flip : (cell s up c a b).get s.flip = b := by cases s <;> rfl

@[simp] theorem set_cell : (cell s up c a b).set s p = cell s up c p b := by cases s <;> rfl

@[simp] theorem set_cell_flip : (cell s up c a b).set s.flip p = cell s up c a p := by
  cases s <;> rfl

@[simp] theorem with_parent_color_cell (q : Option Ptr) (d : Color) :
    { cell s up c a b with parent := q, color := d } = cell s q d a b := by cases s <;> rfl

@[simp] theorem with_parent_cell (q : Option Ptr) :
    { cell s up c a b with parent := q } = cell s q c a b := by cases s <;> rfl

@[simp] theorem with_color_cell (d : Color) :
    { cell s up c a b with color := d } = cell s up d a b := by cases s <;> rfl

theorem cell_flip : cell s.flip up c a b = cell s up c b a := by cases s <;> rfl

end HevRBTreeNode

abbrev M := Code HevRBTree

def HevRBTree.write (h : HevRBTree) (p : Ptr) (n : HevRBTreeNode) : HevRBTree :=
  { h with mem := Function.update h.mem p (some n) }

def load (p : Ptr) : M HevRBTreeNode := fun h => (h.mem p).map (·, h)

def modify (p : Ptr) (f : HevRBTreeNode → HevRBTreeNode) : M Unit := fun h =>
  (h.mem p).map fun n => ((), h.write p (f n))

/-- `node->left` or `node->right`. -/
def child (s : Side) (node : Ptr) : M (Option Ptr) := do return (← load node).get s

def setChild (s : Side) (node : Ptr) (p : Option Ptr) : M Unit := modify node (·.set s p)

def hev_rbtree_node_is_red (node : Ptr) : M Bool := do return (← load node).color = .red

def hev_rbtree_node_is_black (node : Ptr) : M Bool := do return (← load node).color = .black

def hev_rbtree_node_parent (node : Ptr) : M (Option Ptr) := do return (← load node).parent

/-- The word of a red node is the pointer. -/
def hev_rbtree_node_red_parent (node : Ptr) : M (Option Ptr) := do
  let n ← load node
  if n.color = .red then return n.parent else fault

def hev_rbtree_node_set_black (node : Ptr) : M Unit := modify node fun n => { n with color := .black }

def hev_rbtree_node_set_parent (node : Ptr) (parent : Option Ptr) : M Unit :=
  modify node fun n => { n with parent }

def hev_rbtree_node_set_parent_color (node : Ptr) (parent : Option Ptr) (color : Color) : M Unit :=
  modify node fun n => { n with parent, color }

/-- `if (tmp) hev_rbtree_node_set_parent_color (tmp, parent, color)`. -/
def setParentColor? (tmp parent : Option Ptr) (color : Color) : M Unit :=
  match tmp with
  | none => pure ()
  | some tmp => hev_rbtree_node_set_parent_color tmp parent color

/-- `if (tmp) hev_rbtree_node_set_parent (tmp, parent)`. -/
def setParent? (tmp parent : Option Ptr) : M Unit :=
  match tmp with
  | none => pure ()
  | some tmp => hev_rbtree_node_set_parent tmp parent

/-- `tmp && hev_rbtree_node_is_red (tmp)`. -/
def isRed? (tmp : Option Ptr) : M Bool :=
  match tmp with
  | none => pure false
  | some tmp => hev_rbtree_node_is_red tmp

/-- `!tmp || hev_rbtree_node_is_black (tmp)`. -/
def isBlack? (tmp : Option Ptr) : M Bool :=
  match tmp with
  | none => pure true
  | some tmp => hev_rbtree_node_is_black tmp

def setRoot (p : Option Ptr) : M Unit := fun h => some ((), { h with root := p })

def hev_rbtree_change_child (old : Ptr) (new parent : Option Ptr) : M Unit :=
  match parent with
  | some parent => do
    if (← child .left parent) = some old then setChild .left parent new
    else setChild .right parent new
  | none => setRoot new

def hev_rbtree_rotate_set_parents (old new : Ptr) (color : Color) : M Unit := do
  let parent ← hev_rbtree_node_parent old
  let n ← load old
  hev_rbtree_node_set_parent_color new n.parent n.color
  hev_rbtree_node_set_parent_color old (some new) color
  hev_rbtree_change_child old (some new) parent

/-- `link` is the place of the new node: a side of its parent, or the root. -/
def hev_rbtree_node_link (node : Ptr) (parent : Option Ptr) (link : Side) : M Unit := do
  modify node fun _ => ⟨parent, .red, none, none⟩
  match parent with
  | some parent => setChild link parent (some node)
  | none => setRoot (some node)

/-! ### Insertion -/

/-- Case 3 of `hev_rbtree_insert_color`. -/
def insertRotate (s : Side) (gparent parent : Ptr) (tmp : Option Ptr) : M Unit := do
  setChild s gparent tmp
  setChild s.flip parent (some gparent)
  setParentColor? tmp (some gparent) .black
  hev_rbtree_rotate_set_parents gparent parent .red

/-- The cases for a red parent on side `s` of `gparent`; the source has them once for each side. The
result is the `node` and the `parent` to go on with. -/
def insertTurn (s : Side) (node parent gparent : Ptr) : M (Option (Ptr × Option Ptr)) := do
  let tmp ← child s.flip gparent
  if ← isRed? tmp then
    setParentColor? tmp (some gparent) .black
    hev_rbtree_node_set_parent_color parent (some gparent) .black
    let node := gparent
    let parent ← hev_rbtree_node_parent node
    hev_rbtree_node_set_parent_color node parent .red
    return some (node, parent)
  else
    let tmp ← child s.flip parent
    if tmp = some node then
      let tmp ← child s node
      setChild s.flip parent tmp
      setChild s node (some parent)
      setParentColor? tmp (some parent) .black
      hev_rbtree_node_set_parent_color parent (some node) .red
      let tmp ← child s.flip node
      insertRotate s gparent node tmp
      return none
    else
      insertRotate s gparent parent tmp
      return none

/-- The loop of `hev_rbtree_insert_color`. -/
def insertLoop : Nat → Ptr → Option Ptr → M Unit
  | 0, _, _ => fault
  | _ + 1, node, none => hev_rbtree_node_set_parent_color node none .black
  | fuel + 1, node, some parent => do
    if ← hev_rbtree_node_is_black parent then return ()
    else
      let gparent ← deref (← hev_rbtree_node_red_parent parent)
      let tmp ← child .right gparent
      match ← insertTurn (if some parent ≠ tmp then .left else .right) node parent gparent with
      | none => return ()
      | some (node, parent) => insertLoop fuel node parent

def hev_rbtree_insert_color (fuel : Nat) (node : Ptr) : M Unit := do
  insertLoop fuel node (← hev_rbtree_node_red_parent node)

/-! ### Removal -/

/-- The descent to the leftmost node below `successor`. -/
def leftmost : Nat → Ptr → Ptr → M (Ptr × Ptr)
  | 0, _, _ => fault
  | fuel + 1, parent, successor => do
    match ← child .left successor with
    | none => return (parent, successor)
    | some tmp => leftmost fuel successor tmp

/-- Cases 2 and 3 of `_hev_rbtree_erase` up to the common end: the successor leaves its place. The
result is `parent`, `successor` and `child2`. -/
def takeSuccessor (fuel : Nat) (right : Ptr) : M (Ptr × Ptr × Option Ptr) := do
  match ← child .left right with
  | none => return (right, right, ← child .right right)
  | some tmp =>
    let (parent, successor) ← leftmost fuel right tmp
    let child2 ← child .right successor
    setChild .left parent child2
    setChild .right successor (some right)
    hev_rbtree_node_set_parent right (some successor)
    return (parent, successor, child2)

/-- `_hev_rbtree_erase`; its result is `rebalance`. -/
def eraseNode (fuel : Nat) (node : Ptr) : M (Option Ptr) := do
  let right ← child .right node
  let tmp ← child .left node
  let pc ← load node
  match tmp, right with
  | none, none =>
    hev_rbtree_change_child node none pc.parent
    return if pc.color = .black then pc.parent else none
  | none, some child =>
    hev_rbtree_change_child node (some child) pc.parent
    hev_rbtree_node_set_parent_color child pc.parent pc.color
    return none
  | some tmp, none =>
    hev_rbtree_node_set_parent_color tmp pc.parent pc.color
    hev_rbtree_change_child node (some tmp) pc.parent
    return none
  | some left, some right =>
    let (parent, successor, child2) ← takeSuccessor fuel right
    setChild .left successor (some left)
    hev_rbtree_node_set_parent left (some successor)
    let pc ← load node
    hev_rbtree_change_child node (some successor) pc.parent
    match child2 with
    | some child2 =>
      hev_rbtree_node_set_parent_color child2 (some parent) .black
      hev_rbtree_node_set_parent_color successor pc.parent pc.color
      return none
    | none =>
      let black ← hev_rbtree_node_is_black successor
      hev_rbtree_node_set_parent_color successor pc.parent pc.color
      return if black then some parent else none

/-- Case 4 of `_hev_rbtree_erase_color`. -/
def eraseRotate (s : Side) (parent sibling tmp1 : Ptr) : M Unit := do
  let tmp2 ← child s sibling
  setChild s.flip parent tmp2
  setChild s sibling (some parent)
  hev_rbtree_node_set_parent_color tmp1 (some sibling) .black
  setParent? tmp2 (some parent)
  hev_rbtree_rotate_set_parents parent sibling .black

/-- Cases 2 to 4 of `_hev_rbtree_erase_color` for a node on side `s` of `parent`; the source has them
once for each side. The result is the `node` and the `parent` to go on with. -/
def eraseTurn (s : Side) (parent sibling : Ptr) : M (Option (Ptr × Ptr)) := do
  let tmp1 ← child s.flip sibling
  if ← isBlack? tmp1 then
    let tmp2 ← child s sibling
    if ← isBlack? tmp2 then
      hev_rbtree_node_set_parent_color sibling (some parent) .red
      if ← hev_rbtree_node_is_red parent then
        hev_rbtree_node_set_black parent
        return none
      else
        match ← hev_rbtree_node_parent parent with
        | some up => return some (parent, up)
        | none => return none
    else
      let tmp2 ← deref tmp2
      let tmp1 ← child s.flip tmp2
      setChild s sibling tmp1
      setChild s.flip tmp2 (some sibling)
      setChild s.flip parent (some tmp2)
      setParentColor? tmp1 (some sibling) .black
      eraseRotate s parent tmp2 sibling
      return none
  else
    eraseRotate s parent sibling (← deref tmp1)
    return none

/-- Case 1 of `_hev_rbtree_erase_color`: a red sibling takes the place of `parent`. The result is the
new sibling. -/
def eraseRaise (s : Side) (parent sibling : Ptr) : M Ptr := do
  if ← hev_rbtree_node_is_red sibling then
    let tmp1 ← child s sibling
    setChild s.flip parent tmp1
    setChild s sibling (some parent)
    let tmp1 ← deref tmp1
    hev_rbtree_node_set_parent_color tmp1 (some parent) .black
    hev_rbtree_rotate_set_parents parent sibling .red
    return tmp1
  else return sibling

/-- The loop of `_hev_rbtree_erase_color`. -/
def eraseLoop : Nat → Option Ptr → Ptr → M Unit
  | 0, _, _ => fault
  | fuel + 1, node, parent => do
    let right ← child .right parent
    let s : Side := if node ≠ right then .left else .right
    let sibling ← eraseRaise s parent (← deref (← child s.flip parent))
    match ← eraseTurn s parent sibling with
    | none => return ()
    | some (node, parent) => eraseLoop fuel (some node) parent

def hev_rbtree_erase (fuel : Nat) (node : Ptr) : M Unit := do
  match ← eraseNode fuel node with
  | some rebalance => eraseLoop fuel none rebalance
  | none => return ()

/-! ### Walks -/

/-- `while (n->left) n = n->left`, or the same to the right. -/
def outermost (s : Side) : Nat → Ptr → M Ptr
  | 0, _ => fault
  | fuel + 1, n => do
    match ← child s n with
    | some n => outermost s fuel n
    | none => return n

def getRoot : M (Option Ptr) := fun h => some (h.root, h)

/-- `hev_rbtree_first` for the left side, `hev_rbtree_last` for the right one. -/
def endNode (s : Side) (fuel : Nat) : M (Option Ptr) := do
  match ← getRoot with
  | none => return none
  | some n => return some (← outermost s fuel n)

def hev_rbtree_first (fuel : Nat) : M (Option Ptr) := endNode .left fuel

def hev_rbtree_last (fuel : Nat) : M (Option Ptr) := endNode .right fuel

/-- `__parent_color` is the node itself, as a pointer. -/
def hev_rbtree_node_empty (node : Ptr) : M Bool := do
  let n ← load node
  return n.parent = some node ∧ n.color = .red

/-- Up while the node is the child on side `s`. -/
def ascend (s : Side) : Nat → Ptr → M (Option Ptr)
  | 0, _ => fault
  | fuel + 1, node => do
    match ← hev_rbtree_node_parent node with
    | none => return none
    | some parent => if (← child s parent) = some node then ascend s fuel parent else return some parent

/-- `hev_rbtree_node_next` for the right side, `hev_rbtree_node_prev` for the left one. -/
def neighbour (s : Side) (fuel : Nat) (node : Ptr) : M (Option Ptr) := do
  if ← hev_rbtree_node_empty node then return none
  else
    match ← child s node with
    | some node => return some (← outermost s.flip fuel node)
    | none => ascend s fuel node

def hev_rbtree_node_next (fuel : Nat) (node : Ptr) : M (Option Ptr) := neighbour .right fuel node

def hev_rbtree_node_prev (fuel : Nat) (node : Ptr) : M (Option Ptr) := neighbour .left fuel node

def hev_rbtree_replace (victim new : Ptr) : M Unit := do
  let parent ← hev_rbtree_node_parent victim
  let n ← load victim
  modify new fun _ => n
  setParent? (← child .left victim) (some new)
  setParent? (← child .right victim) (some new)
  hev_rbtree_change_child victim (some new) parent

end XTunnel.RbTree
