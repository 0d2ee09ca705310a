import XTunnel.HevList
import XTunnel.MappedDns.Store
import XTunnel.RbTree.Index

/-! The mapped DNS store as it lies in memory: a node is in a red-black tree and in a list by the
pointers in it. -/
namespace XTunnel.MappedDns

open Code RbTree
open HevList (hev_list_del hev_list_add_tail hev_list_first hev_list_node_next)

/-- `node->name` and `node->idx`; a name that could not be copied is `NULL`. -/
structure Fields where
  name : Option Name
  idx : Nat

/-- The fields of a node are in three memories over the same addresses. -/
structure Memory where
  use : Nat
  max : Nat
  net : BitVec 32
  mask : BitVec 32
  tree : HevRBTree
  list : HevList
  records : Nat → Option Ptr
  heap : Ptr → Option Fields
  brk : Ptr

/-- The sign of `strcmp`: bytes count as unsigned, and a string is before those that it begins. -/
def strcmp (a b : Name) : Ordering := compare a b

instance : Std.TransCmp strcmp := inferInstanceAs (Std.TransCmp (compare : Name → Name → Ordering))

instance : Std.LawfulEqCmp strcmp :=
  inferInstanceAs (Std.LawfulEqCmp (compare : Name → Name → Ordering))

namespace Memory

abbrev M := Code Memory

def onTree {α : Type} (x : Code HevRBTree α) : M α := x.on (·.tree) fun s t => { s with tree := t }

def onList {α : Type} (x : Code HevList α) : M α := x.on (·.list) fun s l => { s with list := l }

def read : M Memory := fun s => some (s, s)

def fields (node : Ptr) : M Fields := fun s => (s.heap node).map (·, s)

def hev_mapped_dns_construct (net mask : BitVec 32) (max : Nat) : Option Memory :=
  if (max : Int) > (~~~mask).toInt then none
  else some
    { use := 0, max, net, mask, tree := ⟨none, fun _ => none⟩, list := ⟨none, none, fun _ => none⟩,
      records := fun _ => none, heap := fun _ => none, brk := 0 }

/-- A zeroed node with a name. -/
def withNode (s : Memory) (name : Option Name) : Memory :=
  { s with
    tree := { s.tree with mem := Function.update s.tree.mem s.brk (some ⟨none, .red, none, none⟩) }
    list := { s.list with mem := Function.update s.list.mem s.brk (some ⟨none, none⟩) }
    heap := Function.update s.heap s.brk (some ⟨name, 0⟩)
    brk := s.brk + 1 }

/-- The outcome of `strdup` is not tested. -/
def hev_mapped_dns_node_alloc (name : Name) (alloc : Allocation) : M (Option Ptr) := fun s =>
  if alloc.node then some (some s.brk, s.withNode (if alloc.copy then some name else none))
  else some (none, s)

/-- The memory without a node. -/
def without (s : Memory) (node : Ptr) : Memory :=
  { s with
    tree := { s.tree with mem := Function.update s.tree.mem node none }
    list := { s.list with mem := Function.update s.list.mem node none }
    heap := Function.update s.heap node none }

/-- Freeing what is not allocated is a fault, too. -/
def hev_mapped_dns_node_free (node : Ptr) : M Unit := fun s =>
  (s.heap node).map fun _ => ((), s.without node)

def withRecord (s : Memory) (idx : Nat) (node : Ptr) : Memory :=
  { s with records := Function.update s.records idx (some node) }

def withFields (s : Memory) (node : Ptr) (n : Fields) : Memory :=
  { s with heap := Function.update s.heap node (some n) }

def setUse (use : Nat) : M Unit := fun s => some ((), { s with use })

/-- `records[idx] = node`, in an array of `max` pointers. -/
def setRecord (idx : Nat) (node : Ptr) : M Unit := fun s =>
  if idx < s.max then some ((), s.withRecord idx node) else none

def setIdx (node : Ptr) (idx : Nat) : M Unit := fun s =>
  (s.heap node).map fun n => ((), s.withFields node { n with idx })

/-- The slot of a new node: the next one, or that of the head of the list, which is freed. -/
def takeSlot (fuel : Nat) : M Nat := do
  let s ← read
  if s.use < s.max then
    setUse (s.use + 1)
    return s.use
  else
    let nf ← deref (← onList hev_list_first)
    let n ← fields nf
    onTree (hev_rbtree_erase fuel nf)
    onList (hev_list_del nf)
    hev_mapped_dns_node_free nf
    return n.idx

/-- `strcmp` of a `NULL` name is a fault. -/
def hev_mapped_dns_find (fuel : Nat) (name : Name) (alloc : Allocation) : M (Option Nat) := do
  let s ← read
  let cmp p := (s.heap p).bind fun node => node.name.map (strcmp · name)
  match ← onTree (descend cmp fuel none .left s.tree.root) with
  | .inl node =>
    onList (hev_list_del node >>= fun _ => hev_list_add_tail node)
    return some (← fields node).idx
  | .inr (parent, new) =>
    match ← hev_mapped_dns_node_alloc name alloc with
    | none => return none
    | some node =>
      onTree (hev_rbtree_node_link node parent new >>= fun _ => hev_rbtree_insert_color fuel node)
      onList (hev_list_add_tail node)
      let idx ← takeSlot fuel
      setRecord idx node
      setIdx node idx
      return some idx

/-- A slot outside of the array is a fault. -/
def hev_mapped_dns_lookup (ip : BitVec 32) : M (Option Name) := do
  let s ← read
  let idx := (ip &&& ~~~s.mask).toInt
  if idx ≥ s.max then return none
  else if idx < 0 then fault
  else
    match s.records idx.toNat with
    | none => return none
    | some node =>
      onList (hev_list_del node >>= fun _ => hev_list_add_tail node)
      return (← fields node).name

/-- The loop of `hev_mapped_dns_destruct`. -/
def destructLoop : Nat → Option Ptr → M Unit
  | _, none => return ()
  | 0, some _ => fault
  | fuel + 1, some n => do
    let next ← onList (hev_list_node_next n)
    hev_mapped_dns_node_free n
    destructLoop fuel next

def hev_mapped_dns_destruct (fuel : Nat) : M Unit := do
  destructLoop fuel (← onList hev_list_first)

/-- An operation with the loops in the tree cut off after `fuel` steps. -/
def perform (fuel : Nat) : NamedOp → M (Option Nat ⊕ Option Name)
  | .find name alloc => do return .inl (← hev_mapped_dns_find fuel name alloc)
  | .lookup ip => do return .inr (← hev_mapped_dns_lookup ip)

def performAll (fuel : Nat) : List NamedOp → M (List (Option Nat ⊕ Option Name))
  | [] => return []
  | op :: ops => do
    let answer ← perform fuel op
    return answer :: (← performAll fuel ops)

end Memory

end XTunnel.MappedDns
