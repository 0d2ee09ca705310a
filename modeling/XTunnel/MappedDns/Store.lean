import XTunnel.Transition
import Mathlib.Data.List.Nodup
import Mathlib.Logic.Function.Basic

/-! The mapped DNS store of hev-mapped-dns.c: a search tree, a recency list and a slot array
over the same nodes. -/
namespace XTunnel.MappedDns

/-- A C string without its terminator. -/
abbrev Name := List UInt8

/-- The address of a heap node. -/
abbrev Ptr := Nat

structure HevMappedDNSNode where
  name : Name
  idx : Nat
deriving DecidableEq, Repr

/-- `brk` is the allocator's next fresh address and `heap` the nodes not yet freed. -/
structure HevMappedDNS where
  use : Nat
  max : Nat
  net : BitVec 32
  mask : BitVec 32
  list : List Ptr
  tree : List Ptr
  records : Nat → Option Ptr
  heap : Ptr → Option HevMappedDNSNode
  brk : Ptr

namespace HevMappedDNS

/-- `hev_mapped_dns_construct` over the zeroed object; both sides of its test are `int`s. -/
def construct (net mask : BitVec 32) (max : Nat) : Option HevMappedDNS :=
  if (max : Int) > (~~~mask).toInt then none
  else some
    { use := 0, max, net, mask, list := [], tree := [], records := fun _ => none,
      heap := fun _ => none, brk := 0 }

def named (self : HevMappedDNS) (name : Name) (p : Ptr) : Bool :=
  (self.heap p).any fun node => node.name == name

/-- The descent by `strcmp`, on a tree that is a correct search tree. -/
def search (self : HevMappedDNS) (name : Name) : Option Ptr :=
  self.tree.find? (self.named name)

/-- `hev_list_del` followed by `hev_list_add_tail`. -/
def touch (self : HevMappedDNS) (p : Ptr) : HevMappedDNS :=
  { self with list := self.list.erase p ++ [p] }

/-- A fresh zeroed node, linked into the tree and at the tail of the list. -/
def link (self : HevMappedDNS) (name : Name) : HevMappedDNS :=
  { self with
    list := self.list ++ [self.brk]
    tree := self.tree ++ [self.brk]
    heap := Function.update self.heap self.brk (some ⟨name, 0⟩)
    brk := self.brk + 1 }

/-- Erasing a node from the tree and the list, and freeing it. -/
def unlink (self : HevMappedDNS) (p : Ptr) : HevMappedDNS :=
  { self with
    list := self.list.erase p
    tree := self.tree.erase p
    heap := Function.update self.heap p none }

/-- `records[idx] = node; node->idx = idx`. -/
def record (self : HevMappedDNS) (p : Ptr) (idx : Nat) : HevMappedDNS :=
  { self with
    records := Function.update self.records idx (some p)
    heap := Function.update self.heap p ((self.heap p).map fun node => { node with idx }) }

/-- `hev_mapped_dns_find`; `none` is its -1. The new node is linked before the victim, the head
of the list, is removed. `alloc` tells whether `hev_mapped_dns_node_alloc` succeeds. -/
def find (self : HevMappedDNS) (name : Name) (alloc : Bool) : HevMappedDNS × Option Nat :=
  match self.search name with
  | some p => (self.touch p, (self.heap p).map (·.idx))
  | none =>
    if !alloc then (self, none)
    else
      let node := self.brk
      let linked := self.link name
      if self.use < self.max then
        ({ linked with use := self.use + 1 }.record node self.use, some self.use)
      else
        match linked.list.head? with
        | none => (linked, none)
        | some nf =>
          let idx := ((linked.heap nf).map (·.idx)).getD 0
          ((linked.unlink nf).record node idx, some idx)

/-- `ip & ~mask`. -/
def hostPart (self : HevMappedDNS) (ip : BitVec 32) : BitVec 32 := ip &&& ~~~self.mask

/-- `hev_mapped_dns_lookup`; `none` is its `NULL`. -/
def lookup (self : HevMappedDNS) (ip : BitVec 32) : HevMappedDNS × Option Name :=
  let idx := self.hostPart ip
  if idx.toInt ≥ (self.max : Int) then (self, none)
  else
    match self.records idx.toNat with
    | none => (self, none)
    | some p => (self.touch p, (self.heap p).map (·.name))

/-- `net | idx`, the address that `hev_mapped_dns_handle` answers for a slot. -/
def address (self : HevMappedDNS) (idx : Nat) : BitVec 32 := self.net ||| BitVec.ofNat 32 idx

end HevMappedDNS

inductive Op
  | find (name : Name) (alloc : Bool)
  | lookup (ip : BitVec 32)

inductive Step : HevMappedDNS → Op → HevMappedDNS → Prop
  | find (self : HevMappedDNS) (name : Name) (alloc : Bool) :
      Step self (.find name alloc) (self.find name alloc).1
  | lookup (self : HevMappedDNS) (ip : BitVec 32) : Step self (.lookup ip) (self.lookup ip).1

/-- Which of the two allocations of `hev_mapped_dns_node_alloc` succeed: that of the node, and the copy
of its name. -/
structure Allocation where
  node : Bool
  copy : Bool

/-- A find with both allocations, or a lookup. -/
inductive NamedOp
  | find (name : Name) (alloc : Allocation)
  | lookup (ip : BitVec 32)

/-- The operations on the nodes, with the names that they are made for. -/
def NamedOp.erase : NamedOp → Op
  | find name alloc => .find name alloc.node
  | lookup ip => .lookup ip

/-- The stores that finds and lookups make of a constructed one. -/
def ReachableStore (net mask : BitVec 32) (max : Nat) : HevMappedDNS → Prop :=
  Reachable (fun s => HevMappedDNS.construct net mask max = some s) Step

/-- The IP address forms that `hev_socks5_addr_from_lwip` tells apart. -/
inductive IpAddr
  | v4 (addr : BitVec 32)
  | v6 (addr : BitVec 128)
  | any
deriving DecidableEq

/-- Which `hev_socks5_addr_from_*` fills the SOCKS5 address, and with what. -/
inductive SocksAddr
  | name (name : Name) (port : BitVec 16)
  | ipv4 (addr : BitVec 32) (port : BitVec 16)
  | ipv6 (addr : BitVec 128) (port : BitVec 16)
deriving DecidableEq

/-- `hev_socks5_addr_from_lwip`, with the singleton store if there is one. -/
def addrFromLwip (dns : Option HevMappedDNS) (ip : IpAddr) (port : BitVec 16) :
    Option HevMappedDNS × Option SocksAddr :=
  match ip with
  | .v4 addr =>
    match dns with
    | none => (none, some (.ipv4 addr port))
    | some self =>
      match self.lookup addr with
      | (self', some name) => (some self', some (.name name port))
      | (self', none) => (some self', some (.ipv4 addr port))
  | .v6 addr => (dns, some (.ipv6 addr port))
  | .any => (dns, none)

end XTunnel.MappedDns
