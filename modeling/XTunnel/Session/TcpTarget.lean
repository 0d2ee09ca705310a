import XTunnel.MappedDns.NameEncoding
import XTunnel.Socks5.Dialogue

/-! What the server opens for a connection that a program makes to an address. -/
namespace XTunnel.TcpTarget

open Net Socks5.Dialogue Socks5.Reply MappedDns HevMappedDNS Loop
open Socks5 hiding Outcome
open Dns (Bytes be be_two)
open Checked (hostU16)

/-- The two bytes change places. -/
def htons (port : BitVec 16) : BitVec 16 := port.extractLsb' 0 8 ++ port.extractLsb' 8 8

/-- The address and the port over the first bytes of the union. -/
def fromBytes (addr : HevSocks5Addr) (atype : UInt8) (ip : Bytes) (port : BitVec 16) : HevSocks5Addr :=
  HevSocks5Addr.ofMem (atype :: (ip ++ hostU16 port.toNat ++ addr.body.drop (ip.length + 2)))

def hev_socks5_addr_from_ipv4 (addr : HevSocks5Addr) (ipv4 : BitVec 32) (port : BitVec 16) : HevSocks5Addr :=
  fromBytes addr 1 (be 4 ipv4.toNat) port

def hev_socks5_addr_from_ipv6 (addr : HevSocks5Addr) (ipv6 : BitVec 128) (port : BitVec 16) : HevSocks5Addr :=
  fromBytes addr 4 (be 16 ipv6.toNat) port

/-- The singleton store after the lookup of an IPv4 address, and the name. -/
def lookedUp (dns : Option HevMappedDNS) (ip : BitVec 32) : Option HevMappedDNS × Option Name :=
  match dns with
  | none => (none, none)
  | some self => (some (self.lookup ip).1, (self.lookup ip).2)

/-- The bytes that `hev_socks5_addr_from_lwip` makes of a record; `none` is its result `-1`. -/
def hev_socks5_addr_from_lwip (dns : Option HevMappedDNS) (addr : HevSocks5Addr) (ip : IpAddr)
    (port : BitVec 16) : Outcome (Option HevMappedDNS × Option HevSocks5Addr) :=
  match ip with
  | .v4 ip =>
    match (lookedUp dns ip).2 with
    | some name => do
      let (_, addr) ← hev_socks5_addr_from_name addr name (htons port)
      pure ((lookedUp dns ip).1, some addr)
    | none => pure ((lookedUp dns ip).1, some (hev_socks5_addr_from_ipv4 addr ip (htons port)))
  | .v6 ip => pure (dns, some (hev_socks5_addr_from_ipv6 addr ip (htons port)))
  | .any => pure (dns, none)

/-- The bytes of an address, over an old record. -/
def record (addr : HevSocks5Addr) : Option SocksAddr → Outcome (Option HevSocks5Addr)
  | some (.name name port) => do
    let (_, addr) ← hev_socks5_addr_from_name addr name (htons port)
    pure (some addr)
  | some (.ipv4 ip port) => pure (some (hev_socks5_addr_from_ipv4 addr ip (htons port)))
  | some (.ipv6 ip port) => pure (some (hev_socks5_addr_from_ipv6 addr ip (htons port)))
  | none => pure none

/-- The record is that of the address which `addrFromLwip` chooses. -/
theorem from_lwip_eq (dns : Option HevMappedDNS) (addr : HevSocks5Addr) (ip : IpAddr) (port : BitVec 16) :
    hev_socks5_addr_from_lwip dns addr ip port =
      record addr (addrFromLwip dns ip port).2 >>= fun m => pure ((addrFromLwip dns ip port).1, m) := by
  cases ip with
  | v4 ip =>
    cases dns with
    | none => rfl
    | some self =>
      rw [hev_socks5_addr_from_lwip, addrFromLwip, lookedUp]
      obtain ⟨self', name⟩ := self.lookup ip
      cases name with
      | none => rfl
      | some name =>
        simp only [record]
        cases hev_socks5_addr_from_name addr name (htons port) <;> rfl
  | v6 ip => rfl
  | any => rfl

structure HevConfigServer where
  user : Option Text
  pass : Option Text
  pipeline : Bool

/-- The client behind `hev_socks5_client_set_auth`. -/
def client (srv : HevConfigServer) (addr : HevSocks5Addr) : HevSocks5Client :=
  if srv.user.isSome ∧ srv.pass.isSome then ⟨.tcp, srv.user, srv.pass, addr⟩
  else ⟨.tcp, none, none, addr⟩

def hi (port : BitVec 16) : UInt8 := UInt8.ofNat (port.toNat / 256)

def lo (port : BitVec 16) : UInt8 := UInt8.ofNat port.toNat

variable {dns : Option HevMappedDNS} {ip : IpAddr} {port : BitVec 16} {dst : Address} {addr m : HevSocks5Addr}
  {name : Name} {x y : UInt8}

section

variable {self : HevMappedDNS} {s t : NamedStore} {net mask : BitVec 32} {max idx : Nat} {h l : List Name}
  {op : Op} {ops : List NamedOp} {as : List Asked} {q : Query} {allocs : Nat → Allocation} {path : Descent}

end

end XTunnel.TcpTarget
