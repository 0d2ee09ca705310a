import Mathlib.Data.List.Forall2
import XTunnel.Socks5.Codec
import XTunnel.Socks5.Handshake

/-! The requests and datagrams of `hev-socks5-core`, read by the server of the tunnel. -/
namespace XTunnel.Socks5

open Net

inductive HevSocks5Type
  | none | tcp | udpInTcp | udpInUdp
deriving DecidableEq

/-- The packed record: its address type, then the bytes of the union. -/
structure HevSocks5Addr where
  atype : UInt8
  body : Text
  size : body.length = 259

/-- A destination as the record holds it; the bytes after the port are left over. -/
structure HevSocks5Addr.Holds (m : HevSocks5Addr) (dst : Address) (hi lo : UInt8) : Prop where
  atype : m.atype = dst.atyp
  body : dst.field ++ [hi, lo] <+: m.body

namespace HevSocks5Addr

def domainLen (m : HevSocks5Addr) : UInt8 := m.body.getD 0 0

/-- The first bytes of the record. -/
def bytes (m : HevSocks5Addr) (n : Nat) : Text := (m.atype :: m.body).take n

end HevSocks5Addr

/-- The length of the record that goes on the wire; an unknown type is `-1`. -/
def hev_socks5_addr_len (addr : HevSocks5Addr) : Int :=
  match addr.atype with
  | 0x01 => 7
  | 0x04 => 19
  | 0x03 => 4 + addr.domainLen.toNat
  | _ => -1

/-- The bytes of a request, or `none` for the result `-1`. -/
def hev_socks5_client_write_request (type : HevSocks5Type) (addr : HevSocks5Addr) : Option Text :=
  let cmd : Option UInt8 :=
    match type with
    | .tcp => some 0x01
    | .udpInTcp => some 0x05
    | .udpInUdp => some 0x03
    | .none => none
  match cmd with
  | none => none
  | some cmd =>
    let addrlen : Option Nat :=
      match addr.atype with
      | 0x01 => some 7
      | 0x04 => some 19
      | 0x03 => some (4 + addr.domainLen.toNat)
      | _ => none
    addrlen.map fun addrlen => [0x05, cmd, 0] ++ addr.bytes addrlen

structure HevSocks5UDPMsg where
  addr : HevSocks5Addr
  buf : Text

/-- The datagrams of a vector of messages; one address without a length stops them all. -/
def hev_socks5_udp_sendmmsg_udp (msgv : List HevSocks5UDPMsg) : Option (List Text) :=
  msgv.mapM fun msg =>
    let addrlen := hev_socks5_addr_len msg.addr
    if addrlen ≤ 0 then none
    else some ([0, 0, 0] ++ msg.addr.bytes addrlen.toNat ++ msg.buf)

/-- A message to a destination and port. -/
structure Message extends HevSocks5UDPMsg where
  dst : Address
  hi : UInt8
  lo : UInt8
  holds : addr.Holds dst hi lo

namespace Message

variable (msg : Message)

/-- The port that both decoders read. -/
def port : Nat := be16 msg.hi msg.lo

def target : Text := joinHostPort msg.dst.text (itoa msg.port)

/-- A name without a colon; an address is any. -/
def NoColon : Prop :=
  match msg.dst with
  | .domain name _ => colon ∉ name
  | _ => True

/-- A name that makes less than ten bytes together with its payload. -/
def TooShort : Prop :=
  match msg.dst with
  | .domain name _ => name.length + msg.buf.length < 3
  | _ => False

end Message

/-- After any greeting the request is for the target of the message, which only the IP strategy
keeps from being connected to. -/
def RequestAgrees (st : IPStrategy) (cfgp : ProxyConfig) (hello : Text) (msg : Message) : Prop :=
  ∃ req, hev_socks5_client_write_request .tcp msg.addr = some req ∧
    ∀ s, (handleSOCKS5 st cfgp (hello ++ (req ++ s))).2 =
      if strategyRefuses st msg.dst.atyp (parseIP (splitHostPortOrEmpty msg.target).1) then .refused
      else .connect msg.target s

/-- The datagram is read as the host, in brackets for an IPv6 address, the port and the payload;
unless a name has brackets of its own, host and port can be split again. -/
def DatagramAgrees (msg : Message) (b : Text) : Prop :=
  ∃ t, parseSOCKS5UDPPacket b = .ok (t, msg.buf) ∧
    t = msg.dst.udpHost ++ colon :: itoa msg.port ∧
    (lbracket ∉ msg.dst.text → rbracket ∉ msg.dst.text →
      splitHostPort t = some (msg.dst.text, itoa msg.port))

/-- The client and the server agree on each message of a vector. -/
structure AddressesAgree (st : IPStrategy) (cfgp : ProxyConfig) (hello : Text)
    (msgv : List Message) : Prop where
  requests : ∀ msg ∈ msgv, RequestAgrees st cfgp hello msg
  datagrams : ∃ bs, hev_socks5_udp_sendmmsg_udp (msgv.map (·.toHevSocks5UDPMsg)) = some bs ∧
    List.Forall₂ DatagramAgrees msgv bs

variable {st : IPStrategy} {cfgp : ProxyConfig} {hello b : Text} {m : HevSocks5Addr}
  {dst : Address} {hi lo : UInt8} {msg : Message} {msgv : List Message}

theorem Address.field_length (dst : Address) : dst.field.length =
    match dst with
    | .ipv4 .. => 4
    | .domain name _ => name.length + 1
    | .ipv6 .. => 16 := by
  cases dst with
  | ipv4 ip h => exact h
  | domain name h => rfl
  | ipv6 ip h => exact h

theorem HevSocks5Addr.Holds.domainLen {name : Text} {h : name.length < 256}
    (hm : m.Holds (.domain name h) hi lo) : m.domainLen.toNat = name.length := by
  obtain ⟨rest, hr⟩ := hm.body
  have hbyte : m.domainLen = UInt8.ofNat name.length := by
    rw [HevSocks5Addr.domainLen, ← hr]
    rfl
  rw [hbyte, toNat_ofNat_length h]

/-- The length covers the address type, the address and the port. -/
theorem HevSocks5Addr.Holds.addr_len (hm : m.Holds dst hi lo) :
    hev_socks5_addr_len m = (dst.field.length + 3 : Nat) := by
  rw [hev_socks5_addr_len, hm.atype, dst.field_length]
  cases dst with
  | ipv4 ip h => rfl
  | domain name h =>
    simp only [Address.atyp, hm.domainLen]
    omega
  | ipv6 ip h => rfl

theorem HevSocks5Addr.Holds.bytes (hm : m.Holds dst hi lo) :
    m.bytes (dst.field.length + 3) = dst.atyp :: (dst.field ++ [hi, lo]) := by
  obtain ⟨rest, hr⟩ := hm.body
  have hlen : dst.field.length + 2 = (dst.field ++ [hi, lo]).length := by simp
  rw [HevSocks5Addr.bytes, hm.atype, ← hr, List.take_succ_cons, hlen, List.take_left]

theorem write_request (hm : m.Holds dst hi lo) :
    hev_socks5_client_write_request .tcp m = some (connectRequest 0 dst hi lo) := by
  have hb := hm.bytes
  have hl := dst.field_length
  rw [hl] at hb
  cases dst with
  | ipv4 ip h =>
    simp only [hev_socks5_client_write_request, hm.atype, Address.atyp, Option.map_some] at hb ⊢
    rw [hb]
    rfl
  | domain name h =>
    have hlen : 4 + m.domainLen.toNat = name.length + 1 + 3 := by
      rw [hm.domainLen]
      omega
    simp only [hev_socks5_client_write_request, hm.atype, Address.atyp, Option.map_some, hlen]
      at hb ⊢
    rw [hb]
    rfl
  | ipv6 ip h =>
    simp only [hev_socks5_client_write_request, hm.atype, Address.atyp, Option.map_some] at hb ⊢
    rw [hb]
    rfl

theorem request_agrees (hg : Greets cfgp hello) (msg : Message) :
    RequestAgrees st cfgp hello msg := by
  obtain ⟨replies, hg⟩ := hg
  refine ⟨_, write_request msg.holds, fun s => ?_⟩
  rw [hg, handleRequest_connect]
  dsimp only
  change (ite (strategyRefuses st msg.dst.atyp (parseIP (splitHostPortOrEmpty msg.target).1) = true)
    _ _ : List Text × Outcome).2 = _
  split <;> rfl

/-- The datagram of a message. -/
def Message.packet (msg : Message) : Text := datagram 0 0 msg.dst msg.hi msg.lo msg.buf

theorem sendmmsg (msgv : List Message) :
    hev_socks5_udp_sendmmsg_udp (msgv.map (·.toHevSocks5UDPMsg)) =
      some (msgv.map Message.packet) := by
  unfold hev_socks5_udp_sendmmsg_udp
  induction msgv with
  | nil => rfl
  | cons msg msgv ih =>
    have hpos : ¬ (((msg.dst.field.length + 3 : Nat) : Int) ≤ 0) := by omega
    have hpacket : [0, 0, 0] ++ msg.dst.atyp :: (msg.dst.field ++ [msg.hi, msg.lo]) ++ msg.buf =
        msg.packet := by
      simp [Message.packet, datagram]
    rw [List.map_cons, List.mapM_cons, ih]
    simp only [msg.holds.addr_len, if_neg hpos, Int.toNat_natCast, msg.holds.bytes, hpacket]
    rfl

theorem packet_length (msg : Message) :
    msg.packet.length = 6 + msg.dst.field.length + msg.buf.length := by
  simp [Message.packet, datagram]
  omega

theorem tooShort_iff : msg.TooShort ↔ msg.packet.length < 10 := by
  rw [packet_length, Address.field_length, Message.TooShort]
  cases msg.dst with
  | ipv4 ip h => exact iff_of_false id (by dsimp only; omega)
  | domain name h =>
    dsimp only
    omega
  | ipv6 ip h => exact iff_of_false id (by dsimp only; omega)

theorem splitHostPort_udpHost (hc : msg.NoColon) (hl : lbracket ∉ msg.dst.text)
    (hr : rbracket ∉ msg.dst.text) (p : Nat) :
    splitHostPort (msg.dst.udpHost ++ colon :: itoa p) = some (msg.dst.text, itoa p) := by
  unfold Message.NoColon at hc
  cases hd : msg.dst with
  | ipv4 ip h =>
    rw [Address.udpHost, Address.text, ipString_v4 h]
    exact splitHostPort_plain (plain_itoa p) (plain_dotted ip)
  | domain name h =>
    rw [hd] at hc hl hr
    exact splitHostPort_plain (plain_itoa p) ⟨hc, hl, hr⟩
  | ipv6 ip h =>
    rw [hd] at hl hr
    exact splitHostPort_bracketed (plain_itoa p) ⟨rfl, hl, hr⟩

theorem datagramAgrees_iff (hc : msg.NoColon) : DatagramAgrees msg msg.packet ↔ ¬ msg.TooShort := by
  rw [tooShort_iff]
  constructor
  · rintro ⟨t, ht, -⟩ hshort
    rw [parse_short hshort] at ht
    cases ht
  · intro hlong
    exact ⟨_, parse_datagram (by rw [← Message.packet]; omega), rfl,
      fun hl hr => splitHostPort_udpHost hc hl hr _⟩

theorem addresses_agree_iff (hg : Greets cfgp hello) (hc : ∀ msg ∈ msgv, msg.NoColon) :
    AddressesAgree st cfgp hello msgv ↔ ∀ msg ∈ msgv, ¬ msg.TooShort := by
  have hpackets : List.Forall₂ DatagramAgrees msgv (msgv.map Message.packet) ↔
      ∀ msg ∈ msgv, ¬ msg.TooShort := by
    rw [List.forall₂_map_right_iff, List.forall₂_same]
    exact forall₂_congr fun msg hm => datagramAgrees_iff (hc msg hm)
  rw [← hpackets]
  constructor
  · rintro ⟨-, bs, hbs, hall⟩
    rw [sendmmsg] at hbs
    cases hbs
    exact hall
  · intro hall
    exact ⟨fun msg _ => request_agrees hg msg, _, sendmmsg msgv, hall⟩

/-- An empty message to port 53 of the name of one byte `a`, in a zeroed record. -/
def toNameA : Message where
  addr := ⟨0x03, [1, 97, 0, 53] ++ List.replicate 255 0, by
    rw [List.length_append, List.length_replicate]
    rfl⟩
  buf := []
  dst := .domain [97] (by decide)
  hi := 0
  lo := 53
  holds := ⟨rfl, List.prefix_append [1, 97, 0, 53] _⟩

/-- The same message with two bytes, to a server that wants credentials. -/
theorem addresses_agree_iff_name :
    AddressesAgree .default ⟨[0x75], [0x70], []⟩
      ([0x05, 1] ++ ([2] ++ ([1, 1] ++ ([0x75] ++ ([1] ++ [0x70]))))) [{ toNameA with buf := [1, 2] }] := by
  have hg : Greets ⟨[0x75], [0x70], []⟩ _ :=
    greets_auth (a := [2]) (List.cons_ne_nil _ _) (by decide) (by decide) (by decide) 1
  refine (addresses_agree_iff hg ?_).mpr ?_
  · intro msg hm
    rw [List.mem_singleton.mp hm]
    exact fun hc => absurd hc (by decide)
  · intro msg hm
    rw [List.mem_singleton.mp hm]
    exact Nat.lt_irrefl 3

/-- The datagram is eight bytes long, and the server drops it. -/
theorem short_name_dropped :
    hev_socks5_udp_sendmmsg_udp [toNameA.toHevSocks5UDPMsg] = some [[0, 0, 0, 3, 1, 97, 0, 53]] ∧
    parseSOCKS5UDPPacket [0, 0, 0, 3, 1, 97, 0, 53] = .error "数据不合法" ∧
    ¬ AddressesAgree .default ⟨[], [], []⟩ [0x05, 1, 0] [toNameA] := by
  refine ⟨sendmmsg [toNameA], rfl, ?_⟩
  rintro ⟨-, bs, hbs, hall⟩
  rw [sendmmsg] at hbs
  cases hbs
  rw [List.map_singleton, List.forall₂_cons] at hall
  obtain ⟨t, ht, -⟩ := hall.1
  cases ht

end XTunnel.Socks5
