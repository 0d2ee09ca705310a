import XTunnel.Net.HostPort
import XTunnel.Net.IPText

/-! `parseSOCKS5UDPPacket` and the filters of `UDPAssociation.loop`. -/
namespace XTunnel.Socks5

open Net

inductive IPStrategy
  | default | ipv4Only | ipv6Only | pv4Pv6 | pv6Pv4
deriving DecidableEq, Repr

/-- The ports that a profile keeps off UDP. Only port numbers are ever put in. -/
structure BlockPorts where
  ports : List Int
  range : ∀ p ∈ ports, 0 < p ∧ p < 65536

namespace BlockPorts

def empty : BlockPorts := ⟨[], by simp⟩

def insert (s : BlockPorts) (port : Int) : BlockPorts :=
  if h : 0 < port ∧ port < 65536 then
    ⟨port :: s.ports, fun _ hp => (List.mem_cons.mp hp).elim (fun he => he ▸ h) (s.range _)⟩
  else s

/-- The set built from the trimmed parts of the comma-separated setting. -/
def ofParts (parts : List Text) : BlockPorts :=
  parts.foldl (fun s pp => if pp = [] then s else s.insert ((sscanfD pp).getD 0)) empty

end BlockPorts

/-- The globals that `loop` reads. -/
structure Config where
  ipStrategy : IPStrategy
  udpBlockPorts : BlockPorts

/-- The big-endian number in two bytes. -/
def be16 (hi lo : UInt8) : Nat := hi.toNat * 256 + lo.toNat

def addrType (b : Text) : UInt8 := b.getD 3 0

/-- Host text and end of the address field. -/
def parseAddr (b : Text) : Except String (Text × Nat) :=
  let off := 4
  match addrType b with
  | 0x01 =>
    if off + 4 > b.length then .error "IPv4地址长度过短"
    else .ok (ipString ((b.drop off).take 4), off + 4)
  | 0x03 =>
    if off + 1 > b.length then .error "域名长度不足"
    else
      let l := (b.getD off 0).toNat
      let off := off + 1
      if off + l > b.length then .error "域名长度不足"
      else .ok ((b.drop off).take l, off + l)
  | 0x04 =>
    if off + 16 > b.length then .error "IPv6地址长度过短"
    else .ok (ipString ((b.drop off).take 16), off + 16)
  | _ => .error "地址类型无效"

def parseSOCKS5UDPPacket (b : Text) : Except String (Text × Text) :=
  if b.length < 10 ∨ b.getD 2 0 ≠ 0 then .error "数据不合法"
  else
    match parseAddr b with
    | .error e => .error e
    | .ok (h, off) =>
      if off + 2 > b.length then .error "端口字段过短"
      else
        let p := be16 (b.getD off 0) (b.getD (off + 1) 0)
        let t :=
          if addrType b = 0x04 then lbracket :: h ++ rbracket :: colon :: itoa p
          else h ++ colon :: itoa p
        .ok (t, b.drop (off + 2))

/-- What the loop does with one datagram. -/
inductive Verdict
  | invalid
  | strategy
  | blocked
  | send (target data : Text)
deriving DecidableEq

/-- The address families that a strategy keeps out. -/
def refusedFamily (s : IPStrategy) (ip : IP) : Bool :=
  match s with
  | .ipv4Only => (to4 ip).isNone
  | .ipv6Only => (to4 ip).isSome
  | _ => false

def loopVerdict (cfg : Config) (b : Text) : Verdict :=
  match parseSOCKS5UDPPacket b with
  | .error _ => .invalid
  | .ok (tgt, data) =>
    let (h, ps) := splitHostPortOrEmpty tgt
    if (parseIP h).any (refusedFamily cfg.ipStrategy) then .strategy
    else
      let prt := (sscanfD ps).getD 0
      if prt ∈ cfg.udpBlockPorts.ports then .blocked else .send tgt data

/-- The address of a destination, as a request or a datagram carries it. -/
inductive Address
  | ipv4 (ip : IP) (h : ip.length = 4)
  | domain (name : Text) (h : name.length < 256)
  | ipv6 (ip : IP) (h : ip.length = 16)

namespace Address

def atyp : Address → UInt8
  | ipv4 .. => 0x01
  | domain .. => 0x03
  | ipv6 .. => 0x04

/-- The bytes after the address type. -/
def field : Address → Text
  | ipv4 ip _ => ip
  | domain name _ => UInt8.ofNat name.length :: name
  | ipv6 ip _ => ip

/-- The text that the server makes of the address. -/
def text : Address → Text
  | ipv4 ip _ => ipString ip
  | domain name _ => name
  | ipv6 ip _ => ipString ip

end Address

/-- A datagram to the destination; its first two reserved bytes are free. -/
def datagram (rsv₁ rsv₂ : UInt8) (a : Address) (hi lo : UInt8) (data : Text) : Text :=
  [rsv₁, rsv₂, 0, a.atyp] ++ (a.field ++ [hi, lo] ++ data)

section

variable {cfg : Config} {a b t d : Text}

/-- The end of the address field, by address type. -/
def addrEnd (b : Text) : Nat :=
  if addrType b = 0x01 then 8
  else if addrType b = 0x03 then 5 + (b.getD 4 0).toNat
  else 20

/-- The port field that follows the address field. -/
def portField (b : Text) : Nat := be16 (b.getD (addrEnd b) 0) (b.getD (addrEnd b + 1) 0)

def domainField (b : Text) : Text := (b.drop 5).take (b.getD 4 0).toNat

/-- The host part of the target, in its brackets for an IPv6 address field. -/
def hostField (b : Text) : Text :=
  if addrType b = 0x01 then ipString ((b.drop 4).take 4)
  else if addrType b = 0x03 then domainField b
  else lbracket :: ipString ((b.drop 4).take 16) ++ [rbracket]

/-- The address types that are accepted. -/
def KnownType (b : Text) : Prop :=
  addrType b = 0x01 ∨ addrType b = 0x03 ∨ addrType b = 0x04

theorem parseAddr_ok {h : Text} {off : Nat} (hp : parseAddr b = .ok (h, off)) :
    KnownType b ∧ off = addrEnd b ∧ off ≤ b.length ∧
      hostField b = if addrType b = 0x04 then lbracket :: h ++ [rbracket] else h := by
  unfold parseAddr at hp
  dsimp only at hp
  split at hp
  · rename_i ht
    split at hp
    · cases hp
    · cases hp
      exact ⟨Or.inl ht, by simp only [addrEnd, ht, if_true], by omega,
        by simp [hostField, ht]⟩
  · rename_i ht
    split at hp
    · cases hp
    · split at hp
      · cases hp
      · cases hp
        exact ⟨Or.inr (Or.inl ht), by simp [addrEnd, ht], by omega,
          by simp [hostField, ht, domainField]⟩
  · rename_i ht
    split at hp
    · cases hp
    · cases hp
      exact ⟨Or.inr (Or.inr ht), by simp [addrEnd, ht], by omega, by simp [hostField, ht]⟩
  · cases hp

/-- What an accepted packet yields. -/
theorem parse_ok (h : parseSOCKS5UDPPacket b = .ok (t, d)) :
    KnownType b ∧ 10 ≤ b.length ∧ addrEnd b + 2 ≤ b.length ∧
      t = hostField b ++ colon :: itoa (portField b) ∧ d = b.drop (addrEnd b + 2) := by
  unfold parseSOCKS5UDPPacket at h
  split at h
  · cases h
  · rename_i hok
    rw [not_or] at hok
    split at h
    · cases h
    · rename_i host off hp
      obtain ⟨hk, rfl, -, hf⟩ := parseAddr_ok hp
      split at h
      · cases h
      · cases h
        refine ⟨hk, by omega, by omega, ?_, rfl⟩
        rw [hf]
        split <;> simp [portField]

theorem loopVerdict_ok (h : parseSOCKS5UDPPacket b = .ok (t, d)) : loopVerdict cfg b =
    if (parseIP (splitHostPortOrEmpty t).1).any (refusedFamily cfg.ipStrategy) then .strategy
    else if (sscanfD (splitHostPortOrEmpty t).2).getD 0 ∈ cfg.udpBlockPorts.ports then .blocked
    else .send t d := by
  unfold loopVerdict
  rw [h]

/-- A datagram is sent to the target and with the payload that were parsed from it. -/
theorem parse_of_send (h : loopVerdict cfg b = .send t d) :
    parseSOCKS5UDPPacket b = .ok (t, d) := by
  cases hp : parseSOCKS5UDPPacket b with
  | error e =>
    unfold loopVerdict at h
    rw [hp] at h
    cases h
  | ok r =>
    obtain ⟨t', d'⟩ := r
    rw [loopVerdict_ok hp] at h
    split at h
    · cases h
    · split at h
      · cases h
      · cases h
        rfl

theorem parseIP_nil : parseIP [] = none := rfl

theorem sscanfD_nil : sscanfD [] = none := rfl

/-- The filters see nothing of a target that does not split: it passes them all. -/
theorem loopVerdict_unsplit (h : parseSOCKS5UDPPacket b = .ok (t, d))
    (hs : splitHostPort t = none) : loopVerdict cfg b = .send t d := by
  rw [loopVerdict_ok h, splitHostPortOrEmpty, hs]
  have h0 : (0 : Int) ∉ cfg.udpBlockPorts.ports := by
    intro h0
    have := cfg.udpBlockPorts.range 0 h0
    omega
  simp only [Option.getD_none, parseIP_nil, Option.any_none, Bool.false_eq_true, if_false,
    sscanfD_nil, h0]

theorem itoa_port (b : Text) : sscanfD (itoa (portField b)) = some (portField b : Int) := by
  apply sscanfD_itoa
  have hhi := (b.getD (addrEnd b) 0).toNat_lt
  have hlo := (b.getD (addrEnd b + 1) 0).toNat_lt
  simp only [portField, be16]
  omega

/-- A target that splits is filtered by its host and by the port field. -/
theorem loopVerdict_split {x q : Text} (h : parseSOCKS5UDPPacket b = .ok (t, d))
    (hs : splitHostPort t = some (x, q)) : loopVerdict cfg b =
      if (parseIP x).any (refusedFamily cfg.ipStrategy) then .strategy
      else if (portField b : Int) ∈ cfg.udpBlockPorts.ports then .blocked
      else .send t d := by
  obtain ⟨-, -, -, ht, -⟩ := parse_ok h
  have hq : q = itoa (portField b) := by
    rw [ht] at hs
    exact ((splitHostPort_append (plain_itoa _)).mp hs).1
  rw [loopVerdict_ok h, splitHostPortOrEmpty, hs]
  simp only [Option.getD_some, hq, itoa_port]

/-- A number written in two bytes is cut to 16 bits. -/
theorem be16_ofNat (n : Nat) : be16 (UInt8.ofNat (n / 256)) (UInt8.ofNat n) = n % 65536 := by
  simp only [be16, UInt8.toNat_ofNat']
  omega

theorem toNat_ofNat_length (h : a.length < 256) : (UInt8.ofNat a.length).toNat = a.length := by
  rw [UInt8.toNat_ofNat']
  omega

/-- The host part of the target that a datagram gets. -/
def Address.udpHost : Address → Text
  | .ipv6 ip _ => lbracket :: ipString ip ++ [rbracket]
  | .ipv4 ip _ => ipString ip
  | .domain name _ => name

variable {rsv₁ rsv₂ hi lo : UInt8} {dst : Address} {data : Text}

theorem parseAddr_datagram : parseAddr (datagram rsv₁ rsv₂ dst hi lo data) =
    .ok (dst.text, 4 + dst.field.length) := by
  have hlen : (datagram rsv₁ rsv₂ dst hi lo data).length =
      4 + (dst.field.length + 2 + data.length) := by
    simp [datagram]
    omega
  have htype : addrType (datagram rsv₁ rsv₂ dst hi lo data) = dst.atyp := rfl
  have htake : ∀ n, dst.field.length = n →
      ((datagram rsv₁ rsv₂ dst hi lo data).drop 4).take n = dst.field := by
    intro n hn
    subst hn
    simp [datagram]
  cases dst with
  | ipv4 ip h =>
    have hno : ¬ (4 + 4 > 4 + (ip.length + 2 + data.length)) := by omega
    simp only [parseAddr, htype, Address.atyp, htake 4 h, hlen, Address.field, if_neg hno]
    rw [h]
    rfl
  | domain name h =>
    have hl : (datagram rsv₁ rsv₂ (.domain name h) hi lo data).getD 4 0 =
        UInt8.ofNat name.length := rfl
    have hname : ((datagram rsv₁ rsv₂ (.domain name h) hi lo data).drop 5).take name.length =
        name := by
      simp [datagram, Address.field]
    have hno : ¬ (4 + 1 > 4 + (name.length + 1 + 2 + data.length)) := by omega
    have hno' : ¬ (4 + 1 + name.length > 4 + (name.length + 1 + 2 + data.length)) := by omega
    simp only [parseAddr, htype, Address.atyp, hl, toNat_ofNat_length h, hname, hlen,
      Address.field, List.length_cons, if_neg hno, if_neg hno']
    rw [Nat.add_assoc, Nat.add_comm 1]
    rfl
  | ipv6 ip h =>
    have hno : ¬ (4 + 16 > 4 + (ip.length + 2 + data.length)) := by omega
    simp only [parseAddr, htype, Address.atyp, htake 16 h, hlen, Address.field, if_neg hno]
    rw [h]
    rfl

theorem parse_short (h : b.length < 10) : parseSOCKS5UDPPacket b = .error "数据不合法" := by
  rw [parseSOCKS5UDPPacket, if_pos (Or.inl h)]

/-- A datagram of at least ten bytes is accepted, with the target of its destination. -/
theorem parse_datagram (hlen : 10 ≤ (datagram rsv₁ rsv₂ dst hi lo data).length) :
    parseSOCKS5UDPPacket (datagram rsv₁ rsv₂ dst hi lo data) =
      .ok (dst.udpHost ++ colon :: itoa (be16 hi lo), data) := by
  have hsplit : datagram rsv₁ rsv₂ dst hi lo data =
      ([rsv₁, rsv₂, 0, dst.atyp] ++ dst.field) ++ (hi :: lo :: data) := by
    simp [datagram]
  have hoff : 4 + dst.field.length = ([rsv₁, rsv₂, 0, dst.atyp] ++ dst.field).length := by
    simp
    omega
  have hhi : (datagram rsv₁ rsv₂ dst hi lo data).getD (4 + dst.field.length) 0 = hi := by
    rw [hsplit, hoff]
    simp
  have hlo : (datagram rsv₁ rsv₂ dst hi lo data).getD (4 + dst.field.length + 1) 0 = lo := by
    rw [hsplit, hoff]
    simp
  have hdrop : (datagram rsv₁ rsv₂ dst hi lo data).drop (4 + dst.field.length + 2) = data := by
    rw [hsplit, hoff]
    simp
  have hlong : 4 + dst.field.length + 2 ≤ (datagram rsv₁ rsv₂ dst hi lo data).length := by
    simp [datagram]
    omega
  have htwo : (datagram rsv₁ rsv₂ dst hi lo data).getD 2 0 = 0 := rfl
  have htype : addrType (datagram rsv₁ rsv₂ dst hi lo data) = dst.atyp := rfl
  have hno : ¬ ((datagram rsv₁ rsv₂ dst hi lo data).length < 10 ∨
      (datagram rsv₁ rsv₂ dst hi lo data).getD 2 0 ≠ 0) := by
    rw [htwo]
    simp
    omega
  rw [parseSOCKS5UDPPacket, if_neg hno, parseAddr_datagram]
  dsimp only
  rw [if_neg (by omega), hhi, hlo, hdrop, htype]
  cases dst <;> simp [Address.atyp, Address.udpHost, Address.text]

end
end XTunnel.Socks5
