import XTunnel.Socks5.Packet

/-! Which datagrams to a blocked port the loop keeps back. -/
namespace XTunnel.Socks5

open Net

variable {cfg : Config} {b t d : Text}

/-- The address field is an address, or a domain whose text splits off the port again. -/
def PortChecked (b : Text) : Prop :=
  addrType b = 0x01 ∨ addrType b = 0x04 ∨
    Plain (domainField b) ∨ ∃ x, Bracketed (domainField b) x

theorem not_isAddrByte_bracket {s : Text} (h : ∀ c ∈ s, isAddrByte c = true) :
    lbracket ∉ s ∧ rbracket ∉ s := by
  constructor
  · intro hm
    exact absurd (h _ hm) (by decide)
  · intro hm
    exact absurd (h _ hm) (by decide)

theorem plain_dotted (ip : IP) : Plain (dotted ip) := by
  have hno : ∀ c, isDigit c = false → c ≠ dot → c ∉ dotted ip := by
    intro c hc hd hm
    rcases mem_dotted hm with h | h
    · rw [h] at hc
      cases hc
    · exact hd h
  exact ⟨hno _ (by decide) (by decide), hno _ (by decide) (by decide),
    hno _ (by decide) (by decide)⟩

/-- The target of an accepted packet splits exactly when its port is checked. -/
theorem splits_iff (h : parseSOCKS5UDPPacket b = .ok (t, d)) :
    (∃ r, splitHostPort t = some r) ↔ PortChecked b := by
  obtain ⟨hk, hlen, -, rfl, -⟩ := parse_ok h
  have hiff : (∃ r, splitHostPort (hostField b ++ colon :: itoa (portField b)) = some r) ↔
      Plain (hostField b) ∨ ∃ x, Bracketed (hostField b) x := by
    constructor
    · rintro ⟨⟨x, q⟩, hr⟩
      rcases ((splitHostPort_append (plain_itoa _)).mp hr).2 with ⟨hp, -⟩ | hb
      · exact Or.inl hp
      · exact Or.inr ⟨x, hb⟩
    · rintro (hp | ⟨x, hb⟩)
      · exact ⟨_, splitHostPort_plain (plain_itoa _) hp⟩
      · exact ⟨_, splitHostPort_bracketed (plain_itoa _) hb⟩
  rw [hiff]
  rcases hk with ht | ht | ht
  · have hf : hostField b = dotted ((b.drop 4).take 4) := by
      rw [hostField, if_pos ht, ipString_v4 (by rw [List.length_take, List.length_drop]; omega)]
    rw [hf]
    exact ⟨fun _ => Or.inl ht, fun _ => Or.inl (plain_dotted _)⟩
  · have hf : hostField b = domainField b := by simp [hostField, ht]
    have h1 : ¬ (addrType b = 0x01) := by simp [ht]
    have h4 : ¬ (addrType b = 0x04) := by simp [ht]
    rw [hf, PortChecked, or_iff_right h1, or_iff_right h4]
  · have hend : 20 ≤ b.length := by
      obtain ⟨-, -, he, -, -⟩ := parse_ok h
      simp only [addrEnd, ht] at he
      have h1 : ¬ ((0x04 : UInt8) = 0x01) := by decide
      have h3 : ¬ ((0x04 : UInt8) = 0x03) := by decide
      rw [if_neg h1, if_neg h3] at he
      omega
    have hf : hostField b = lbracket :: ipString ((b.drop 4).take 16) ++ [rbracket] := by
      simp [hostField, ht]
    have hbytes := not_isAddrByte_bracket fun c (hc : c ∈ ipString ((b.drop 4).take 16)) =>
      mem_ipString (Or.inr (by rw [List.length_take, List.length_drop]; omega)) hc
    exact ⟨fun _ => Or.inr (Or.inl ht), fun _ => Or.inr ⟨_, hf, hbytes.1, hbytes.2⟩⟩

/-- The loop does not call `send` for the datagram. -/
def Dropped (cfg : Config) (b : Text) : Prop := ∀ target data, loopVerdict cfg b ≠ .send target data

theorem blocked_port_dropped_iff (h : parseSOCKS5UDPPacket b = .ok (t, d))
    (hp : (portField b : Int) ∈ cfg.udpBlockPorts.ports) : Dropped cfg b ↔ PortChecked b := by
  rw [← splits_iff h]
  constructor
  · intro hd
    by_contra hno
    apply hd t d
    apply loopVerdict_unsplit h
    rw [Option.eq_none_iff_forall_ne_some]
    exact fun r hr => hno ⟨r, hr⟩
  · rintro ⟨⟨x, q⟩, hs⟩ target data hv
    rw [loopVerdict_split h hs, if_pos hp] at hv
    split at hv <;> cases hv

/-- The shipped setting: port 443 is blocked. -/
def block443 : Config := ⟨.default, BlockPorts.ofParts [[52, 52, 51]]⟩

/-- A datagram to `1.2.3.4`, port 443. -/
def quicToAddress : Text := [0, 0, 0, 1, 1, 2, 3, 4, 1, 0xbb]

/-- A datagram to the domain `a:b`, port 443. -/
def quicToColon : Text := [0, 0, 0, 3, 3, 97, 58, 98, 1, 0xbb]

theorem blocked_port_dropped_iff_address : Dropped block443 quicToAddress ↔
    PortChecked quicToAddress :=
  blocked_port_dropped_iff (t := [49, 46, 50, 46, 51, 46, 52, 58, 52, 52, 51]) (d := []) rfl
    (by decide)

/-- The colon of the domain hides the blocked port. -/
theorem colon_bypasses_block : (portField quicToColon : Int) ∈ block443.udpBlockPorts.ports ∧
    parseSOCKS5UDPPacket quicToColon = .ok ([97, 58, 98, 58, 52, 52, 51], []) ∧
    loopVerdict block443 quicToColon = .send [97, 58, 98, 58, 52, 52, 51] [] ∧
    ¬ Dropped block443 quicToColon :=
  ⟨by decide, rfl, by decide, fun h => h [97, 58, 98, 58, 52, 52, 51] [] (by decide)⟩

end XTunnel.Socks5
