import XTunnel.Socks5.PortBlocking

/-! The packets that `buildSOCKS5UDPPacket` makes, read by `parseSOCKS5UDPPacket`. -/
namespace XTunnel.Socks5

open Net

/-- The two bytes of a port. -/
def portBytes (p : Nat) : Text := [UInt8.ofNat (p / 256), UInt8.ofNat p]

/-- The source has an error result, and never returns one. -/
def buildSOCKS5UDPPacket (h : Text) (p : Nat) (d : Text) : Except String Text :=
  let buf : Text := [0, 0, 0]
  let buf :=
    match parseIP h with
    | some ip =>
      match to4 ip with
      | some ip4 => buf ++ (0x01 :: ip4)
      | none => buf ++ (0x04 :: ip)
    | none => buf ++ (0x03 :: UInt8.ofNat h.length :: h)
  .ok (buf ++ portBytes p ++ d)

/-- The text of a literal as `net.IP` prints it, any other text as it is. -/
def canonicalHost (h : Text) : Text :=
  match parseIP h with
  | some ip => ipString ip
  | none => h

/-- A packet that is built is read back as its host, port and payload. -/
def CodecLaw (h : Text) (p : Nat) (d : Text) : Prop :=
  ∀ b, buildSOCKS5UDPPacket h p d = .ok b →
    parseSOCKS5UDPPacket b = .ok (joinHostPort (canonicalHost h) (itoa p), d)

/-- A literal, or a name that fits its length byte, has no colon and makes ten bytes with the
payload. -/
def Encodable (h d : Text) : Prop :=
  (∃ ip, parseIP h = some ip) ∨ (h.length ≤ 255 ∧ colon ∉ h ∧ 3 ≤ h.length + d.length)

variable {h d s : Text} {p : Nat} {ip ip4 : IP}

theorem joinHostPort_of_colon (hc : colon ∈ h) (s : Text) :
    joinHostPort h s = lbracket :: h ++ rbracket :: colon :: s := by
  rw [joinHostPort, if_pos hc]

theorem joinHostPort_of_notMem (hc : colon ∉ h) (s : Text) :
    joinHostPort h s = h ++ colon :: s := by
  rw [joinHostPort, if_neg hc]

theorem colon_mem_ipString (hlen : ip.length = 16) (h4 : to4 ip = none) :
    colon ∈ ipString ip := by
  have hne : ip ≠ [] := by
    rintro rfl
    cases hlen
  rw [ipString, if_neg hne, h4]
  simp only [if_pos hlen]
  exact colon_mem_string6 (groups_length (by omega))

theorem ipString_to4 (hlen : ip.length = 16) (h4 : to4 ip = some ip4) :
    ipString ip = ipString ip4 := by
  have hne : ip ≠ [] := by
    rintro rfl
    cases hlen
  rw [ipString_v4 (to4_some_of_length hlen h4).2, ipString, if_neg hne, h4]

theorem build_ipv4 (hip : parseIP h = some ip) (h4 : to4 ip = some ip4) (hlen : ip4.length = 4) :
    buildSOCKS5UDPPacket h p d =
      .ok (datagram 0 0 (.ipv4 ip4 hlen) (UInt8.ofNat (p / 256)) (UInt8.ofNat p) d) := by
  simp [buildSOCKS5UDPPacket, hip, h4, datagram, portBytes, Address.atyp, Address.field]

theorem build_ipv6 (hip : parseIP h = some ip) (h4 : to4 ip = none) (hlen : ip.length = 16) :
    buildSOCKS5UDPPacket h p d =
      .ok (datagram 0 0 (.ipv6 ip hlen) (UInt8.ofNat (p / 256)) (UInt8.ofNat p) d) := by
  simp [buildSOCKS5UDPPacket, hip, h4, datagram, portBytes, Address.atyp, Address.field]

theorem build_name (hip : parseIP h = none) (hlen : h.length < 256) :
    buildSOCKS5UDPPacket h p d =
      .ok (datagram 0 0 (.domain h hlen) (UInt8.ofNat (p / 256)) (UInt8.ofNat p) d) := by
  simp [buildSOCKS5UDPPacket, hip, datagram, portBytes, Address.atyp, Address.field]

/-- The length byte of a long name counts only part of it: the port and the payload start within
the name. -/
theorem build_long (hip : parseIP h = none) (hlen : 256 ≤ h.length) :
    ∃ name hn hi lo rest, buildSOCKS5UDPPacket h p d = .ok (datagram 0 0 (.domain name hn) hi lo rest) ∧
      d.length < rest.length := by
  have hn : (h.take (h.length % 256)).length = h.length % 256 := by
    rw [List.length_take]
    omega
  have hlt : h.length % 256 < 256 := Nat.mod_lt _ (by decide)
  have hrest : (h.drop (h.length % 256)).length = h.length - h.length % 256 := List.length_drop
  obtain ⟨hi, t, ht⟩ := List.exists_cons_of_length_pos (l := h.drop (h.length % 256)) (by omega)
  obtain ⟨lo, t', rfl⟩ := List.exists_cons_of_length_pos (l := t) (by
    rw [ht, List.length_cons] at hrest
    omega)
  refine ⟨h.take (h.length % 256), by omega, hi, lo, t' ++ (portBytes p ++ d), ?_, ?_⟩
  · have hbyte : UInt8.ofNat (h.length % 256) = UInt8.ofNat h.length := by
      apply UInt8.toNat.inj
      rw [UInt8.toNat_ofNat', UInt8.toNat_ofNat', Nat.mod_mod]
    have hsplit : h.take (h.length % 256) ++ (hi :: lo :: t') = h := by
      rw [← ht, List.take_append_drop]
    have hbytes : h.take (h.length % 256) ++ (hi :: lo :: (t' ++ (portBytes p ++ d))) =
        h ++ (portBytes p ++ d) := by
      rw [← List.cons_append, ← List.cons_append, ← List.append_assoc, hsplit]
    simp only [buildSOCKS5UDPPacket, hip, datagram, Address.atyp, Address.field, hn, hbyte]
    simp [hbytes]
  · rw [List.length_append, List.length_append, portBytes]
    simp only [List.length_cons, List.length_nil]
    omega

theorem codecLaw_literal (hp : p ≤ 65535) (hip : parseIP h = some ip) : CodecLaw h p d := by
  have hlen := length_of_parseIP hip
  have hport : be16 (UInt8.ofNat (p / 256)) (UInt8.ofNat p) = p := by
    rw [be16_ofNat]
    omega
  have hcanon : canonicalHost h = ipString ip := by rw [canonicalHost, hip]
  intro b hb
  cases h4 : to4 ip with
  | some ip4 =>
    have hfour := (to4_some_of_length hlen h4).2
    rw [build_ipv4 hip h4 hfour] at hb
    cases hb
    rw [parse_datagram (by simp [datagram, Address.field]; omega), hport, hcanon,
      ipString_to4 hlen h4, joinHostPort_of_notMem]
    · rfl
    · rw [ipString_v4 hfour]
      exact (plain_dotted ip4).colon
  | none =>
    rw [build_ipv6 hip h4 hlen] at hb
    cases hb
    rw [parse_datagram (by simp [datagram, Address.field]; omega), hport, hcanon,
      joinHostPort_of_colon (colon_mem_ipString hlen h4)]
    simp [Address.udpHost]

theorem codecLaw_name_iff (hp : p ≤ 65535) (hip : parseIP h = none) (hlen : h.length < 256) :
    CodecLaw h p d ↔ colon ∉ h ∧ 3 ≤ h.length + d.length := by
  have hport : be16 (UInt8.ofNat (p / 256)) (UInt8.ofNat p) = p := by
    rw [be16_ofNat]
    omega
  have hcanon : canonicalHost h = h := by rw [canonicalHost, hip]
  have hsize : (datagram 0 0 (.domain h hlen) (UInt8.ofNat (p / 256)) (UInt8.ofNat p) d).length =
      7 + (h.length + d.length) := by
    simp [datagram, Address.field]
    omega
  have hlaw : CodecLaw h p d ↔ parseSOCKS5UDPPacket (datagram 0 0 (.domain h hlen)
      (UInt8.ofNat (p / 256)) (UInt8.ofNat p) d) = .ok (joinHostPort h (itoa p), d) := by
    rw [CodecLaw, build_name hip hlen, hcanon]
    exact ⟨fun hc => hc _ rfl, fun hc b hb => Except.ok.inj hb ▸ hc⟩
  rw [hlaw]
  by_cases hshort : h.length + d.length < 3
  · rw [parse_short (by omega)]
    constructor
    · intro he
      cases he
    · intro hc
      omega
  · rw [parse_datagram (by omega), hport, Except.ok.injEq, Prod.mk.injEq]
    by_cases hc : colon ∈ h
    · rw [joinHostPort_of_colon hc]
      constructor
      · intro he
        have := congrArg List.length he.1
        simp only [Address.udpHost, List.length_append, List.length_cons] at this
        omega
      · intro hn
        exact absurd hc hn.1
    · rw [joinHostPort_of_notMem hc]
      exact ⟨fun _ => ⟨hc, by omega⟩, fun _ => ⟨rfl, rfl⟩⟩

theorem not_codecLaw_long (hip : parseIP h = none) (hlen : 256 ≤ h.length) :
    ¬ CodecLaw h p d := by
  intro hlaw
  obtain ⟨name, hn, hi, lo, rest, hb, hrest⟩ := build_long (p := p) (d := d) hip hlen
  have hp := hlaw _ hb
  by_cases hshort : (datagram 0 0 (.domain name hn) hi lo rest).length < 10
  · rw [parse_short hshort] at hp
    cases hp
  · rw [parse_datagram (by omega)] at hp
    have hd := (Prod.mk.inj (Except.ok.inj hp)).2
    rw [hd] at hrest
    exact Nat.lt_irrefl _ hrest

theorem codec_law_iff (hp : p ≤ 65535) : CodecLaw h p d ↔ Encodable h d := by
  unfold Encodable
  cases hip : parseIP h with
  | some ip => exact iff_of_true (codecLaw_literal hp hip) (Or.inl ⟨ip, rfl⟩)
  | none =>
    have hno : ¬ ∃ ip, (none : Option IP) = some ip := by simp
    rw [or_iff_right hno]
    by_cases hlen : h.length < 256
    · rw [codecLaw_name_iff hp hip hlen]
      exact ⟨fun hc => ⟨by omega, hc⟩, fun hc => hc.2⟩
    · exact iff_of_false (not_codecLaw_long hip (by omega)) (fun hc => by omega)

theorem codec_law_iff_dns : CodecLaw [97, 46, 98] 53 [] ↔ Encodable [97, 46, 98] [] :=
  codec_law_iff (by decide)

/-- The packet of an empty reply from the host `a` is too short for the reader, and the target of
a zoned literal comes back without its brackets. -/
theorem short_reply_rejected :
    (buildSOCKS5UDPPacket [97] 53 [] = .ok [0, 0, 0, 3, 1, 97, 0, 53] ∧
      parseSOCKS5UDPPacket [0, 0, 0, 3, 1, 97, 0, 53] = .error "数据不合法") ∧
    ¬ CodecLaw [97] 53 [] ∧ ¬ CodecLaw [102, 101, 56, 48, 58, 58, 49, 37, 48] 53 [] := by
  have hzoned : ¬ CodecLaw [102, 101, 56, 48, 58, 58, 49, 37, 48] 53 [] := by
    intro hlaw
    exact absurd (hlaw _ rfl) (by decide)
  refine ⟨⟨rfl, rfl⟩, ?_, hzoned⟩
  intro hlaw
  exact absurd (hlaw _ rfl) (by decide)

end XTunnel.Socks5
