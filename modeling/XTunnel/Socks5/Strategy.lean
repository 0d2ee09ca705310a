import XTunnel.Socks5.Handshake
import XTunnel.Socks5.PortBlocking

/-! Where the CONNECT path and the datagram path disagree on the IP strategy. -/
namespace XTunnel.Socks5

open Net

variable {st : IPStrategy} {cfgp : ProxyConfig} {cfg : Config} {hello s x d host : Text}
  {dst : Address} {rsv rsv₁ rsv₂ hi lo : UInt8} {data : Text} {ip : IP} {p : Nat}

/-- The text is an address of a family that the strategy keeps out. -/
def Refused (st : IPStrategy) (x : Text) : Prop :=
  ∃ ip, parseIP x = some ip ∧ refusedFamily st ip = true

theorem Refused.no_brackets (h : Refused st x) : lbracket ∉ x ∧ rbracket ∉ x := by
  obtain ⟨ip, hp, -⟩ := h
  exact not_isAddrByte_bracket fun c hc => mem_of_parseIP hp hc

theorem refused_iff : Refused st x ↔ (parseIP x).any (refusedFamily st) = true := by
  unfold Refused
  cases parseIP x <;> simp

theorem not_refused_nil : ¬ Refused st [] := by
  rintro ⟨ip, hp, -⟩
  cases hp

/-- Address texts, bare or in brackets, that the strategy check finds before a port. -/
theorem refused_split : Refused st (splitHostPortOrEmpty (host ++ colon :: itoa p)).1 ↔
    (colon ∉ host ∧ Refused st host) ∨ ∃ x, Bracketed host x ∧ Refused st x := by
  unfold splitHostPortOrEmpty
  cases hs : splitHostPort (host ++ colon :: itoa p) with
  | none =>
    constructor
    · exact fun h => (not_refused_nil h).elim
    · rintro (⟨hc, hr⟩ | ⟨x, hb, -⟩)
      · have hb := hr.no_brackets
        rw [splitHostPort_plain (plain_itoa p) ⟨hc, hb.1, hb.2⟩] at hs
        cases hs
      · rw [splitHostPort_bracketed (plain_itoa p) hb] at hs
        cases hs
  | some r =>
    obtain ⟨y, q⟩ := r
    rw [Option.getD_some]
    rcases ((splitHostPort_append (plain_itoa p)).mp hs).2 with ⟨hp, rfl⟩ | hb
    · constructor
      · exact fun h => Or.inl ⟨hp.colon, h⟩
      · rintro (⟨-, h⟩ | ⟨x, hb, -⟩)
        · exact h
        · exact (hb.not_plain hp).elim
    · constructor
      · exact fun h => Or.inr ⟨y, hb, h⟩
      · rintro (⟨-, h⟩ | ⟨x, hb', h⟩)
        · refine absurd ?_ h.no_brackets.1
          rw [hb.eq]
          exact List.mem_cons_self
        · have : x = y := by
            have he := hb'.eq.symm.trans hb.eq
            simpa using he
          rwa [← this]

theorem bracketed_self_iff : Bracketed (lbracket :: d ++ [rbracket]) x ↔
    x = d ∧ lbracket ∉ d ∧ rbracket ∉ d := by
  constructor
  · intro h
    have hx : x = d := by simpa using h.eq.symm
    subst hx
    exact ⟨rfl, h.lbracket, h.rbracket⟩
  · rintro ⟨rfl, hl, hr⟩
    exact ⟨rfl, hl, hr⟩

/-- Joining puts a text with a colon in brackets, so only there the text itself is found. -/
theorem refused_join : Refused st (splitHostPortOrEmpty (joinHostPort d (itoa p))).1 ↔
    Refused st d ∨ colon ∉ d ∧ ∃ x, Bracketed d x ∧ Refused st x := by
  by_cases hc : colon ∈ d
  · have hj : joinHostPort d (itoa p) = (lbracket :: d ++ [rbracket]) ++ colon :: itoa p := by
      rw [joinHostPort, if_pos hc]
      simp
    rw [hj, refused_split]
    constructor
    · rintro (⟨hn, -⟩ | ⟨x, hb, hx⟩)
      · exact (hn (by simp [hc])).elim
      · rw [(bracketed_self_iff.mp hb).1] at hx
        exact Or.inl hx
    · rintro (hd | ⟨hn, -⟩)
      · exact Or.inr ⟨d, bracketed_self_iff.mpr ⟨rfl, hd.no_brackets⟩, hd⟩
      · exact (hn hc).elim
  · have hj : joinHostPort d (itoa p) = d ++ colon :: itoa p := by rw [joinHostPort, if_neg hc]
    rw [hj, refused_split]
    simp [hc]

theorem strategyRefuses_iff {atyp : UInt8} {ip : Option IP} :
    strategyRefuses st atyp ip = true ↔ (st = .ipv4Only ∧ atyp = 0x04) ∨
      (st = .ipv6Only ∧ atyp = 0x01) ∨ ip.any (refusedFamily st) = true := by
  cases st <;> cases ip <;> simp [strategyRefuses, refusedFamily]

/-- The reply and the end of a CONNECT that the strategy refuses. -/
def TcpRefuses (st : IPStrategy) (cfgp : ProxyConfig) (s : Text) : Prop :=
  (handleSOCKS5 st cfgp s).2 = .refused

/-- The loop drops the datagram for the strategy. -/
def UdpDrops (cfg : Config) (b : Text) : Prop := loopVerdict cfg b = .strategy

theorem tcpRefuses_iff (hg : Greets cfgp hello) :
    TcpRefuses st cfgp (hello ++ (connectRequest rsv dst hi lo ++ s)) ↔
      (st = .ipv4Only ∧ dst.atyp = 0x04) ∨ (st = .ipv6Only ∧ dst.atyp = 0x01) ∨
        Refused st dst.text ∨ colon ∉ dst.text ∧ ∃ x, Bracketed dst.text x ∧ Refused st x := by
  obtain ⟨replies, hg⟩ := hg
  rw [TcpRefuses, hg, handleRequest_connect, ← refused_join (p := be16 hi lo), refused_iff,
    ← strategyRefuses_iff]
  dsimp only
  split
  · rename_i hr
    simp [hr]
  · rename_i hr
    simp [hr]

theorem udpDrops_iff (hlen : 10 ≤ (datagram rsv₁ rsv₂ dst hi lo data).length) :
    UdpDrops cfg (datagram rsv₁ rsv₂ dst hi lo data) ↔
      (colon ∉ dst.udpHost ∧ Refused cfg.ipStrategy dst.udpHost) ∨
        ∃ x, Bracketed dst.udpHost x ∧ Refused cfg.ipStrategy x := by
  rw [← refused_split (p := be16 hi lo), refused_iff, UdpDrops, loopVerdict_ok (parse_datagram hlen)]
  split
  · rename_i hr
    simp [hr]
  · rename_i hr
    rw [Bool.not_eq_true] at hr
    rw [hr]
    split <;> simp

theorem refused_ipString (h : ip.length = 16) :
    Refused st (ipString ip) ↔ refusedFamily st ip = true := by
  unfold Refused
  rw [parseIP_ipString h]
  simp

theorem to4_mapped (h : ip.length = 4) : to4 (v4InV6Prefix ++ ip) = some ip := by
  have hlen : (v4InV6Prefix ++ ip).length = 16 := by
    rw [List.length_append, h]
    rfl
  rw [to4, if_neg (by omega), if_pos ⟨hlen, rfl⟩]
  rfl

theorem refused_dotted (h : ip.length = 4) : Refused st (ipString ip) ↔ st = .ipv6Only := by
  unfold Refused
  rw [ipString_v4 h, parseIP_dotted h]
  cases st <;> simp [refusedFamily, to4_mapped h]

/-- The address that a destination is, or that its domain text denotes. -/
def Address.literal : Address → Option IP
  | .ipv4 ip _ => some ip
  | .domain name _ => parseIP name
  | .ipv6 ip _ => some ip

/-- Mapped addresses count as IPv4. -/
def IsIPv4 (dst : Address) : Prop := ∃ ip, dst.literal = some ip ∧ (to4 ip).isSome = true

def IsIPv6 (dst : Address) : Prop := ∃ ip, dst.literal = some ip ∧ (to4 ip).isNone = true

/-- Both paths decide alike, and neither lets the family through that the strategy excludes. -/
structure StrategyAgrees (tcp udp : Prop) (st : IPStrategy) (dst : Address) : Prop where
  same : tcp ↔ udp
  ipv4Only : st = .ipv4Only → IsIPv6 dst → tcp ∧ udp
  ipv6Only : st = .ipv6Only → IsIPv4 dst → tcp ∧ udp

/-- An IPv6 address field with a mapped address under IPv4-only, or a domain that is, bare or in
brackets, a text with a colon for an address that the strategy excludes. -/
def Divergent (st : IPStrategy) : Address → Prop
  | .ipv4 .. => False
  | .domain name _ => ∃ x, (x = name ∨ Bracketed name x) ∧ colon ∈ x ∧ Refused st x
  | .ipv6 ip _ => st = .ipv4Only ∧ (to4 ip).isSome = true

theorem agrees_ipv4 {tcp udp : Prop} (h : ip.length = 4) (ht : tcp ↔ st = .ipv6Only)
    (hu : udp ↔ st = .ipv6Only) : StrategyAgrees tcp udp st (.ipv4 ip h) := by
  refine ⟨ht.trans hu.symm, ?_, fun hs _ => ⟨ht.mpr hs, hu.mpr hs⟩⟩
  rintro - ⟨ip', he, hn⟩
  cases he
  simp [to4, h] at hn

theorem agrees_ipv6_iff {tcp udp : Prop} (h : ip.length = 16)
    (ht : tcp ↔ st = .ipv4Only ∨ refusedFamily st ip = true)
    (hu : udp ↔ refusedFamily st ip = true) :
    StrategyAgrees tcp udp st (.ipv6 ip h) ↔ ¬ Divergent st (.ipv6 ip h) := by
  constructor
  · rintro ⟨hsame, -, -⟩ ⟨hs, hm⟩
    have hr := hu.mp (hsame.mp (ht.mpr (Or.inl hs)))
    subst hs
    rw [refusedFamily, Option.isNone_iff_eq_none] at hr
    rw [hr] at hm
    cases hm
  · intro hno
    have hr : st = .ipv4Only → refusedFamily st ip = true := by
      intro hs
      have hm : ¬ (to4 ip).isSome = true := fun hm => hno ⟨hs, hm⟩
      rw [hs]
      simpa [refusedFamily] using hm
    have hsame : tcp ↔ udp := by
      rw [ht, hu]
      exact ⟨fun h => h.elim hr id, Or.inr⟩
    refine ⟨hsame, fun hs _ => ⟨ht.mpr (Or.inl hs), hu.mpr (hr hs)⟩, ?_⟩
    rintro hs ⟨ip', he, hm⟩
    cases he
    have hf : refusedFamily st ip = true := by
      rw [hs]
      exact hm
    exact ⟨ht.mpr (Or.inr hf), hu.mpr hf⟩

theorem agrees_domain_iff {tcp udp : Prop} {name : Text} (h : name.length < 256)
    (ht : tcp ↔ Refused st name ∨ colon ∉ name ∧ ∃ x, Bracketed name x ∧ Refused st x)
    (hu : udp ↔ (colon ∉ name ∧ Refused st name) ∨ ∃ x, Bracketed name x ∧ Refused st x) :
    StrategyAgrees tcp udp st (.domain name h) ↔ ¬ Divergent st (.domain name h) := by
  have hbr : ∀ x, Bracketed name x → ¬ Refused st name := by
    intro x hb hr
    apply hr.no_brackets.1
    rw [hb.eq]
    exact List.mem_cons_self
  have hcolon : ∀ x, Bracketed name x → (colon ∈ name ↔ colon ∈ x) := by
    intro x hb
    have h1 : ¬ (colon = lbracket) := by decide
    have h2 : ¬ (colon = rbracket) := by decide
    rw [hb.eq]
    simp [h1, h2]
  constructor
  · rintro ⟨hsame, -, -⟩ ⟨x, rfl | hb, hc, hr⟩
    · rcases hu.mp (hsame.mp (ht.mpr (Or.inl hr))) with ⟨hn, -⟩ | ⟨y, hb, -⟩
      · exact hn hc
      · exact hbr y hb hr
    · rcases ht.mp (hsame.mpr (hu.mpr (Or.inr ⟨x, hb, hr⟩))) with hn | ⟨hn, -⟩
      · exact hbr x hb hn
      · exact hn ((hcolon x hb).mpr hc)
  · intro hno
    have hsame : tcp ↔ udp := by
      rw [ht, hu]
      constructor
      · rintro (hr | ⟨-, hx⟩)
        · exact Or.inl ⟨fun hc => hno ⟨name, Or.inl rfl, hc, hr⟩, hr⟩
        · exact Or.inr hx
      · rintro (⟨-, hr⟩ | ⟨x, hb, hr⟩)
        · exact Or.inl hr
        · exact Or.inr ⟨fun hc => hno ⟨x, Or.inr hb, (hcolon x hb).mp hc, hr⟩, x, hb, hr⟩
    have hboth : Refused st name → tcp ∧ udp :=
      fun hr => ⟨ht.mpr (Or.inl hr), hsame.mp (ht.mpr (Or.inl hr))⟩
    refine ⟨hsame, ?_, ?_⟩
    · rintro hs ⟨ip', he, hn⟩
      refine hboth ⟨ip', he, ?_⟩
      rw [hs]
      exact hn
    · rintro hs ⟨ip', he, hm⟩
      refine hboth ⟨ip', he, ?_⟩
      rw [hs]
      exact hm

theorem colon_notMem_dotted (h : ip.length = 4) : colon ∉ ipString ip := by
  rw [ipString_v4 h]
  exact (plain_dotted ip).colon

theorem not_bracketed_ipString (h : ip.length = 4 ∨ ip.length = 16) : ¬ Bracketed (ipString ip) x := by
  intro hb
  have hl : lbracket ∈ ipString ip := by
    rw [hb.eq]
    exact List.mem_cons_self
  exact absurd (mem_ipString h hl) (by decide)

theorem strategy_agrees_iff (hg : Greets cfgp hello)
    (hlen : 10 ≤ (datagram rsv₁ rsv₂ dst hi lo data).length) :
    StrategyAgrees
        (TcpRefuses cfg.ipStrategy cfgp (hello ++ (connectRequest rsv dst hi lo ++ s)))
        (UdpDrops cfg (datagram rsv₁ rsv₂ dst hi lo data)) cfg.ipStrategy dst ↔
      ¬ Divergent cfg.ipStrategy dst := by
  have ht : TcpRefuses cfg.ipStrategy cfgp (hello ++ (connectRequest rsv dst hi lo ++ s)) ↔ _ :=
    tcpRefuses_iff hg
  have hu : UdpDrops cfg _ ↔ _ := udpDrops_iff hlen
  cases dst with
  | ipv4 ip h =>
    have hnb : ∀ x, ¬ Bracketed (ipString ip) x := fun x => not_bracketed_ipString (Or.inl h)
    have hr : Refused cfg.ipStrategy (ipString ip) ↔ _ := refused_dotted h
    simp only [Address.atyp, Address.text, Address.udpHost, hr, hnb, colon_notMem_dotted h,
      false_and, exists_false, and_false, or_false, not_false_eq_true, true_and] at ht hu
    refine iff_of_true (agrees_ipv4 h (ht.trans ?_) hu) id
    simp
  | domain name h =>
    have h4 : ¬ ((0x03 : UInt8) = 0x04) := by decide
    have h1 : ¬ ((0x03 : UInt8) = 0x01) := by decide
    simp only [Address.atyp, Address.text, Address.udpHost, h4, h1, and_false, false_or] at ht hu
    exact agrees_domain_iff h ht hu
  | ipv6 ip h =>
    have hnb : ∀ x, ¬ Bracketed (ipString ip) x := fun x => not_bracketed_ipString (Or.inr h)
    have hr : Refused cfg.ipStrategy (ipString ip) ↔ _ := refused_ipString h
    have hbytes := not_isAddrByte_bracket fun c (hc : c ∈ ipString ip) =>
      mem_ipString (Or.inr h) hc
    have h1 : ¬ ((0x04 : UInt8) = 0x01) := by decide
    have hself : ¬ Refused cfg.ipStrategy (lbracket :: ipString ip ++ [rbracket]) :=
      fun hr => hr.no_brackets.1 List.mem_cons_self
    simp only [Address.atyp, Address.text, Address.udpHost, hr, hnb, h1, hself, and_true,
      and_false, false_and, exists_false, or_false, false_or, bracketed_self_iff, hbytes,
      not_false_eq_true, exists_eq_left] at ht hu
    exact agrees_ipv6_iff h ht hu

/-- The service as `StartSocksProxy` sets it up: no user name. -/
def openProxy : ProxyConfig := ⟨[], [], []⟩

/-- One offered method. -/
def oneMethod : Text := [0x05, 1, 0]

theorem greets_oneMethod : Greets openProxy oneMethod := greets_open (a := [0]) rfl (by decide)

def ipv4Only : Config := ⟨.ipv4Only, .empty⟩

/-- The domain text `::1`. -/
def loopbackText : Address := .domain [58, 58, 49] (by decide)

def documentation : Address := .ipv4 [192, 0, 2, 1] rfl

theorem strategy_agrees_iff_documentation :
    StrategyAgrees
        (TcpRefuses ipv4Only.ipStrategy openProxy
          (oneMethod ++ (connectRequest 0 documentation 0 53 ++ [])))
        (UdpDrops ipv4Only (datagram 0 0 documentation 0 53 [])) ipv4Only.ipStrategy
        documentation ↔ ¬ Divergent ipv4Only.ipStrategy documentation :=
  strategy_agrees_iff greets_oneMethod (by decide)

/-- Under IPv4-only a CONNECT to the domain text `::1` is refused, and a datagram to it is sent. -/
theorem loopback_text_diverges :
    TcpRefuses .ipv4Only openProxy (oneMethod ++ (connectRequest 0 loopbackText 0 53 ++ [])) ∧
    loopVerdict ipv4Only (datagram 0 0 loopbackText 0 53 []) =
      .send [58, 58, 49, 58, 53, 51] [] ∧
    ¬ StrategyAgrees
        (TcpRefuses .ipv4Only openProxy
          (oneMethod ++ (connectRequest 0 loopbackText 0 53 ++ [])))
        (UdpDrops ipv4Only (datagram 0 0 loopbackText 0 53 [])) .ipv4Only loopbackText := by
  have ht : TcpRefuses .ipv4Only openProxy
      (oneMethod ++ (connectRequest 0 loopbackText 0 53 ++ [])) := by
    unfold TcpRefuses
    decide
  have hu : loopVerdict ipv4Only (datagram 0 0 loopbackText 0 53 []) =
      .send [58, 58, 49, 58, 53, 51] [] := by decide
  refine ⟨ht, hu, fun h => ?_⟩
  have hd := h.same.mp ht
  rw [UdpDrops, hu] at hd
  cases hd

end XTunnel.Socks5
