import XTunnel.MappedDns.Invariant

/-! Which addresses the mapped DNS translates back exactly. -/
namespace XTunnel.MappedDns
namespace HevMappedDNS

variable {self : HevMappedDNS} {name : Name} {ip : BitVec 32} {i : Nat}

/-- The record in slot `i` is in use and holds `name`. -/
def Live (self : HevMappedDNS) (i : Nat) (name : Name) : Prop :=
  i < self.use ∧ ∃ p n, self.records i = some p ∧ self.heap p = some n ∧ n.name = name

/-- The address belongs to the configured network. -/
def InNetwork (self : HevMappedDNS) (ip : BitVec 32) : Prop :=
  ip &&& self.mask = self.net &&& self.mask

/-- One address is translated to exactly the name it is assigned to, and left alone when it is
foreign to the mapped network. -/
structure AddressExact (dns : HevMappedDNS) (ip : BitVec 32) : Prop where
  lookup_iff : ∀ name, (dns.lookup ip).2 = some name ↔
    ∃ i, dns.Live i name ∧ ip = dns.address i
  foreign : ¬ dns.InNetwork ip → ∀ port,
    (addrFromLwip (some dns) (.v4 ip) port).2 = some (.ipv4 ip port)

/-- The translation promised for a whole store. -/
structure TranslationExact (dns : HevMappedDNS) : Prop where
  exact : ∀ ip, dns.AddressExact ip
  answered : ∀ i name, dns.Live i name → (dns.lookup (dns.address i)).2 = some name
  unshared : ∀ i j n m, dns.Live i n → dns.Live j m → dns.address i = dns.address j → n = m

/-- The slot that the host part of `ip` selects, if in use, is the one assigned to `ip`, and no
other slot in use is assigned to it. -/
def HostPartDecides (self : HevMappedDNS) (ip : BitVec 32) : Prop :=
  ((self.hostPart ip).toNat < self.use → ip = self.address (self.hostPart ip).toNat) ∧
  ∀ i < self.use, ip = self.address i → i = (self.hostPart ip).toNat

theorem live_of_lt (hs : self.Slotted) (h : i < self.use) : ∃ name, self.Live i name := by
  obtain ⟨p, n, hr, hp, -⟩ := hs.record_node i h
  exact ⟨n.name, h, p, n, hr, hp, rfl⟩

/-- Distinct slots in use hold distinct names. -/
theorem Live.slot_eq {j : Nat} (hl : self.Linked) (hs : self.Slotted) (hi : self.Live i name)
    (hj : self.Live j name) : i = j := by
  obtain ⟨hlt, p, n, hr, hp, hn⟩ := hi
  obtain ⟨hlt', q, m, hr', hq, hm⟩ := hj
  obtain ⟨p', n', hrp, hpn, hidx⟩ := hs.record_node i hlt
  obtain ⟨q', m', hrq, hqm, hidx'⟩ := hs.record_node j hlt'
  rw [hr] at hrp
  rw [hr'] at hrq
  cases hrp
  cases hrq
  rw [hp] at hpn
  rw [hq] at hqm
  cases hpn
  cases hqm
  have he := hl.names p q n m hp hq (hn.trans hm.symm)
  subst q
  rw [hp] at hq
  cases hq
  exact hidx.symm.trans hidx'

/-- A lookup reads the slot of the host part and nothing else. -/
theorem lookup_eq_iff (ha : self.Accepted) (hs : self.Slotted) :
    (self.lookup ip).2 = some name ↔ self.Live (self.hostPart ip).toNat name := by
  have hint := hostPart_toInt ha ip
  unfold lookup
  dsimp only
  split
  · rename_i hge
    rw [hint] at hge
    refine ⟨nofun, fun h => ?_⟩
    have hlt := h.1
    have hle := hs.use_le
    omega
  · rename_i hlt
    rw [hint] at hlt
    split
    · rename_i hr
      refine ⟨nofun, fun h => ?_⟩
      obtain ⟨-, p, n, hr', -⟩ := h
      rw [hr] at hr'
      cases hr'
    · rename_i p hr
      constructor
      · intro h
        obtain ⟨n, hn, hname⟩ := Option.map_eq_some_iff.mp h
        exact ⟨record_lt_use hs (by omega) hr, p, n, hr, hn, hname⟩
      · rintro ⟨-, q, n, hr', hn, rfl⟩
        rw [hr] at hr'
        cases hr'
        simp [hn]

theorem addrFromLwip_v4 (port : BitVec 16) (h : (self.lookup ip).2 = none) :
    (addrFromLwip (some self) (.v4 ip) port).2 = some (.ipv4 ip port) := by
  unfold addrFromLwip
  dsimp only
  split <;> simp_all

/-- An address whose own host part is its slot lies in the network. -/
theorem inNetwork_of_address (h : ip = self.address (self.hostPart ip).toNat) :
    self.InNetwork ip := by
  have hz : self.hostPart ip &&& self.mask = 0#32 := by
    simp [hostPart, BitVec.and_assoc]
  have hor : ip = self.net ||| self.hostPart ip := by
    simpa [address] using h
  unfold InNetwork
  calc ip &&& self.mask = (self.net ||| self.hostPart ip) &&& self.mask := by rw [← hor]
    _ = (self.net &&& self.mask) ||| (self.hostPart ip &&& self.mask) := BitVec.and_or_distrib_right
    _ = self.net &&& self.mask := by rw [hz]; simp

/-- The exact condition for one address. -/
theorem addressExact_iff (ha : self.Accepted) (hl : self.Linked) (hs : self.Slotted) :
    self.AddressExact ip ↔ self.HostPartDecides ip := by
  constructor
  · intro h
    constructor
    · intro hlt
      obtain ⟨name, hname⟩ := live_of_lt hs hlt
      obtain ⟨i, hi, hip⟩ := (h.lookup_iff name).mp ((lookup_eq_iff ha hs).mpr hname)
      rwa [hi.slot_eq hl hs hname] at hip
    · intro i hlt hip
      obtain ⟨name, hname⟩ := live_of_lt hs hlt
      have hlook := (h.lookup_iff name).mpr ⟨i, hname, hip⟩
      exact hname.slot_eq hl hs ((lookup_eq_iff ha hs).mp hlook)
  · rintro ⟨hhost, hother⟩
    constructor
    · intro name
      rw [lookup_eq_iff ha hs]
      constructor
      · intro h
        exact ⟨_, h, hhost h.1⟩
      · rintro ⟨i, hi, hip⟩
        rwa [hother i hi.1 hip] at hi
    · intro hout port
      apply addrFromLwip_v4
      rw [Option.eq_none_iff_forall_ne_some]
      intro name hname
      have hlive := (lookup_eq_iff ha hs).mp hname
      exact hout (inNetwork_of_address (hhost hlive.1))

/-- The sign bit alone has an empty intersection with a non-negative `int`. -/
theorem signBit_and {m : BitVec 32} (hm : m.msb = false) : 0x80000000#32 &&& m = 0#32 := by
  have hmin : (0x80000000#32 : BitVec 32) = BitVec.intMin 32 := by decide
  rw [hmin]
  apply BitVec.eq_of_getLsbD_eq
  intro i hi
  rw [BitVec.getLsbD_and, BitVec.getLsbD_intMin, BitVec.getLsbD_zero]
  by_cases hlast : i + 1 = 32
  · have hi31 : i = 31 := by omega
    subst i
    rw [BitVec.msb_eq_getLsbD_last] at hm
    simpa using hm
  · simp [hlast]

/-- As soon as one name is mapped, some foreign address is translated to it: the addresses 0
and 0x80000000 have the same host part. -/
theorem not_hostPartDecides_of_use (ha : self.Accepted) (hpos : 0 < self.use)
    (h : ∀ ip, self.HostPartDecides ip) : False := by
  have hlow : self.hostPart 0#32 = 0#32 := by simp [hostPart]
  have hhigh : self.hostPart 0x80000000#32 = 0#32 := signBit_and ha.msb
  have h0 := (h 0#32).1 (by rw [hlow]; exact hpos)
  have h1 := (h 0x80000000#32).1 (by rw [hhigh]; exact hpos)
  rw [hlow] at h0
  rw [hhigh, ← h0] at h1
  exact absurd h1 (by decide)

end HevMappedDNS

open HevMappedDNS

variable {net mask : BitVec 32} {max : Nat} {self : HevMappedDNS}

theorem translation_exact_iff (h : ReachableStore net mask max self) :
    (self.TranslationExact ↔ self.use = 0) ∧
    ∀ ip, self.AddressExact ip ↔ self.HostPartDecides ip := by
  have hi := storeInv_reachable h
  have haddr : ∀ ip, self.AddressExact ip ↔ self.HostPartDecides ip := fun ip =>
    addressExact_iff hi.accepted hi.linked hi.slotted
  refine ⟨⟨?_, ?_⟩, haddr⟩
  · intro he
    by_contra hne
    exact not_hostPartDecides_of_use hi.accepted (by omega) fun ip => (haddr ip).mp (he.exact ip)
  · intro hz
    have hnone : ∀ i name, ¬ self.Live i name := by
      intro i name hl
      have := hl.1
      omega
    refine ⟨fun ip => (haddr ip).mpr ?_, ?_, ?_⟩
    · constructor <;> intros <;> omega
    · intro i name hl
      exact (hnone i name hl).elim
    · intro i j n m hl
      exact (hnone i n hl).elim

/-- The store of the shipped configuration: network and mask 240.0.0.0, 10000 slots. -/
def shipped : HevMappedDNS :=
  { use := 0, max := 10000, net := 0xF0000000#32, mask := 0xF0000000#32, list := [], tree := [],
    records := fun _ => none, heap := fun _ => none, brk := 0 }

theorem construct_shipped : construct 0xF0000000#32 0xF0000000#32 10000 = some shipped := rfl

theorem reachable_shipped (name : Name) :
    ReachableStore 0xF0000000#32 0xF0000000#32 10000 (shipped.find name true).1 :=
  ⟨shipped, _, construct_shipped, .single (.find shipped name true)⟩

theorem translation_exact_iff_shipped :
    ∃ self, ReachableStore 0xF0000000#32 0xF0000000#32 10000 self ∧
      ((self.TranslationExact ↔ self.use = 0) ∧
        ∀ ip, self.AddressExact ip ↔ self.HostPartDecides ip) :=
  ⟨_, reachable_shipped [0x61], translation_exact_iff (reachable_shipped [0x61])⟩

/-- Once "a" is mapped in the shipped configuration, the public address 16.0.0.0 is
rewritten to it. -/
theorem foreign_address_translated :
    ∃ self, ReachableStore 0xF0000000#32 0xF0000000#32 10000 self ∧
      ¬ self.InNetwork 0x10000000#32 ∧ (self.lookup 0x10000000#32).2 = some [0x61] ∧
      ¬ self.TranslationExact := by
  refine ⟨_, reachable_shipped [0x61], by unfold InNetwork; decide, by decide, ?_⟩
  intro h
  have hf := (h.exact 0x10000000#32).foreign (by unfold InNetwork; decide) 0#16
  exact absurd hf (by decide)

end XTunnel.MappedDns
