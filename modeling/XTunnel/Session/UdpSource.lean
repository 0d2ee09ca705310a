import XTunnel.MappedDns.Store
import XTunnel.Net.Text

/-! A UDP session of the tunnel: the source address under which it hands replies to the
application. -/
namespace XTunnel.UdpSource

open Net MappedDns

/-- `ip_2_ip4 (ip)->addr` of an address that is of this type. -/
def ip4 : IpAddr → BitVec 32
  | .v4 addr => addr
  | _ => 0

/-- `ip_2_ip4 (ip)->addr = addr`, which leaves the type as it is. -/
def setIp4 (ip : IpAddr) (addr : BitVec 32) : IpAddr :=
  match ip with
  | .v4 _ => .v4 addr
  | .v6 old => .v6 (addr ++ old.setWidth 96)
  | .any => .any

/-- `hev_socks5_addr_into_lwip`; an address of no known type is `none`, and so is the result -1. -/
def hev_socks5_addr_into_lwip : Option SocksAddr → Option (IpAddr × BitVec 16)
  | some (.ipv4 addr port) => some (.v4 addr, port)
  | some (.ipv6 addr port) => some (.v6 addr, port)
  | _ => none

structure Frame where
  addr : Option SocksAddr
  data : Text

/-- A reply of the relay. `saddr` is what the variable of that name holds before it is set, and
`taken` tells whether lwIP has a buffer for the reply and sends it. -/
structure Reply where
  addr : Option SocksAddr
  buf : Text
  saddr : IpAddr
  taken : Bool

/-- A reply, the plain destinations of the session at that time, and what the application got. -/
structure Delivery where
  addr : Option SocksAddr
  buf : Text
  plain : List (IpAddr × BitVec 16)
  delivered : Option ((IpAddr × BitVec 16) × Text)

/-- `receiving` tells whether `hev_socks5_session_udp_fwd_b` is still called. `plain` is the history
of the destinations that were addresses of no mapped name, and `log` that of the replies. -/
structure State where
  dns : Option HevMappedDNS
  addr : BitVec 32
  port : BitVec 16
  frames : List Frame
  receiving : Bool
  plain : List (IpAddr × BitVec 16)
  log : List Delivery

def initial (dns : Option HevMappedDNS) : State :=
  { dns := dns, addr := 0, port := 0, frames := [], receiving := true, plain := [], log := [] }

abbrev UDP_POOL_SIZE : Nat := 512

def SocksAddr.isName : Option SocksAddr → Bool
  | some (.name _ _) => true
  | _ => false

/-- A datagram of the application to `ip` and `port`. -/
def udp_recv_handler (s : State) (ip : IpAddr) (port : BitVec 16) (data : Text) (alloc : Bool) :
    State :=
  let (dns, addr) := addrFromLwip s.dns ip port
  let plain := if SocksAddr.isName addr then s.plain else (ip, port) :: s.plain
  if UDP_POOL_SIZE < s.frames.length ∨ alloc = false then { s with plain := plain }
  else
    let frames := s.frames ++ [⟨addr, data⟩]
    if SocksAddr.isName addr then
      { s with dns := dns, addr := ip4 ip, port := port, frames := frames, plain := plain }
    else { s with dns := dns, frames := frames, plain := plain }

/-- The source of a reply, if it has one. -/
def source (s : State) (r : Reply) : Option (IpAddr × BitVec 16) :=
  if s.addr ≠ 0 ∧ s.port ≠ 0 then some (setIp4 r.saddr s.addr, s.port)
  else hev_socks5_addr_into_lwip r.addr

/-- One reply of a batch; an error ends the batch and those that would follow. -/
def fwd_b (s : State) (r : Reply) : State :=
  let delivered := if s.receiving && r.taken then (source s r).map fun src => (src, r.buf) else none
  { s with
    receiving := s.receiving && delivered.isSome
    log := ⟨r.addr, r.buf, s.plain, delivered⟩ :: s.log }

inductive Action
  | datagram (ip : IpAddr) (port : BitVec 16) (data : Text) (alloc : Bool)
  | forward (n : Nat)
  | reply (r : Reply)
  | dns (dns : Option HevMappedDNS)

/-- Datagrams and replies in any order. Other sessions and queries use the store of the names. -/
inductive Step : State → Action → State → Prop
  | datagram {s : State} {ip : IpAddr} {port : BitVec 16} {data : Text} {alloc : Bool} :
      Step s (.datagram ip port data alloc) (udp_recv_handler s ip port data alloc)
  | forward {s : State} {n : Nat} : Step s (.forward n) { s with frames := s.frames.drop n }
  | reply {s : State} {r : Reply} : Step s (.reply r) (fwd_b s r)
  | dns {s : State} {dns : Option HevMappedDNS} : Step s (.dns dns) { s with dns := dns }

/-- The reply of a plain destination comes from there. -/
def Delivery.Kept (e : Delivery) : Prop :=
  ∀ src, hev_socks5_addr_into_lwip e.addr = some src → src ∈ e.plain →
    e.delivered = some (src, e.buf)

/-- Every reply so far. -/
def SourcesKept (s : State) : Prop := ∀ e ∈ s.log, e.Kept

/-- No mapped name stands in the way of a reply of a plain destination: the session remembers none,
or one with that very address. -/
def Clear (s : State) : Action → Prop
  | .reply r => ∀ src, hev_socks5_addr_into_lwip r.addr = some src → src ∈ s.plain →
      s.receiving = true ∧ r.taken = true ∧
        (s.addr = 0 ∨ s.port = 0 ∨ (setIp4 r.saddr s.addr, s.port) = src)
  | _ => True

variable {s t : State} {a : Action} {xs : List Action} {r : Reply}
  {src : IpAddr × BitVec 16} {dns : Option HevMappedDNS}

theorem source_iff (h : hev_socks5_addr_into_lwip r.addr = some src) : source s r = some src ↔
    s.addr = 0 ∨ s.port = 0 ∨ (setIp4 r.saddr s.addr, s.port) = src := by
  unfold source
  split
  · rename_i hset
    rw [Option.some_inj]
    exact ⟨fun h => .inr (.inr h), fun h => (h.resolve_left hset.1).resolve_left hset.2⟩
  · rename_i hset
    refine ⟨fun _ => ?_, fun _ => h⟩
    by_cases ha : s.addr = 0
    · exact .inl ha
    · by_cases hp : s.port = 0
      · exact .inr (.inl hp)
      · exact (hset ⟨ha, hp⟩).elim

theorem delivered_iff (h : hev_socks5_addr_into_lwip r.addr = some src) :
    ((if s.receiving && r.taken then (source s r).map fun src => (src, r.buf) else none) =
      some (src, r.buf)) ↔
    s.receiving = true ∧ r.taken = true ∧
      (s.addr = 0 ∨ s.port = 0 ∨ (setIp4 r.saddr s.addr, s.port) = src) := by
  rw [← source_iff h, ← and_assoc, ← Bool.and_eq_true]
  split
  · rename_i hb
    refine ⟨fun he => ⟨hb, ?_⟩, fun he => by rw [he.2]; rfl⟩
    obtain ⟨src', hsrc', heq⟩ := Option.map_eq_some_iff.mp he
    rw [hsrc', (Prod.mk.inj heq).1]
  · rename_i hb
    exact ⟨nofun, fun he => (hb he.1).elim⟩

/-- A step keeps the log, and a reply adds its entry. -/
theorem log_step (h : Step s a t) : t.log = s.log ∨
    ∃ e, t.log = e :: s.log ∧ (e.Kept ↔ Clear s a) := by
  cases h with
  | datagram =>
    left
    simp only [udp_recv_handler]
    split
    · rfl
    · split <;> rfl
  | forward => exact .inl rfl
  | dns => exact .inl rfl
  | @reply r =>
    refine .inr ⟨_, rfl, ?_⟩
    constructor
    · intro hk src hsrc hmem
      exact (delivered_iff hsrc).mp (hk src hsrc hmem)
    · intro hc src hsrc hmem
      exact (delivered_iff hsrc).mpr (hc src hsrc hmem)

theorem clear_of_log (h : Step s a t) (ht : t.log = s.log) : Clear s a := by
  cases h with
  | reply => exact absurd (congrArg List.length ht) (by simp [fwd_b])
  | _ => trivial

/-- The next state keeps every source if this one does and nothing stands in the way. -/
theorem sourcesKept_step (h : Step s a t) : SourcesKept t ↔ SourcesKept s ∧ Clear s a := by
  rcases log_step h with hl | ⟨e, hl, hiff⟩
  · rw [SourcesKept, SourcesKept, hl]
    exact ⟨fun hs => ⟨hs, clear_of_log h hl⟩, fun hs => hs.1⟩
  · rw [SourcesKept, hl, List.forall_mem_cons, hiff]
    exact and_comm

/-- Replies keep their sources in exactly the runs in which no mapped name stands in the way of one. -/
theorem sourcesKept_iff (h : Run Step (initial dns) xs s) :
    SourcesKept s ↔ Run (Guarded Step Clear) (initial dns) xs s := by
  have hinit : SourcesKept (initial dns) := nofun
  exact (h.iff_guarded fun _ _ _ hst => sourcesKept_step hst).trans (and_iff_right hinit)

/-- No datagram goes to a mapped name, and every reply has a source that lwIP takes. -/
def PlainOnly (s : State) : Action → Prop
  | .datagram ip port _ _ => SocksAddr.isName (addrFromLwip s.dns ip port).2 = false
  | .reply r => r.taken = true ∧ ∃ src, hev_socks5_addr_into_lwip r.addr = some src
  | _ => True

/-- The session remembers no mapped name and forwards replies. -/
structure Plain (s : State) : Prop where
  addr : s.addr = 0
  receiving : s.receiving = true
  kept : SourcesKept s

theorem plain_step (h : Guarded Step PlainOnly s a t) (hs : Plain s) : Plain t := by
  obtain ⟨hg, hst⟩ := h
  have hc : Clear s a := by
    cases hst with
    | reply => exact fun _ _ _ => ⟨hs.receiving, hg.1, .inl hs.addr⟩
    | _ => trivial
  have hk := (sourcesKept_step hst).mpr ⟨hs.kept, hc⟩
  cases hst with
  | datagram =>
    refine ⟨?_, ?_, hk⟩
    · simp only [udp_recv_handler]
      split
      · exact hs.addr
      · rw [if_neg (by rw [hg]; exact Bool.false_ne_true)]
        exact hs.addr
    · simp only [udp_recv_handler]
      split
      · exact hs.receiving
      · rw [if_neg (by rw [hg]; exact Bool.false_ne_true)]
        exact hs.receiving
  | forward => exact ⟨hs.addr, hs.receiving, hk⟩
  | dns => exact ⟨hs.addr, hs.receiving, hk⟩
  | @reply r =>
    obtain ⟨htaken, src, hsrc⟩ := hg
    refine ⟨hs.addr, ?_, hk⟩
    have hd := (delivered_iff hsrc).mpr ⟨hs.receiving, htaken, .inl hs.addr⟩
    rw [fwd_b, hs.receiving]
    rw [hs.receiving] at hd
    simp only [hd, Option.isSome_some, Bool.and_self]

/-- A session without mapped names keeps every source. -/
theorem plain_run (h : Run (Guarded Step PlainOnly) (initial dns) xs s) : SourcesKept s := by
  have hinit : Plain (initial dns) := ⟨rfl, rfl, fun e he => by cases he⟩
  have hp : Preserves (Guarded Step PlainOnly) Plain := fun _ _ _ => plain_step
  exact (h.invariant hp hinit).kept

/-- The store of the names with `a` in its first slot. -/
def storeA : HevMappedDNS :=
  { use := 1, max := 10000, net := 0xF0000000#32, mask := 0xF0000000#32, list := [0], tree := [0]
    records := fun i => if i = 0 then some 0 else none
    heap := fun p => if p = 0 then some ⟨[97], 0⟩ else none
    brk := 1 }

/-- The reply of 8.8.8.8, port 53. -/
def replyDns (buf : Text) : Reply :=
  { addr := some (.ipv4 0x08080808#32 53), buf := buf, saddr := .v4 0, taken := true }

/-- A session with one destination. -/
theorem sourcesKept_iff_plain : ∃ s, Run Step (initial (some storeA))
    [.datagram (.v4 0x08080808#32) 53 [1] true, .forward 1, .reply (replyDns [2])] s ∧ SourcesKept s := by
  have hrun : Run Step (initial (some storeA))
      [.datagram (.v4 0x08080808#32) 53 [1] true, .forward 1, .reply (replyDns [2])] _ :=
    .stepL .datagram (.stepL .forward (.single .reply))
  refine ⟨_, hrun, (sourcesKept_iff hrun).mpr ?_⟩
  exact .stepL ⟨trivial, .datagram⟩ (.stepL ⟨trivial, .forward⟩
    (.single ⟨fun _ _ _ => ⟨rfl, rfl, .inl rfl⟩, .reply⟩))

/-- A datagram to the mapped name, at 240.0.0.0 and port 443, gives the next reply of the plain
destination its own address. -/
theorem reply_renamed : ∃ s e, Run Step (initial (some storeA))
    [.datagram (.v4 0x08080808#32) 53 [1] true, .datagram (.v4 0xF0000000#32) 443 [1] true,
      .reply (replyDns [2])] s ∧
    s.log = [e] ∧ e.delivered = some ((.v4 0xF0000000#32, 443), [2]) ∧ ¬ SourcesKept s := by
  refine ⟨_, _, .stepL .datagram (.stepL .datagram (.single .reply)), rfl, rfl, fun hs => ?_⟩
  have hk := hs _ List.mem_cons_self (.v4 0x08080808#32, 53) rfl (by decide)
  exact absurd hk (by decide)

end XTunnel.UdpSource
