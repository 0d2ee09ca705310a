import XTunnel.Dns.Wire
import XTunnel.Session.UdpSource
import XTunnel.Socks5.Acceptance
import XTunnel.Socks5.UdpStream

/-! Datagrams of a UDP relay, as `hev_socks5_session_udp_fwd_b` handles them. -/
namespace XTunnel.UdpRelay

open Net Socks5 MappedDns

abbrev UDP_BUF_SIZE : Nat := 1500

/-- The memory of a message: the bytes received, and what was there behind them. -/
structure Slot where
  data : Text
  stale : Text
  size : data.length + stale.length = UDP_BUF_SIZE

def Slot.mem (d : Slot) : Text := d.data ++ d.stale

/-- A message in its memory; `addr` is `none` for `NULL`. -/
structure Msg where
  addr : Option HevSocks5Addr
  off : Nat
  len : Nat

/-- A read of `len` bytes from `off` on, a use of the address `NULL`, and a datagram that is sent
to the application. -/
inductive Event
  | read (d : Slot) (off len : Nat)
  | null (d : Slot)
  | deliver (d : Slot) (src : IpAddr × BitVec 16) (payload : Text)

/-- What `hev_socks5_addr_len` reads. -/
def addrLenReads (d : Slot) : List Event :=
  .read d 3 1 :: if d.mem.getD 3 0 = 0x03 then [.read d 4 1] else []

/-- One turn of the loop of `hev_socks5_udp_recvmmsg_udp`; `none` is the result -1. -/
def recvMsg (d : Slot) : Option Msg :=
  let addr := HevSocks5Addr.ofMem (d.mem.drop 3)
  let addrlen := hev_socks5_addr_len addr
  if d.data.length < 4 then some ⟨none, 0, 0⟩
  else if addrlen ≤ 0 then none
  else if d.data.length < 3 + addrlen then none
  else some ⟨some addr, 3 + addrlen.toNat, d.data.length - (3 + addrlen.toNat)⟩

def recvMsgs : List Slot → List Event × Option (List (Slot × Msg))
  | [] => ([], some [])
  | d :: ds =>
    match recvMsg d with
    | none => (addrLenReads d, none)
    | some m => (addrLenReads d ++ (recvMsgs ds).1, (recvMsgs ds).2.map ((d, m) :: ·))

/-- What a message finds: the fields of the session, the variable `saddr` before it is set, and
whether lwIP has a buffer and sends it. -/
structure Session where
  addr : BitVec 32
  port : BitVec 16
  saddr : IpAddr
  taken : Bool

/-- A call of `hev_socks5_session_udp_fwd_b`. Datagrams of the application may change the session
while a message waits for the lock, so each message finds its own. -/
structure Call where
  udp_associated : Bool
  connects : Bool
  received : Option (List Slot)
  again : Bool
  session : Nat → Session

/-- The datagrams are looked at. -/
def Call.Looks (c : Call) : Prop := c.udp_associated = true ∨ c.connects = true

/-- The datagrams come with a result above 0; the first ones connect the socket. -/
def hev_socks5_udp_recvmmsg_udp (c : Call) : List Event × Option (List (Slot × Msg)) :=
  match c.received with
  | none => ([], none)
  | some [] => ([], some [])
  | some ds => if c.udp_associated = false ∧ c.connects = false then ([], none) else recvMsgs ds

/-- What `hev_socks5_addr_into_lwip` reads. -/
def intoLwipReads (d : Slot) (addr : HevSocks5Addr) : List Event :=
  .read d 3 1 ::
    match addr.atype with
    | 0x01 => [.read d 4 4, .read d 8 2]
    | 0x04 => [.read d 4 16, .read d 20 2]
    | _ => []

def hev_socks5_addr_into_lwip (addr : HevSocks5Addr) : Option (IpAddr × BitVec 16) :=
  match addr.atype with
  | 0x01 => some (.v4 (BitVec.ofNat 32 (Dns.ofBe (addr.body.take 4))),
      BitVec.ofNat 16 (Dns.ofBe ((addr.body.drop 4).take 2)))
  | 0x04 => some (.v6 (BitVec.ofNat 128 (Dns.ofBe (addr.body.take 16))),
      BitVec.ofNat 16 (Dns.ofBe ((addr.body.drop 16).take 2)))
  | _ => none

/-- How a call ends. -/
inductive End
  | returned (res : Int)
  | crashed

/-- The source of a message, or the end of the call. -/
def source (s : Session) (d : Slot) (m : Msg) : List Event × Except End (IpAddr × BitVec 16) :=
  if s.addr ≠ 0 ∧ s.port ≠ 0 then ([], .ok (UdpSource.setIp4 s.saddr s.addr, s.port))
  else
    match m.addr with
    | none => ([.null d], .error .crashed)
    | some addr =>
      match hev_socks5_addr_into_lwip addr with
      | none => (intoLwipReads d addr, .error (.returned (-1)))
      | some src => (intoLwipReads d addr, .ok src)

/-- The second loop of `hev_socks5_session_udp_fwd_b`. -/
def sendMsgs (session : Nat → Session) : List (Slot × Msg) → List Event × End
  | [] => ([], .returned 1)
  | (d, m) :: msgs =>
    match source (session 0) d m with
    | (events, .error e) => (events, e)
    | (events, .ok src) =>
      if (session 0).taken = false then (events, .returned (-1))
      else
        let (rest, e) := sendMsgs (fun i => session (i + 1)) msgs
        (events ++ [.read d m.off m.len, .deliver d src ((d.mem.drop m.off).take m.len)] ++ rest, e)

/-- `again` tells whether `errno` is `EAGAIN` when the receiver returns. -/
def hev_socks5_session_udp_fwd_b (c : Call) : List Event × End :=
  match hev_socks5_udp_recvmmsg_udp c with
  | (events, none) => (events, .returned (if c.again then 0 else -1))
  | (events, some []) => (events, .returned (-1))
  | (events, some msgs) =>
    let (rest, e) := sendMsgs c.session msgs
    (events ++ rest, e)

/-- What the bytes of a record say. -/
def socksAddr (addr : HevSocks5Addr) : Option SocksAddr :=
  match addr.atype with
  | 0x01 => some (.ipv4 (BitVec.ofNat 32 (Dns.ofBe (addr.body.take 4)))
      (BitVec.ofNat 16 (Dns.ofBe ((addr.body.drop 4).take 2))))
  | 0x03 =>
    let len := addr.domainLen.toNat
    some (.name ((addr.body.drop 1).take len)
      (BitVec.ofNat 16 (Dns.ofBe ((addr.body.drop (1 + len)).take 2))))
  | 0x04 => some (.ipv6 (BitVec.ofNat 128 (Dns.ofBe (addr.body.take 16)))
      (BitVec.ofNat 16 (Dns.ofBe ((addr.body.drop 16).take 2))))
  | _ => none

/-- A message as a reply to the session that it finds. -/
def Session.reply (s : Session) (d : Slot) (m : Msg) : UdpSource.Reply :=
  ⟨m.addr.bind socksAddr, (d.mem.drop m.off).take m.len, s.saddr, s.taken⟩

def Session.state (s : Session) (st : UdpSource.State) : UdpSource.State :=
  { st with addr := s.addr, port := s.port }

/-- The messages as replies, each with the session that it finds. -/
def fwdAll (session : Nat → Session) : UdpSource.State → List (Slot × Msg) → UdpSource.State
  | st, [] => st
  | st, (d, m) :: msgs =>
    fwdAll (fun i => session (i + 1))
      (UdpSource.fwd_b ((session 0).state st) ((session 0).reply d m)) msgs

def Event.delivery : Event → Option ((IpAddr × BitVec 16) × Text)
  | deliver _ src payload => some (src, payload)
  | _ => none

/-- What the application got. -/
def delivered (st : UdpSource.State) : List ((IpAddr × BitVec 16) × Text) :=
  st.log.reverse.filterMap UdpSource.Delivery.delivered

/-- A header of three bytes, an address, a port and the payload. -/
def PayloadOf (data payload : Text) : Prop :=
  ∃ (header : Text) (a : Address) (hi lo : UInt8), header.length = 3 ∧
    data = header ++ (a.atyp :: (a.field ++ [hi, lo] ++ payload))

def WellFormed (data : Text) : Prop := ∃ payload, PayloadOf data payload

def Event.Safe : Event → Prop
  | read d off len => off + len ≤ d.data.length
  | null _ => False
  | deliver d _ payload => PayloadOf d.data payload

/-- The datagram has an address type, and behind the type of a name its length. -/
def Readable (data : Text) : Prop :=
  4 ≤ data.length ∧ (data.getD 3 0 = 0x03 → 5 ≤ data.length)

/-- Every datagram behind well-formed ones is readable. -/
def AllReadable : List Slot → Prop
  | [] => True
  | d :: ds => Readable d.data ∧ (WellFormed d.data → AllReadable ds)

/-- The payload is that of a well-formed datagram, and the address lies before it. -/
structure Framed (d : Slot) (m : Msg) : Prop where
  payload : PayloadOf d.data ((d.mem.drop m.off).take m.len)
  inside : m.off + m.len ≤ d.data.length
  addr : ∃ addr, m.addr = some addr ∧ ∀ e ∈ intoLwipReads d addr, e.Safe

variable {d : Slot} {ds : List Slot} {m : Msg} {msgs : List (Slot × Msg)} {c : Call} {s : Session}
  {session : Nat → Session} {header payload : Text} {a : Address} {hi lo : UInt8}

theorem mem_getD (n : Nat) (h : n < d.data.length) : d.mem.getD n 0 = d.data.getD n 0 := by
  rw [Slot.mem, List.getD_eq_getElem?_getD, List.getD_eq_getElem?_getD,
    List.getElem?_append_left h]

theorem addrLenReads_safe : (∀ e ∈ addrLenReads d, e.Safe) ↔ Readable d.data := by
  rw [addrLenReads, List.forall_mem_cons, Readable]
  refine and_congr_right fun h => ?_
  have h4 : 4 ≤ d.data.length := h
  rw [mem_getD 3 h4]
  split
  · rename_i hname
    rw [List.forall_mem_singleton]
    exact ⟨fun h5 _ => h5, fun h5 => h5 hname⟩
  · rename_i hname
    exact iff_of_true (List.forall_mem_nil _) (fun h => (hname h).elim)

/-- The record behind the header of a well-formed datagram holds its address. -/
theorem holds_of_data (hh : header.length = 3)
    (hd : d.data = header ++ (a.atyp :: (a.field ++ [hi, lo] ++ payload))) :
    (HevSocks5Addr.ofMem (d.mem.drop 3)).Holds a hi lo := by
  have hdrop : d.mem.drop 3 = a.atyp :: (a.field ++ [hi, lo] ++ (payload ++ d.stale)) := by
    rw [Slot.mem, hd, List.append_assoc, List.drop_left' hh, List.cons_append, List.append_assoc]
  rw [hdrop]
  have hlen : (a.field ++ [hi, lo]).length ≤ 259 := by
    have hfield := a.field_length
    rw [List.length_append]
    cases a with
    | ipv4 ip h => simp_all
    | domain name h => simp_all; omega
    | ipv6 ip h => simp_all
  refine ⟨rfl, ?_⟩
  refine List.prefix_take_iff.mpr ⟨?_, hlen⟩
  rw [List.drop_one, List.tail_cons, List.append_assoc (a.field ++ [hi, lo])]
  exact List.prefix_append _ _

/-- A well-formed datagram is a message, with its payload behind the address. -/
theorem recvMsg_of_data (hh : header.length = 3)
    (hd : d.data = header ++ (a.atyp :: (a.field ++ [hi, lo] ++ payload))) :
    recvMsg d = some ⟨some (HevSocks5Addr.ofMem (d.mem.drop 3)), a.field.length + 6,
      payload.length⟩ := by
  have haddr := (holds_of_data hh hd).addr_len
  have hlen : d.data.length = a.field.length + 6 + payload.length := by
    rw [hd]
    simp only [List.length_append, List.length_cons, List.length_nil, hh]
    omega
  rw [recvMsg, haddr, if_neg (by omega), if_neg (by omega), if_neg (by omega)]
  congr 2 <;> omega

theorem split_header (h : 4 ≤ d.data.length) :
    ∃ (header : Text) (atyp : UInt8) (body : Text), header.length = 3 ∧
      d.data = header ++ (atyp :: body) := by
  have hdrop : 0 < (d.data.drop 3).length := by
    rw [List.length_drop]
    omega
  obtain ⟨atyp, body, hbody⟩ := List.exists_cons_of_length_pos hdrop
  refine ⟨d.data.take 3, atyp, body, List.length_take_of_le (by omega), ?_⟩
  rw [← hbody, List.take_append_drop]

/-- The length of the address leaves room for one of its type. -/
theorem completeBody_of_len {atyp : UInt8} {body stale : Text}
    (hpos : 0 < hev_socks5_addr_len (HevSocks5Addr.ofMem (atyp :: (body ++ stale))))
    (hle : hev_socks5_addr_len (HevSocks5Addr.ofMem (atyp :: (body ++ stale))) ≤
      body.length + 1) : CompleteBody atyp body := by
  unfold hev_socks5_addr_len at hpos hle
  have hatype : (HevSocks5Addr.ofMem (atyp :: (body ++ stale))).atype = atyp := rfl
  rw [hatype] at hpos hle
  split at hle
  · exact Or.inl ⟨rfl, by omega⟩
  · exact Or.inr (Or.inl ⟨rfl, by omega⟩)
  · refine Or.inr (Or.inr ⟨rfl, ?_⟩)
    obtain ⟨l, rest, rfl⟩ := List.exists_cons_of_length_pos (l := body) (by omega)
    refine ⟨l, rest, rfl, ?_⟩
    have hl : (HevSocks5Addr.ofMem (0x03 :: (l :: rest ++ stale))).domainLen = l := rfl
    rw [hl, List.length_cons] at hle
    omega
  · exact absurd hpos (by simp)

/-- A readable datagram that is a message is well-formed. -/
theorem wellFormed_of_recvMsg (hr : Readable d.data) (hm : recvMsg d = some m) :
    WellFormed d.data := by
  obtain ⟨header, atyp, body, hh, hd⟩ := split_header hr.1
  have hdrop : d.mem.drop 3 = atyp :: (body ++ d.stale) := by
    rw [Slot.mem, hd, List.append_assoc, List.drop_left' hh, List.cons_append]
  have hlen : d.data.length = 4 + body.length := by
    rw [hd, List.length_append, List.length_cons, hh]
    omega
  rw [recvMsg, hdrop, if_neg (by omega)] at hm
  split at hm
  · cases hm
  · split at hm
    · cases hm
    · have hpos : 0 < hev_socks5_addr_len (HevSocks5Addr.ofMem (atyp :: (body ++ d.stale))) := by
        omega
      have hbody : CompleteBody atyp body := completeBody_of_len hpos (by omega)
      obtain ⟨a, hi, lo, payload, rfl, rfl⟩ := completeBody_iff.mp hbody
      exact ⟨payload, header, a, hi, lo, hh, hd⟩

/-- A message of a readable datagram is framed. -/
theorem framed_of_recvMsg (hr : Readable d.data) (hm : recvMsg d = some m) : Framed d m := by
  obtain ⟨payload, header, a, hi, lo, hh, hd⟩ := wellFormed_of_recvMsg hr hm
  rw [recvMsg_of_data hh hd] at hm
  cases hm
  have hlen : d.data.length = a.field.length + 6 + payload.length := by
    rw [hd]
    simp only [List.length_append, List.length_cons, List.length_nil, hh]
    omega
  refine ⟨⟨header, a, hi, lo, hh, ?_⟩, ?_, _, rfl, ?_⟩
  · have hdrop : d.mem.drop (a.field.length + 6) = payload ++ d.stale := by
      have hsplit : d.mem = (header ++ (a.atyp :: (a.field ++ [hi, lo]))) ++
          (payload ++ d.stale) := by
        rw [Slot.mem, hd]
        simp
      rw [hsplit]
      apply List.drop_left'
      simp only [List.length_append, List.length_cons, List.length_nil, hh]
      omega
    rw [hdrop, List.take_left]
    exact hd
  · exact Nat.le_of_eq hlen.symm
  · rw [intoLwipReads, (holds_of_data hh hd).atype]
    cases a with
    | ipv4 ip h =>
      have hfield : (Address.ipv4 ip h).field.length = 4 := h
      have hten : 10 ≤ d.data.length := by omega
      simp only [Address.atyp, List.forall_mem_cons, Event.Safe]
      refine ⟨by omega, by omega, by omega, List.forall_mem_nil _⟩
    | domain name h =>
      have hfour : 4 ≤ d.data.length := by omega
      simp only [Address.atyp, List.forall_mem_cons, Event.Safe]
      exact ⟨hfour, List.forall_mem_nil _⟩
    | ipv6 ip h =>
      have hfield : (Address.ipv6 ip h).field.length = 16 := h
      have hlong : 22 ≤ d.data.length := by omega
      simp only [Address.atyp, List.forall_mem_cons, Event.Safe]
      refine ⟨by omega, by omega, by omega, List.forall_mem_nil _⟩

/-- The receiver reads inside the datagrams exactly when they are all readable. -/
theorem recvMsgs_safe : (∀ e ∈ (recvMsgs ds).1, e.Safe) ↔ AllReadable ds := by
  induction ds with
  | nil => exact iff_of_true (List.forall_mem_nil _) trivial
  | cons d ds ih =>
    rw [recvMsgs, AllReadable]
    cases hm : recvMsg d with
    | none =>
      dsimp only
      rw [addrLenReads_safe]
      refine (and_iff_left fun hw => ?_).symm
      obtain ⟨payload, header, a, hi, lo, hh, hd⟩ := hw
      rw [recvMsg_of_data hh hd] at hm
      cases hm
    | some m =>
      dsimp only
      rw [List.forall_mem_append, addrLenReads_safe, ih]
      refine and_congr_right fun hr => ?_
      exact ⟨fun h _ => h, fun h => h (wellFormed_of_recvMsg hr hm)⟩

theorem recvMsgs_framed (hds : AllReadable ds) (hm : (recvMsgs ds).2 = some msgs) :
    ∀ x ∈ msgs, Framed x.1 x.2 := by
  induction ds generalizing msgs with
  | nil =>
    cases hm
    exact fun _ hx => nomatch hx
  | cons d ds ih =>
    rw [recvMsgs] at hm
    cases hd : recvMsg d with
    | none =>
      rw [hd] at hm
      cases hm
    | some m =>
      rw [hd] at hm
      obtain ⟨rest, hrest, rfl⟩ := Option.map_eq_some_iff.mp hm
      rw [List.forall_mem_cons]
      exact ⟨framed_of_recvMsg hds.1 hd, ih (hds.2 (wellFormed_of_recvMsg hds.1 hd)) hrest⟩

theorem source_safe (hm : Framed d m) : ∀ e ∈ (source s d m).1, e.Safe := by
  obtain ⟨addr, haddr, hreads⟩ := hm.addr
  rw [source]
  split
  · exact List.forall_mem_nil _
  · rw [haddr]
    dsimp only
    split
    · exact hreads
    · exact hreads

/-- The induction is on the messages, each with its own state of the session. -/
theorem sendMsgs_safe (hm : ∀ x ∈ msgs, Framed x.1 x.2) :
    ∀ e ∈ (sendMsgs session msgs).1, e.Safe := by
  induction msgs generalizing session with
  | nil => exact List.forall_mem_nil _
  | cons x msgs ih =>
    obtain ⟨hx, hmsgs⟩ := List.forall_mem_cons.mp hm
    have hsource := @source_safe x.1 x.2 (session 0) hx
    rw [sendMsgs]
    split
    · rename_i events e heq
      rw [heq] at hsource
      exact hsource
    · rename_i events src heq
      rw [heq] at hsource
      split
      · exact hsource
      · rw [List.forall_mem_append, List.forall_mem_append]
        refine ⟨⟨hsource, ?_⟩, ih hmsgs⟩
        rw [List.forall_mem_cons, List.forall_mem_singleton]
        exact ⟨hx.inside, hx.payload⟩

theorem recvmmsg_looks (hds : c.received = some ds) (hl : c.Looks) :
    hev_socks5_udp_recvmmsg_udp c = recvMsgs ds := by
  rw [hev_socks5_udp_recvmmsg_udp, hds]
  cases ds with
  | nil => rfl
  | cons d ds =>
    refine if_neg ?_
    rintro ⟨ha, hc⟩
    rcases hl with h | h
    · rw [ha] at h
      cases h
    · rw [hc] at h
      cases h

/-- Without a connection there are no messages, and nothing is read. -/
theorem recvmmsg_overlooks (h : ¬ ∃ ds, c.received = some ds ∧ c.Looks) :
    (hev_socks5_udp_recvmmsg_udp c).1 = [] ∧ ∀ msgs, (hev_socks5_udp_recvmmsg_udp c).2 = some msgs →
      msgs = [] := by
  rw [hev_socks5_udp_recvmmsg_udp]
  cases hds : c.received with
  | none => exact ⟨rfl, nofun⟩
  | some ds =>
    cases ds with
    | nil =>
      refine ⟨rfl, fun msgs he => ?_⟩
      cases he
      rfl
    | cons d ds =>
      have hnot : c.udp_associated = false ∧ c.connects = false := by
        have hl : ¬ c.Looks := fun hl => h ⟨_, hds, hl⟩
        rw [Call.Looks] at hl
        simpa using hl
      dsimp only
      rw [if_pos hnot]
      exact ⟨rfl, nofun⟩

/-- The call reads what the receiver reads, and then what its messages need. -/
theorem fwd_b_events : ∃ rest, (hev_socks5_session_udp_fwd_b c).1 =
      (hev_socks5_udp_recvmmsg_udp c).1 ++ rest ∧
    (rest = [] ∨ ∃ msgs, (hev_socks5_udp_recvmmsg_udp c).2 = some msgs ∧
      rest = (sendMsgs c.session msgs).1) := by
  rw [hev_socks5_session_udp_fwd_b]
  split
  · rename_i events heq
    rw [heq]
    exact ⟨[], (List.append_nil _).symm, Or.inl rfl⟩
  · rename_i events heq
    rw [heq]
    exact ⟨[], (List.append_nil _).symm, Or.inl rfl⟩
  · rename_i events msgs _ heq
    rw [heq]
    exact ⟨_, rfl, Or.inr ⟨msgs, rfl, rfl⟩⟩

/-- A call is safe exactly when the datagrams that it looks at are readable. -/
theorem fwd_b_safe_iff : (∀ e ∈ (hev_socks5_session_udp_fwd_b c).1, e.Safe) ↔
    ∀ ds, c.received = some ds → c.Looks → AllReadable ds := by
  obtain ⟨rest, hevents, hrest⟩ := @fwd_b_events c
  rw [hevents, List.forall_mem_append]
  constructor
  · rintro ⟨hrecv, -⟩ ds hds hl
    rw [recvmmsg_looks hds hl] at hrecv
    exact recvMsgs_safe.mp hrecv
  · intro h
    by_cases hlooks : ∃ ds, c.received = some ds ∧ c.Looks
    · obtain ⟨ds, hds, hl⟩ := hlooks
      rw [recvmmsg_looks hds hl] at hrest ⊢
      refine ⟨recvMsgs_safe.mpr (h ds hds hl), ?_⟩
      rcases hrest with rfl | ⟨msgs, hmsgs, rfl⟩
      · exact List.forall_mem_nil _
      · exact sendMsgs_safe (recvMsgs_framed (h ds hds hl) hmsgs)
    · obtain ⟨hnone, hmsgs⟩ := recvmmsg_overlooks hlooks
      rw [hnone]
      refine ⟨List.forall_mem_nil _, ?_⟩
      rcases hrest with rfl | ⟨msgs, hm, rfl⟩
      · exact List.forall_mem_nil _
      · rw [hmsgs msgs hm]
        exact List.forall_mem_nil _

/-! The messages and the session's own model of its replies -/

theorem into_lwip_eq (addr : HevSocks5Addr) :
    hev_socks5_addr_into_lwip addr = UdpSource.hev_socks5_addr_into_lwip (socksAddr addr) := by
  unfold hev_socks5_addr_into_lwip socksAddr
  split
  · rename_i h
    rw [h]
    rfl
  · rename_i h
    rw [h]
    rfl
  · rename_i hv4 hv6
    split
    · exact (hv4 ‹_›).elim
    · rfl
    · exact (hv6 ‹_›).elim
    · rfl

section

variable {st : UdpSource.State} {session : Nat → Session}

/-- A source is read where the model of the session has one. -/
theorem source_eq (st : UdpSource.State) : (source s d m).2.toOption = UdpSource.source (s.state st) (s.reply d m) := by
  unfold source UdpSource.source
  by_cases hs : s.addr ≠ 0 ∧ s.port ≠ 0
  · have hst : (s.state st).addr ≠ 0 ∧ (s.state st).port ≠ 0 := hs
    rw [if_pos hs, if_pos hst]
    rfl
  · have hst : ¬ ((s.state st).addr ≠ 0 ∧ (s.state st).port ≠ 0) := hs
    rw [if_neg hs, if_neg hst]
    cases ha : m.addr with
    | none =>
      simp only [Session.reply, ha]
      rfl
    | some addr =>
      simp only [Session.reply, ha, Option.bind_some, ← into_lwip_eq]
      cases hev_socks5_addr_into_lwip addr <;> rfl

/-- An error is never the good end of the loop. -/
theorem source_error {events : List Event} {e : End} (h : source s d m = (events, .error e)) :
    e ≠ .returned 1 := by
  unfold source at h
  split at h
  · cases h
  · split at h
    · cases h
      nofun
    · split at h <;> cases h
      nofun

theorem source_events : (source s d m).1.filterMap Event.delivery = [] := by
  unfold source
  split
  · rfl
  · split
    · rfl
    · split <;>
      · unfold intoLwipReads
        split <;> rfl

theorem delivered_fwd_b {r : UdpSource.Reply} : delivered (UdpSource.fwd_b st r) = delivered st ++
    (if st.receiving && r.taken then (UdpSource.source st r).map fun src => (src, r.buf)
      else none).toList := by
  unfold delivered UdpSource.fwd_b
  rw [List.reverse_cons, List.filterMap_append]
  rfl

/-- Behind an error nothing is delivered. -/
theorem fwdAll_stopped (session : Nat → Session) (msgs : List (Slot × Msg)) (h : st.receiving = false) :
    delivered (fwdAll session st msgs) = delivered st ∧ (fwdAll session st msgs).receiving = false := by
  induction msgs generalizing st session with
  | nil => exact ⟨rfl, h⟩
  | cons dm msgs ih =>
    obtain ⟨d, m⟩ := dm
    have hstate : ((session 0).state st).receiving = false := h
    have hstop : (UdpSource.fwd_b ((session 0).state st) ((session 0).reply d m)).receiving = false := by
      simp [UdpSource.fwd_b, hstate]
    obtain ⟨hd, hr⟩ := @ih _ (fun i => session (i + 1)) hstop
    refine ⟨hd.trans ?_, hr⟩
    rw [delivered_fwd_b, hstate, Bool.false_and, if_neg Bool.false_ne_true]
    exact List.append_nil _

/-- One message: what is delivered, and whether the next one is looked at. -/
theorem fwd_b_message (h : st.receiving = true) :
    delivered (UdpSource.fwd_b (s.state st) (s.reply d m)) = delivered st ++
        (if s.taken then (source s d m).2.toOption.map fun src => (src, (d.mem.drop m.off).take m.len)
          else none).toList ∧
      (UdpSource.fwd_b (s.state st) (s.reply d m)).receiving =
        (s.taken && (source s d m).2.toOption.isSome) := by
  have hstate : (s.state st).receiving = true := h
  constructor
  · rw [delivered_fwd_b, hstate, Bool.true_and, ← source_eq]
    rfl
  · rw [UdpSource.fwd_b]
    dsimp only
    rw [hstate, Bool.true_and, Bool.true_and, ← source_eq]
    show (if s.taken then (source s d m).2.toOption.map fun src => (src, (d.mem.drop m.off).take m.len)
      else none).isSome = _
    cases s.taken
    · rfl
    · rw [if_pos rfl, Option.isSome_map, Bool.true_and]

/-- The loop delivers what the model of the session delivers, and ends well where that one goes on. -/
theorem sendMsgs_eq (h : st.receiving = true) :
    delivered (fwdAll session st msgs) =
        delivered st ++ (sendMsgs session msgs).1.filterMap Event.delivery ∧
      ((fwdAll session st msgs).receiving = true ↔ (sendMsgs session msgs).2 = .returned 1) := by
  induction msgs generalizing st session with
  | nil => exact ⟨(List.append_nil _).symm, iff_of_true h rfl⟩
  | cons dm msgs ih =>
    obtain ⟨d, m⟩ := dm
    obtain ⟨hd, hr⟩ := fwd_b_message (s := session 0) (d := d) (m := m) h
    have hevents := source_events (s := session 0) (d := d) (m := m)
    rw [fwdAll, sendMsgs]
    match hsrc : source (session 0) d m with
    | (events, .error e) =>
      rw [hsrc] at hd hr hevents
      obtain ⟨hd', hr'⟩ := fwdAll_stopped (fun i => session (i + 1)) msgs
        (hr.trans (Bool.and_false _))
      have hnothing : delivered (UdpSource.fwd_b ((session 0).state st) ((session 0).reply d m)) =
          delivered st := by
        rw [hd]
        cases (session 0).taken <;> exact List.append_nil _
      refine ⟨?_, iff_of_false (by rw [hr']; exact Bool.false_ne_true) (source_error hsrc)⟩
      rw [hd', hnothing]
      exact (List.append_nil _).symm.trans (congrArg (delivered st ++ ·) hevents.symm)
    | (events, .ok src) =>
      rw [hsrc] at hd hr hevents
      cases htaken : (session 0).taken with
      | false =>
        rw [htaken] at hd hr
        obtain ⟨hd', hr'⟩ := fwdAll_stopped (fun i => session (i + 1)) msgs hr
        refine ⟨?_, iff_of_false (by rw [hr']; exact Bool.false_ne_true) nofun⟩
        rw [hd', hd]
        exact congrArg (delivered st ++ ·) hevents.symm
      | true =>
        rw [htaken] at hd hr
        obtain ⟨hd', hr'⟩ := @ih _ (fun i => session (i + 1)) hr
        refine ⟨?_, hr'⟩
        have hevents : events.filterMap Event.delivery = [] := hevents
        rw [hd', hd, List.append_assoc]
        refine congrArg (delivered st ++ ·) ?_
        show _ = (events ++ [Event.read d m.off m.len, .deliver d src ((d.mem.drop m.off).take m.len)] ++
          (sendMsgs (fun i => session (i + 1)) msgs).1).filterMap Event.delivery
        rw [List.filterMap_append, List.filterMap_append, hevents]
        rfl

theorem recvMsgs_events (ds : List Slot) : (recvMsgs ds).1.filterMap Event.delivery = [] := by
  have hreads : ∀ d : Slot, (addrLenReads d).filterMap Event.delivery = [] := by
    intro d
    unfold addrLenReads
    split <;> rfl
  induction ds with
  | nil => rfl
  | cons d ds ih =>
    rw [recvMsgs]
    split
    · exact hreads d
    · rw [List.filterMap_append, hreads, ih]
      rfl

/-- A call that has received messages delivers what the model of the session delivers of them. -/
theorem fwd_b_delivers (h : st.receiving = true) (hm : (hev_socks5_udp_recvmmsg_udp c).2 = some msgs) :
    delivered (fwdAll c.session st msgs) =
      delivered st ++ (hev_socks5_session_udp_fwd_b c).1.filterMap Event.delivery := by
  have hrecv : (hev_socks5_udp_recvmmsg_udp c).1.filterMap Event.delivery = [] := by
    unfold hev_socks5_udp_recvmmsg_udp
    split
    · rfl
    · rfl
    · split
      · rfl
      · exact recvMsgs_events _
  rw [(sendMsgs_eq h).1, hev_socks5_session_udp_fwd_b]
  match hall : hev_socks5_udp_recvmmsg_udp c with
  | (events, none) =>
    rw [hall] at hm
    cases hm
  | (events, some []) =>
    rw [hall] at hm hrecv
    cases hm
    exact congrArg (delivered st ++ ·) hrecv.symm
  | (events, some (dm :: msgs)) =>
    rw [hall] at hm hrecv
    cases hm
    have hrecv : events.filterMap Event.delivery = [] := hrecv
    refine congrArg (delivered st ++ ·) ?_
    show _ = (events ++ (sendMsgs c.session (dm :: msgs)).1).filterMap Event.delivery
    rw [List.filterMap_append, hrecv, List.nil_append]

end

/-- A datagram of three bytes, in a memory of zeros. -/
def shortSlot : Slot where
  data := [0, 0, 0]
  stale := List.replicate 1497 0
  size := by
    rw [List.length_replicate]
    rfl

/-- A session that remembers no mapped name. -/
def shortCall : Call :=
  ⟨true, false, some [shortSlot], false, fun _ => ⟨0, 0, .v4 0, true⟩⟩

/-- The datagram has no address, which is used all the same. -/
theorem short_datagram_crashes : .null shortSlot ∈ (hev_socks5_session_udp_fwd_b shortCall).1 ∧
    ¬ ∀ e ∈ (hev_socks5_session_udp_fwd_b shortCall).1, e.Safe := by
  have hevents : (hev_socks5_session_udp_fwd_b shortCall).1 =
      [.read shortSlot 3 1, .null shortSlot] := rfl
  rw [hevents]
  constructor
  · exact List.mem_cons_of_mem _ List.mem_cons_self
  · intro h
    exact h _ (List.mem_cons_of_mem _ List.mem_cons_self)

end XTunnel.UdpRelay
