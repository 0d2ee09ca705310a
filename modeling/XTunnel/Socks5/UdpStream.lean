import XTunnel.Fragments
import XTunnel.Socks5.Client

/-! Datagrams on the TCP stream of a relay: `hev_socks5_udp_sendmmsg_tcp` and
`hev_socks5_udp_recvmmsg_tcp`. -/
namespace XTunnel.Socks5

open Net Fragments

/-- A datagram: its address with the port as the record spells them, and its payload. -/
structure Datagram where
  addr : Text
  payload : Text
deriving DecidableEq

def HevSocks5UDPMsg.datagram (msg : HevSocks5UDPMsg) : Datagram :=
  ⟨msg.addr.bytes (hev_socks5_addr_len msg.addr).toNat, msg.buf⟩

/-- What goes on the stream for one message. The length of the header is a `uint8_t`, and that of
the payload a `uint16_t`. -/
def frame (msg : HevSocks5UDPMsg) : Text :=
  portBytes msg.buf.length ++ UInt8.ofNat (3 + (hev_socks5_addr_len msg.addr).toNat) ::
    msg.addr.bytes (hev_socks5_addr_len msg.addr).toNat ++ msg.buf

/-- The bytes that are written, or `none` for the result `-1`. -/
def hev_socks5_udp_sendmmsg_tcp (msgv : List HevSocks5UDPMsg) : Option Text :=
  let iov := msgv.mapM fun msg =>
    if hev_socks5_addr_len msg.addr ≤ 0 then none else some (frame msg)
  iov.bind fun iov => if iov.flatten.length ≤ 0 then none else some iov.flatten

/-- The memory of a message after a read, where its payload starts and how long it is. -/
structure Received where
  mem : Text
  addrlen : Nat
  len : Nat

/-- The record at the start of a memory. -/
def HevSocks5Addr.ofMem (mem : Text) : HevSocks5Addr :=
  { atype := mem.getD 0 0
    body := (mem.drop 1 ++ List.replicate 259 0).take 259
    size := by
      rw [List.length_take, List.length_append, List.length_replicate]
      omega }

def Received.datagram (r : Received) : Datagram :=
  { addr := (HevSocks5Addr.ofMem r.mem).bytes
      (hev_socks5_addr_len (HevSocks5Addr.ofMem r.mem)).toNat
    payload := (r.mem.drop r.addrlen).take r.len }

/-- `xs` written to a memory from `off` on. -/
def store (mem : Text) (off : Nat) (xs : Text) : Text :=
  mem.take off ++ xs ++ mem.drop (off + xs.length)

/-- A memory after the read of `xs` into its two parts; type and length of the address come from the
header. -/
def fill (buf : Text) (addrlen : Nat) (xs : Text) (atype len : UInt8) : Text :=
  let mem := store (store buf 2 (xs.take (addrlen - 2))) addrlen (xs.drop (addrlen - 2))
  store (store mem 0 [atype]) 1 [len]

/-- `a - b` on a `size_t`. -/
def sizeSub (a b : Nat) : Nat := (a + 2 ^ 64 - b) % 2 ^ 64

/-- What a call returns, whether `errno` is `EAGAIN`, and the messages that it filled in. -/
structure RecvResult where
  ret : Int
  again : Bool
  msgs : List Received

/-- The two reads of a header of five bytes; `none` is `EAGAIN`. -/
def recvHead (nonblock : Bool) (s : Arrivals UInt8) : Option Text × Arrivals UInt8 :=
  match takeNow 5 (!nonblock) s with
  | (none, s) => (none, s)
  | (some xs, s) =>
    if 0 < xs.length ∧ xs.length < 5 then
      (some (xs ++ (takeAll (5 - xs.length) s).1), (takeAll (5 - xs.length) s).2)
    else (some xs, s)

/-- Each message is read into a memory of its own. `done` are the ones that were read. -/
def hev_socks5_udp_recvmmsg_tcp (nonblock : Bool) :
    List Text → List Received → Arrivals UInt8 → RecvResult × Arrivals UInt8
  | [], done, s => (⟨done.length, false, done⟩, s)
  | buf :: msgv, done, s =>
    match recvHead nonblock s with
    | (none, s) =>
      if 0 < done.length then (⟨done.length, false, done⟩, s) else (⟨-1, true, done⟩, s)
    | (some [datlen1, datlen0, hdrlen, atype, len], s) =>
      if hdrlen.toNat < 5 then (⟨-1, false, done⟩, s)
      else
        let addrlen := hdrlen.toNat - 3
        let datlen := be16 datlen1 datlen0
        if sizeSub buf.length addrlen < datlen then (⟨-1, false, done⟩, s)
        else
          let (xs, s) := takeAll (addrlen - 2 + datlen) s
          if xs.length ≠ addrlen - 2 + datlen then (⟨xs.length, false, done⟩, s)
          else
            hev_socks5_udp_recvmmsg_tcp nonblock msgv
              (done ++ [⟨fill buf addrlen xs atype len, addrlen, datlen⟩]) s
    | (some head, s) =>
      if 0 < done.length then (⟨done.length, false, done⟩, s)
      else (⟨head.length, false, done⟩, s)

/-- A call of the receiver, with the memory of each message. -/
structure RecvCall where
  msgv : List Text
  nonblock : Bool

/-- How a session of calls ends. -/
inductive RecvEnd
  | reading | ended | failed
deriving DecidableEq

/-- Calls one after the other, up to the end of the stream or an error. A call that claims other
messages than it filled in counts as an error. -/
def receive : List RecvCall → Arrivals UInt8 → List Datagram × RecvEnd
  | [], _ => ([], .reading)
  | c :: calls, s =>
    let (r, s) := hev_socks5_udp_recvmmsg_tcp c.nonblock c.msgv [] s
    if r.again then receive calls s
    else if r.ret = 0 then ([], .ended)
    else if r.ret = r.msgs.length then
      let (ds, e) := receive calls s
      (r.msgs.map Received.datagram ++ ds, e)
    else ([], .failed)

/-- A memory that holds the address and the payload of any of `msgs`. -/
def RoomFor (msgs : List HevSocks5UDPMsg) (buf : Text) : Prop :=
  buf.length < 2 ^ 64 ∧
    ∀ msg ∈ msgs, (hev_socks5_addr_len msg.addr).toNat + msg.buf.length ≤ buf.length

/-- The call has a memory for a message at least. -/
structure RecvCall.Suits (c : RecvCall) (msgs : List HevSocks5UDPMsg) : Prop where
  some : c.msgv ≠ []
  room : ∀ buf ∈ c.msgv, RoomFor msgs buf

/-- Whatever the pieces in which the stream arrives, enough calls return the messages in order and
then the end of the stream. -/
def RoundTrips (msgs : List HevSocks5UDPMsg) : Prop :=
  ∀ stream s calls, hev_socks5_udp_sendmmsg_tcp msgs = some stream → contents s = stream →
    (∀ c ∈ calls, c.Suits msgs) → s.length + msgs.length < calls.length →
    receive calls s = (msgs.map HevSocks5UDPMsg.datagram, .ended)

/-- A message that the sender takes. -/
structure HevSocks5UDPMsg.Sendable (msg : HevSocks5UDPMsg) : Prop where
  addr : 0 < hev_socks5_addr_len msg.addr
  len : msg.buf.length ≤ 65535

variable {msg : HevSocks5UDPMsg} {msgs : List HevSocks5UDPMsg} {s s' : Arrivals UInt8}
  {rest : Text} {buf : Text} {msgv : List Text} {done : List Received} {nonblock : Bool}

theorem addr_len_bounds {addr : HevSocks5Addr} (h : 0 < hev_socks5_addr_len addr) :
    4 ≤ (hev_socks5_addr_len addr).toNat ∧ (hev_socks5_addr_len addr).toNat ≤ 259 := by
  have hlt := addr.domainLen.toNat_lt
  unfold hev_socks5_addr_len at h ⊢
  split <;> simp_all
  omega

/-- What the sender writes is the frames of its messages. -/
theorem send_eq (h : ∀ msg ∈ msgs, msg.Sendable) (hne : msgs ≠ []) :
    hev_socks5_udp_sendmmsg_tcp msgs = some (msgs.flatMap frame) := by
  have hmap : (msgs.mapM fun msg => if hev_socks5_addr_len msg.addr ≤ 0 then none
      else some (frame msg)) = some (msgs.map frame) := by
    induction msgs with
    | nil => rfl
    | cons msg msgs ih =>
      have hpos := (h msg List.mem_cons_self).addr
      rw [List.mapM_cons, if_neg (by omega)]
      by_cases hm : msgs = []
      · subst hm
        rfl
      · rw [ih (fun m hm => h m (List.mem_cons_of_mem _ hm)) hm]
        rfl
  have hlen : 0 < (msgs.map frame).flatten.length := by
    obtain ⟨msg, msgs, rfl⟩ := List.exists_cons_of_ne_nil hne
    simp [frame, portBytes]
  rw [hev_socks5_udp_sendmmsg_tcp, hmap, Option.bind_some, if_neg (by omega), List.flatMap_def]

/-- The header is read whole once it is there, unless the call must not wait for it. -/
theorem recvHead_spec (nonblock : Bool) {head : Text} (hc : contents s = head ++ rest) (hh : head.length = 5) :
    (nonblock = true ∧ ∃ s', recvHead nonblock s = (none, s') ∧ contents s' = contents s ∧
      s'.length < s.length) ∨
    ∃ s', recvHead nonblock s = (some head, s') ∧ contents s' = rest ∧ s'.length ≤ s.length := by
  cases hnow : takeNow 5 (!nonblock) s with
  | mk o s₁ =>
    cases o with
    | none =>
      obtain ⟨hw, hc', hl⟩ := takeNow_none hnow
      refine .inl ⟨by simpa using hw, s₁, ?_, hc', hl⟩
      rw [recvHead, hnow]
    | some xs =>
      obtain ⟨hc', hx, he, hl⟩ := takeNow_some (by decide) hnow
      have hne : xs ≠ [] := by
        intro hxs
        rw [he hxs] at hc
        have := congrArg List.length hc
        simp only [List.length_nil, List.length_append] at this
        omega
      have hpos := List.length_pos_iff.mpr hne
      obtain ⟨ys, rfl⟩ : xs <+: head :=
        List.prefix_of_prefix_length_le (hc' ▸ List.prefix_append _ _)
          (hc ▸ List.prefix_append _ _) (by omega)
      rw [List.append_assoc, hc', List.append_cancel_left_eq] at hc
      rw [List.length_append] at hh
      refine .inr ?_
      by_cases hfull : xs.length < 5
      · refine ⟨(takeAll (5 - xs.length) s₁).2, ?_, ?_, Nat.le_trans length_takeAll hl⟩
        · rw [recvHead, hnow]
          simp only [if_pos (And.intro hpos hfull)]
          rw [takeAll_fst, hc, List.take_left' (by omega)]
        · rw [contents_takeAll, hc, List.drop_left' (by omega)]
      · obtain rfl : ys = [] := List.eq_nil_of_length_eq_zero (by omega)
        refine ⟨s₁, ?_, hc, hl⟩
        rw [recvHead, hnow, List.append_nil]
        exact if_neg (fun h => hfull h.2)

theorem store_append (p q xs : Text) : store (p ++ q) p.length xs = p ++ xs ++ q.drop xs.length := by
  rw [store, List.take_left' rfl, List.drop_append, List.drop_of_length_le (by omega),
    Nat.add_sub_cancel_left, List.nil_append]

/-- The two parts of a memory lie next to each other, behind the two bytes from the header. -/
theorem fill_eq {addrlen : Nat} {xs : Text} {atype len : UInt8} (ha : 2 ≤ addrlen)
    (hx : addrlen - 2 ≤ xs.length) (hbuf : 2 ≤ buf.length) :
    fill buf addrlen xs atype len = atype :: len :: (xs ++ buf.drop (2 + xs.length)) := by
  match buf, hbuf with
  | b0 :: b1 :: buf, _ =>
    have hlen : (b0 :: b1 :: xs.take (addrlen - 2)).length = addrlen := by
      simp only [List.length_cons, List.length_take]
      omega
    have h1 : store (b0 :: b1 :: buf) 2 (xs.take (addrlen - 2)) =
        (b0 :: b1 :: xs.take (addrlen - 2)) ++ buf.drop (xs.take (addrlen - 2)).length :=
      store_append [b0, b1] buf _
    have h2 := store_append (b0 :: b1 :: xs.take (addrlen - 2))
      (buf.drop (xs.take (addrlen - 2)).length) (xs.drop (addrlen - 2))
    rw [hlen] at h2
    have hxs : (b0 :: b1 :: xs.take (addrlen - 2)) ++ xs.drop (addrlen - 2) = b0 :: b1 :: xs := by
      rw [List.cons_append, List.cons_append, List.take_append_drop]
    have hdrop : (xs.take (addrlen - 2)).length + (xs.drop (addrlen - 2)).length = xs.length := by
      rw [← List.length_append, List.take_append_drop]
    rw [hxs, List.drop_drop, hdrop] at h2
    rw [fill, h1, h2, Nat.add_comm 2]
    rfl

theorem addr_len_congr {a b : HevSocks5Addr} (ht : a.atype = b.atype)
    (hd : a.domainLen = b.domainLen) : hev_socks5_addr_len a = hev_socks5_addr_len b := by
  rw [hev_socks5_addr_len, hev_socks5_addr_len, ht, hd]

/-- A record is read back from a memory that begins with its bytes. -/
theorem ofMem_bytes {addr : HevSocks5Addr} {n : Nat} (hn : (hev_socks5_addr_len addr).toNat = n)
    (h4 : 4 ≤ n) (h259 : n ≤ 259) (tail : Text) :
    (HevSocks5Addr.ofMem (addr.bytes n ++ tail)).bytes
      (hev_socks5_addr_len (HevSocks5Addr.ofMem (addr.bytes n ++ tail))).toNat = addr.bytes n := by
  obtain ⟨m, rfl⟩ : ∃ m, n = m + 1 := ⟨n - 1, by omega⟩
  have hbytes : addr.bytes (m + 1) = addr.atype :: addr.body.take m := rfl
  have hlen : (addr.body.take m).length = m := by
    rw [List.length_take, addr.size]
    omega
  have hbody : (HevSocks5Addr.ofMem (addr.bytes (m + 1) ++ tail)).body.take m = addr.body.take m := by
    show (List.take 259 (addr.body.take m ++ tail ++ List.replicate 259 0)).take m = _
    rw [List.take_take, Nat.min_eq_left (by omega), List.append_assoc, List.take_left' hlen]
  have hdom : (HevSocks5Addr.ofMem (addr.bytes (m + 1) ++ tail)).domainLen = addr.domainLen := by
    have h0 : ∀ l : Text, (l.take m).getD 0 0 = l.getD 0 0 := by
      intro l
      rw [List.getD_eq_getElem?_getD, List.getD_eq_getElem?_getD,
        List.getElem?_take_of_lt (by omega)]
    rw [HevSocks5Addr.domainLen, HevSocks5Addr.domainLen, ← h0, hbody, h0]
  have hsame := addr_len_congr (a := HevSocks5Addr.ofMem (addr.bytes (m + 1) ++ tail)) (b := addr)
    rfl hdom
  rw [hsame, hn]
  show addr.atype :: (HevSocks5Addr.ofMem (addr.bytes (m + 1) ++ tail)).body.take m = _
  rw [hbody, hbytes]

section Read

variable {d1 d0 hdrlen atype len : UInt8}

/-- What a message reads behind its header. -/
def bodyLen (d1 d0 hdrlen : UInt8) : Nat := hdrlen.toNat - 3 - 2 + be16 d1 d0

theorem recv_badHead (hhead : recvHead nonblock s = (some [d1, d0, hdrlen, atype, len], s'))
    (h : hdrlen.toNat < 5) :
    hev_socks5_udp_recvmmsg_tcp nonblock (buf :: msgv) done s = (⟨-1, false, done⟩, s') := by
  rw [hev_socks5_udp_recvmmsg_tcp, hhead]
  exact if_pos h

theorem recv_short (hhead : recvHead nonblock s = (some [d1, d0, hdrlen, atype, len], s'))
    (h : 5 ≤ hdrlen.toNat) (hroom : be16 d1 d0 ≤ sizeSub buf.length (hdrlen.toNat - 3))
    (hall : (contents s').length < bodyLen d1 d0 hdrlen) :
    hev_socks5_udp_recvmmsg_tcp nonblock (buf :: msgv) done s =
      (⟨(contents s').length, false, done⟩, (takeAll (bodyLen d1 d0 hdrlen) s').2) := by
  have hx : (takeAll (bodyLen d1 d0 hdrlen) s').1 = contents s' := by
    rw [takeAll_fst, List.take_of_length_le (Nat.le_of_lt hall)]
  rw [hev_socks5_udp_recvmmsg_tcp, hhead]
  simp only
  rw [if_neg (by omega), if_neg (by omega)]
  have hne : (takeAll (bodyLen d1 d0 hdrlen) s').1.length ≠ bodyLen d1 d0 hdrlen := by
    rw [hx]
    exact Nat.ne_of_lt hall
  refine (if_pos hne).trans ?_
  show (RecvResult.mk ((takeAll (bodyLen d1 d0 hdrlen) s').1.length : Nat) false done, _) = _
  rw [hx]
  rfl

theorem recv_body (hhead : recvHead nonblock s = (some [d1, d0, hdrlen, atype, len], s'))
    (h : 5 ≤ hdrlen.toNat) (hroom : be16 d1 d0 ≤ sizeSub buf.length (hdrlen.toNat - 3))
    (hall : bodyLen d1 d0 hdrlen ≤ (contents s').length) :
    hev_socks5_udp_recvmmsg_tcp nonblock (buf :: msgv) done s =
      hev_socks5_udp_recvmmsg_tcp nonblock msgv
        (done ++ [⟨fill buf (hdrlen.toNat - 3) ((contents s').take (bodyLen d1 d0 hdrlen)) atype len,
          hdrlen.toNat - 3, be16 d1 d0⟩])
        (takeAll (bodyLen d1 d0 hdrlen) s').2 := by
  have hx : (takeAll (bodyLen d1 d0 hdrlen) s').1.length = bodyLen d1 d0 hdrlen := by
    rw [takeAll_fst, List.length_take, Nat.min_eq_left hall]
  rw [hev_socks5_udp_recvmmsg_tcp, hhead]
  simp only
  rw [if_neg (by omega), if_neg (by omega)]
  refine (if_neg fun hne => hne hx).trans ?_
  rw [← takeAll_fst]
  rfl

end Read

theorem sizeSub_eq {a b : Nat} (hb : b ≤ a) (ha : a < 2 ^ 64) : sizeSub a b = a - b := by
  unfold sizeSub
  omega

/-- A frame is its header of five bytes, the rest of its address and its payload. -/
theorem frame_head (h : msg.Sendable) : ∃ d1 d0 atype len, ∃ tail : Text,
    msg.addr.bytes (hev_socks5_addr_len msg.addr).toNat = atype :: len :: tail ∧
    tail.length + 2 = (hev_socks5_addr_len msg.addr).toNat ∧ be16 d1 d0 = msg.buf.length ∧
    frame msg = [d1, d0, UInt8.ofNat (3 + (hev_socks5_addr_len msg.addr).toNat), atype, len] ++
      (tail ++ msg.buf) := by
  obtain ⟨h4, h259⟩ := addr_len_bounds h.addr
  have hlen : (msg.addr.bytes (hev_socks5_addr_len msg.addr).toNat).length =
      (hev_socks5_addr_len msg.addr).toNat := by
    rw [HevSocks5Addr.bytes, List.length_take, List.length_cons, msg.addr.size]
    omega
  obtain ⟨atype, len, tail, hb⟩ : ∃ atype len, ∃ tail : Text,
      msg.addr.bytes (hev_socks5_addr_len msg.addr).toNat = atype :: len :: tail := by
    cases hm : msg.addr.bytes (hev_socks5_addr_len msg.addr).toNat with
    | nil =>
      rw [hm, List.length_nil] at hlen
      omega
    | cons atype rest =>
      cases rest with
      | nil =>
        rw [hm, List.length_singleton] at hlen
        omega
      | cons len tail => exact ⟨atype, len, tail, rfl⟩
  refine ⟨UInt8.ofNat (msg.buf.length / 256), UInt8.ofNat msg.buf.length, atype, len, tail, hb, ?_, ?_, ?_⟩
  · rw [← hlen, hb]
    rfl
  · rw [be16_ofNat]
    have hle := h.len
    omega
  · rw [frame, hb]
    rfl

theorem recvHead_end (nonblock : Bool) (hc : contents s = []) :
    (nonblock = true ∧ ∃ s', recvHead nonblock s = (none, s') ∧ contents s' = contents s ∧
      s'.length < s.length) ∨
    ∃ s', recvHead nonblock s = (some [], s') ∧ contents s' = [] ∧ s'.length ≤ s.length := by
  cases hnow : takeNow 5 (!nonblock) s with
  | mk o s₁ =>
    cases o with
    | none =>
      obtain ⟨hw, hc', hl⟩ := takeNow_none hnow
      refine .inl ⟨by simpa using hw, s₁, ?_, hc', hl⟩
      rw [recvHead, hnow]
    | some xs =>
      obtain ⟨hc', -, -, hl⟩ := takeNow_some (by decide) hnow
      obtain ⟨rfl, hs⟩ := List.append_eq_nil_iff.mp (hc'.symm.trans hc)
      refine .inr ⟨s₁, ?_, hs, hl⟩
      rw [recvHead, hnow]
      rfl

/-- What a call returns that finds nothing more to read. -/
def stopped (done : List Received) (ret : Int) (again : Bool) : RecvResult :=
  if 0 < done.length then ⟨done.length, false, done⟩ else ⟨ret, again, done⟩

theorem recv_again (h : recvHead nonblock s = (none, s')) :
    hev_socks5_udp_recvmmsg_tcp nonblock (buf :: msgv) done s = (stopped done (-1) true, s') := by
  rw [hev_socks5_udp_recvmmsg_tcp, h, stopped]
  dsimp only
  split <;> rfl

theorem recv_end (h : recvHead nonblock s = (some [], s')) :
    hev_socks5_udp_recvmmsg_tcp nonblock (buf :: msgv) done s = (stopped done 0 false, s') := by
  rw [hev_socks5_udp_recvmmsg_tcp, h, stopped]
  dsimp only
  split <;> rfl

/-- The address of the message fits the length byte of the header. -/
def HevSocks5UDPMsg.Fits (msg : HevSocks5UDPMsg) : Prop := hev_socks5_addr_len msg.addr ≤ 252

/-- A frame is read as its datagram, into any memory that holds it. -/
theorem recv_frame (nonblock : Bool) (msgv : List Text) (done : List Received) (h : msg.Sendable)
    (hfits : msg.Fits) (hbuf : buf.length < 2 ^ 64)
    (hroom : (hev_socks5_addr_len msg.addr).toNat + msg.buf.length ≤ buf.length)
    (hc : contents s = frame msg ++ rest) :
    (nonblock = true ∧ ∃ s', hev_socks5_udp_recvmmsg_tcp nonblock (buf :: msgv) done s =
      (stopped done (-1) true, s') ∧ contents s' = contents s ∧ s'.length < s.length) ∨
    ∃ r s', hev_socks5_udp_recvmmsg_tcp nonblock (buf :: msgv) done s =
        hev_socks5_udp_recvmmsg_tcp nonblock msgv (done ++ [r]) s' ∧
      r.datagram = msg.datagram ∧ contents s' = rest ∧ s'.length ≤ s.length := by
  obtain ⟨d1, d0, atype, len, tail, hbytes, hn, hdat, hframe⟩ := frame_head h
  obtain ⟨h4, h259⟩ := addr_len_bounds h.addr
  unfold HevSocks5UDPMsg.Fits at hfits
  have hhdr : (UInt8.ofNat (3 + (hev_socks5_addr_len msg.addr).toNat)).toNat =
      3 + (hev_socks5_addr_len msg.addr).toNat := by
    rw [UInt8.toNat_ofNat']
    omega
  have hlen : bodyLen d1 d0 (UInt8.ofNat (3 + (hev_socks5_addr_len msg.addr).toNat)) =
      (tail ++ msg.buf).length := by
    rw [bodyLen, hhdr, hdat, List.length_append]
    omega
  rw [hframe, List.append_assoc] at hc
  rcases recvHead_spec nonblock hc rfl with ⟨hnb, s₁, hs, hcs, hls⟩ | ⟨s₁, hs, hcs, hls⟩
  · exact .inl ⟨hnb, s₁, recv_again hs, hcs, hls⟩
  · refine .inr ⟨_, _, recv_body hs (by omega) ?_ ?_, ?_, ?_, Nat.le_trans length_takeAll hls⟩
    · rw [sizeSub_eq (by omega) hbuf]
      omega
    · rw [hlen, hcs]
      exact (List.prefix_append _ _).length_le
    · rw [hlen, hcs, List.take_left' rfl, hhdr, Nat.add_sub_cancel_left, hdat]
      have hmem : fill buf (hev_socks5_addr_len msg.addr).toNat (tail ++ msg.buf) atype len =
          msg.addr.bytes (hev_socks5_addr_len msg.addr).toNat ++
            (msg.buf ++ buf.drop (2 + (tail ++ msg.buf).length)) := by
        rw [fill_eq (by omega) (by rw [List.length_append]; omega) (by omega), hbytes,
          List.append_assoc]
        rfl
      have hlen' : (msg.addr.bytes (hev_socks5_addr_len msg.addr).toNat).length =
          (hev_socks5_addr_len msg.addr).toNat := by
        rw [hbytes]
        simp only [List.length_cons]
        omega
      simp only [Received.datagram, hmem, ofMem_bytes rfl h4 h259]
      rw [List.drop_left' hlen', List.take_left' rfl]
      rfl
    · rw [contents_takeAll, hlen, hcs, List.drop_left' rfl]

theorem RoomFor.mono {ms : List HevSocks5UDPMsg} (h : RoomFor msgs buf)
    (hsub : ∀ msg, msg ∈ ms → msg ∈ msgs) : RoomFor ms buf :=
  ⟨h.1, fun msg hm => h.2 msg (hsub msg hm)⟩

/-- The part of a sequence of messages that one call returns. -/
structure Batch (msgs : List HevSocks5UDPMsg) (done : List Received) (r : RecvResult)
    (s s' : Arrivals UInt8) (j : Nat) : Prop where
  le : j ≤ msgs.length
  again : r.again = false
  ret : r.ret = r.msgs.length
  filled : r.msgs.map Received.datagram =
    done.map Received.datagram ++ (msgs.take j).map HevSocks5UDPMsg.datagram
  rest : contents s' = (msgs.drop j).flatMap frame
  length : s'.length ≤ s.length

theorem Batch.cons {r : RecvResult} {x : Received} {s₁ : Arrivals UInt8} {j : Nat}
    (hx : x.datagram = msg.datagram) (hl : s₁.length ≤ s.length)
    (h : Batch msgs (done ++ [x]) r s₁ s' j) : Batch (msg :: msgs) done r s s' (j + 1) := by
  refine ⟨Nat.succ_le_succ h.le, h.again, h.ret, ?_, h.rest, Nat.le_trans h.length hl⟩
  rw [h.filled, List.map_append, List.take_succ_cons, List.map_cons, List.append_assoc]
  exact congrArg (_ ++ · :: _) hx

/-- A call that stops with some messages done returns them. -/
theorem batch_stopped (hne : done ≠ []) {ret : Int} {again : Bool}
    (hc : contents s' = msgs.flatMap frame) (hl : s'.length ≤ s.length) :
    Batch msgs done (stopped done ret again) s s' 0 := by
  have hpos := List.length_pos_iff.mpr hne
  rw [stopped, if_pos hpos]
  exact ⟨Nat.zero_le _, rfl, rfl, (List.append_nil _).symm, hc, hl⟩

/-- A call returns a batch, or would have to wait for the first message, or finds the end. -/
theorem recv_batch (nonblock : Bool) (done : List Received) (hmsgs : ∀ msg ∈ msgs, msg.Sendable ∧ msg.Fits)
    (hroom : ∀ buf ∈ msgv, RoomFor msgs buf)
    (hc : contents s = msgs.flatMap frame) :
    ∃ r s', hev_socks5_udp_recvmmsg_tcp nonblock msgv done s = (r, s') ∧
      ((∃ j, Batch msgs done r s s' j ∧ (done = [] → msgv ≠ [] → 0 < j)) ∨
        done = [] ∧ r.again = true ∧ contents s' = contents s ∧ s'.length < s.length ∨
        done = [] ∧ r.again = false ∧ r.ret = 0 ∧ msgs = []) := by
  induction msgv generalizing done s msgs with
  | nil =>
    exact ⟨_, s, rfl, .inl ⟨0, ⟨Nat.zero_le _, rfl, rfl, (List.append_nil _).symm, hc, Nat.le_refl _⟩,
      fun _ h => (h rfl).elim⟩⟩
  | cons buf msgv ih =>
    cases msgs with
    | nil =>
      rcases recvHead_end nonblock hc with ⟨-, s₁, hs, hcs, hls⟩ | ⟨s₁, hs, hcs, hls⟩
      · refine ⟨_, s₁, recv_again hs, ?_⟩
        by_cases hd : done = []
        · subst hd
          exact .inr (.inl ⟨rfl, rfl, hcs, hls⟩)
        · exact .inl ⟨0, batch_stopped hd (hcs.trans hc) (Nat.le_of_lt hls), fun h => (hd h).elim⟩
      · refine ⟨_, s₁, recv_end hs, ?_⟩
        by_cases hd : done = []
        · subst hd
          exact .inr (.inr ⟨rfl, rfl, rfl, rfl⟩)
        · exact .inl ⟨0, batch_stopped hd hcs hls, fun h => (hd h).elim⟩
    | cons msg msgs =>
      obtain ⟨hsend, hfits⟩ := hmsgs msg List.mem_cons_self
      obtain ⟨hbuf, hfit⟩ := hroom buf List.mem_cons_self
      rw [List.flatMap_cons] at hc
      rcases recv_frame nonblock msgv done hsend hfits hbuf
        (hfit msg List.mem_cons_self) hc with
        ⟨-, s₁, hr, hcs, hls⟩ | ⟨x, s₁, hr, hx, hcs, hls⟩
      · refine ⟨_, s₁, hr, ?_⟩
        by_cases hd : done = []
        · subst hd
          exact .inr (.inl ⟨rfl, rfl, hcs, hls⟩)
        · refine .inl ⟨0, batch_stopped hd (hcs.trans hc) (Nat.le_of_lt hls), fun h => (hd h).elim⟩
      · obtain ⟨r, s', hrec, hout⟩ := ih (done ++ [x])
          (fun m hm => hmsgs m (List.mem_cons_of_mem _ hm))
          (fun b hb => (hroom b (List.mem_cons_of_mem _ hb)).mono fun _ => List.mem_cons_of_mem _)
          hcs
        refine ⟨r, s', hr.trans hrec, ?_⟩
        rcases hout with ⟨j, hb, -⟩ | ⟨hd, -⟩ | ⟨hd, -⟩
        · exact .inl ⟨j + 1, hb.cons hx hls, fun _ _ => Nat.succ_pos j⟩
        · exact (List.append_ne_nil_of_right_ne_nil done (List.cons_ne_nil x []) hd).elim
        · exact (List.append_ne_nil_of_right_ne_nil done (List.cons_ne_nil x []) hd).elim

/-- While every address fits, enough calls return every message and the end. -/
theorem receive_fits {calls : List RecvCall} (hmsgs : ∀ msg ∈ msgs, msg.Sendable ∧ msg.Fits)
    (hc : contents s = msgs.flatMap frame) (hcalls : ∀ c ∈ calls, c.Suits msgs)
    (hlen : s.length + msgs.length < calls.length) :
    receive calls s = (msgs.map HevSocks5UDPMsg.datagram, .ended) := by
  induction calls generalizing s msgs with
  | nil => cases hlen
  | cons c calls ih =>
    have hsuits := hcalls c List.mem_cons_self
    have hcalls := fun c hc => hcalls c (List.mem_cons_of_mem _ hc)
    rw [List.length_cons] at hlen
    obtain ⟨r, s', hr, hout⟩ :=
      recv_batch c.nonblock [] hmsgs hsuits.room hc
    rw [receive, hr]
    dsimp only
    rcases hout with ⟨j, hb, hpos⟩ | ⟨-, hag, hcs, hls⟩ | ⟨-, hag, hret, rfl⟩
    · have hj := hpos rfl hsuits.some
      have hle := hb.le
      have hlen' : r.msgs.length = j := by
        have h := congrArg List.length hb.filled
        simp only [List.length_map, List.length_append, List.length_nil, List.length_take] at h
        omega
      have hret := hb.ret
      have hls := hb.length
      have hrest := ih (fun m hm => hmsgs m (List.mem_of_mem_drop hm)) hb.rest
        (fun c hc => ⟨(hcalls c hc).some, fun b hb =>
          ((hcalls c hc).room b hb).mono fun _ => List.mem_of_mem_drop⟩)
        (by rw [List.length_drop]; omega)
      rw [hb.again, if_neg Bool.false_ne_true, if_neg (by omega), if_pos hret, hrest, hb.filled]
      simp only [List.map_nil, List.nil_append]
      rw [← List.map_append, List.take_append_drop]
    · rw [hag, if_pos rfl]
      exact ih hmsgs (hcs.trans hc) hcalls (by omega)
    · rw [hag, if_neg Bool.false_ne_true, if_pos hret]
      rfl

/-- A call that waits, with one memory that holds anything. -/
def single : RecvCall := { msgv := [List.replicate 70000 0], nonblock := false }

theorem single_room {d1 d0 hdrlen : UInt8} :
    be16 d1 d0 ≤ sizeSub (List.replicate 70000 (0 : UInt8)).length (hdrlen.toNat - 3) := by
  have h1 := d1.toNat_lt
  have h0 := d0.toNat_lt
  have hh := hdrlen.toNat_lt
  rw [List.length_replicate, sizeSub_eq (by omega) (by decide), be16]
  omega

theorem receive_one {r : Received} {n : Nat}
    (h : hev_socks5_udp_recvmmsg_tcp false [List.replicate 70000 0] [] s = (⟨1, false, [r]⟩, s')) :
    receive (List.replicate (n + 1) single) s =
      (r.datagram :: (receive (List.replicate n single) s').1,
        (receive (List.replicate n single) s').2) := by
  rw [List.replicate_succ, receive, single, h]
  rfl

theorem receive_failed {ret : Int} {n : Nat} (hret : ret ≠ 0)
    (h : (hev_socks5_udp_recvmmsg_tcp false [List.replicate 70000 0] [] s).1 = ⟨ret, false, []⟩) :
    receive (List.replicate (n + 1) single) s = ([], .failed) := by
  rw [List.replicate_succ, receive, single]
  dsimp only
  rw [h]
  dsimp only
  rw [if_neg Bool.false_ne_true, if_neg hret, if_neg]
  exact hret

/-- Bytes that are left do not end the stream. -/
theorem not_ended_of_rest (n : Nat) (h : 6 ≤ (contents s).length) :
    receive (List.replicate n single) s ≠ ([], .ended) := by
  intro hend
  cases n with
  | zero => cases hend
  | succ n =>
    have hsplit : contents s = (contents s).take 5 ++ (contents s).drop 5 :=
      (List.take_append_drop _ _).symm
    obtain ⟨d1, d0, hdrlen, atype, len, hhead⟩ : ∃ d1 d0 hdrlen atype len,
        (contents s).take 5 = [d1, d0, hdrlen, atype, len] := by
      match contents s, h with
      | d1 :: d0 :: hdrlen :: atype :: len :: _, _ => exact ⟨d1, d0, hdrlen, atype, len, rfl⟩
    have hrest : ((contents s).drop 5).length = (contents s).length - 5 := List.length_drop
    rw [hhead] at hsplit
    rcases recvHead_spec false hsplit rfl with ⟨hnb, -⟩ | ⟨s₁, hs, hcs, -⟩
    · cases hnb
    · by_cases hlt : hdrlen.toNat < 5
      · rw [receive_failed (show (-1 : Int) ≠ 0 by decide) (congrArg Prod.fst (recv_badHead hs hlt))] at hend
        cases hend
      · by_cases hall : bodyLen d1 d0 hdrlen ≤ (contents s₁).length
        · rw [receive_one (recv_body hs (by omega) single_room hall)] at hend
          cases hend
        · rw [receive_failed (by rw [hcs, hrest]; omega)
            (congrArg Prod.fst (recv_short hs (by omega) single_room (by omega)))] at hend
          cases hend

/-- A frame whose header length wraps is not read, or leaves a part of itself on the stream. -/
theorem not_receive_wrapped (n : Nat) (h : msg.Sendable) (hfits : ¬ msg.Fits)
    (hc : contents s = frame msg) :
    receive (List.replicate n single) s ≠ ([msg.datagram], .ended) := by
  intro hend
  obtain ⟨d1, d0, atype, len, tail, hbytes, hn, hdat, hframe⟩ := frame_head h
  obtain ⟨h4, h259⟩ := addr_len_bounds h.addr
  unfold HevSocks5UDPMsg.Fits at hfits
  have hhdr : (UInt8.ofNat (3 + (hev_socks5_addr_len msg.addr).toNat)).toNat =
      (hev_socks5_addr_len msg.addr).toNat - 253 := by
    rw [UInt8.toNat_ofNat']
    omega
  rw [hframe] at hc
  cases n with
  | zero => cases hend
  | succ n =>
    rcases recvHead_spec false hc rfl with ⟨hnb, -⟩ | ⟨s₁, hs, hcs, -⟩
    · cases hnb
    · by_cases hlt : (UInt8.ofNat (3 + (hev_socks5_addr_len msg.addr).toNat)).toNat < 5
      · rw [receive_failed (show (-1 : Int) ≠ 0 by decide) (congrArg Prod.fst (recv_badHead hs hlt))] at hend
        cases hend
      · have hlen : (contents s₁).length =
            bodyLen d1 d0 (UInt8.ofNat (3 + (hev_socks5_addr_len msg.addr).toNat)) + 256 := by
          rw [hcs, List.length_append, bodyLen, hdat]
          omega
        rw [receive_one (recv_body hs (by omega) single_room (by omega))] at hend
        obtain ⟨hmsgs, hended⟩ := Prod.mk.inj hend
        refine not_ended_of_rest n ?_ (Prod.ext (List.cons.inj hmsgs).2 hended)
        rw [contents_takeAll, List.length_drop]
        omega

/-- Frames whose addresses fit are read before whatever comes behind them. -/
theorem receive_before (hmsgs : ∀ msg ∈ msgs, msg.Sendable ∧ msg.Fits) (n : Nat)
    (hc : contents s = msgs.flatMap frame ++ rest) :
    ∃ s', contents s' = rest ∧ receive (List.replicate (msgs.length + n) single) s =
      (msgs.map HevSocks5UDPMsg.datagram ++ (receive (List.replicate n single) s').1,
        (receive (List.replicate n single) s').2) := by
  induction msgs generalizing s with
  | nil => exact ⟨s, hc, by rw [List.length_nil, Nat.zero_add]; rfl⟩
  | cons msg msgs ih =>
    obtain ⟨hsend, hfits⟩ := hmsgs msg List.mem_cons_self
    obtain ⟨-, h259⟩ := addr_len_bounds hsend.addr
    have hle := hsend.len
    rw [List.flatMap_cons, List.append_assoc] at hc
    have hbuf : (List.replicate 70000 (0 : UInt8)).length < 2 ^ 64 := by
      rw [List.length_replicate]
      decide
    rcases recv_frame false [] [] hsend hfits hbuf (by rw [List.length_replicate]; omega) hc with
      ⟨hnb, -⟩ | ⟨r, s₁, hr, hx, hcs, -⟩
    · cases hnb
    · obtain ⟨s', hs', hrec⟩ := ih (fun m hm => hmsgs m (List.mem_cons_of_mem _ hm)) hcs
      refine ⟨s', hs', ?_⟩
      rw [List.length_cons, Nat.add_right_comm, receive_one hr, hrec, hx]
      rfl

/-- The messages up to the first whose address does not fit do not come back. -/
theorem not_roundTrips {good : List HevSocks5UDPMsg} (hgood : ∀ m ∈ good, m.Sendable ∧ m.Fits)
    (h : msg.Sendable) (hfits : ¬ msg.Fits) : ¬ RoundTrips (good ++ [msg]) := by
  intro hrt
  have hall : ∀ m ∈ good ++ [msg], m.Sendable := by
    intro m hm
    rcases List.mem_append.mp hm with hm | hm
    · exact (hgood m hm).1
    · rw [List.mem_singleton.mp hm]
      exact h
  have hsend := send_eq hall (by simp)
  have hc : contents [some ((good ++ [msg]).flatMap frame)] = good.flatMap frame ++ frame msg := by
    simp [contents]
  obtain ⟨s', hs', hrec⟩ := receive_before hgood 3 hc
  have hsuits : ∀ c ∈ List.replicate (good.length + 3) single, c.Suits (good ++ [msg]) := by
    intro c hc
    rw [List.eq_of_mem_replicate hc]
    refine ⟨List.cons_ne_nil _ _, fun buf hbuf => ?_⟩
    rw [List.mem_singleton.mp hbuf]
    refine ⟨by rw [List.length_replicate]; decide, fun m hm => ?_⟩
    obtain ⟨-, h259⟩ := addr_len_bounds (hall m hm).addr
    have hle := (hall m hm).len
    rw [List.length_replicate]
    omega
  have hlen : [some ((good ++ [msg]).flatMap frame)].length + (good ++ [msg]).length <
      (List.replicate (good.length + 3) single).length := by
    rw [List.length_replicate, List.length_append, List.length_singleton, List.length_singleton]
    omega
  have hout := hrt _ _ _ hsend (List.append_nil _) hsuits hlen
  rw [hrec, List.map_append] at hout
  obtain ⟨hmsgs, hended⟩ := Prod.mk.inj hout
  exact not_receive_wrapped 3 h hfits hs' (Prod.ext (List.append_cancel_left hmsgs) hended)

/-- The messages before the first whose address does not fit. -/
theorem exists_first_unfit (h : ∃ msg ∈ msgs, ¬ msg.Fits) :
    ∃ good msg tail, msgs = good ++ msg :: tail ∧ (∀ m ∈ good, m.Fits) ∧
      ¬ HevSocks5UDPMsg.Fits msg := by
  induction msgs with
  | nil =>
    obtain ⟨m, hm, -⟩ := h
    cases hm
  | cons msg msgs ih =>
    by_cases hfit : msg.Fits
    · obtain ⟨m, hm, hbad⟩ := h
      have hm : m ∈ msgs := by
        rcases List.mem_cons.mp hm with rfl | hm
        · exact (hbad hfit).elim
        · exact hm
      obtain ⟨good, bad, tail, rfl, hgood, hbad⟩ := ih ⟨m, hm, hbad⟩
      refine ⟨msg :: good, bad, tail, rfl, fun x hx => ?_, hbad⟩
      rcases List.mem_cons.mp hx with rfl | hx
      · exact hfit
      · exact hgood x hx
    · exact ⟨[], msg, msgs, rfl, nofun, hfit⟩

/-- The messages of a sequence come back, each once it is sent, if and only if no name is longer than
248 bytes. -/
theorem udp_stream_roundTrips (h : ∀ msg ∈ msgs, msg.Sendable) :
    (∀ k, RoundTrips (msgs.take k)) ↔ ∀ msg ∈ msgs, msg.Fits := by
  constructor
  · intro hrt m hm
    by_cases hfit : m.Fits
    · exact hfit
    · obtain ⟨good, bad, tail, rfl, hgood, hbad⟩ := exists_first_unfit ⟨m, hm, hfit⟩
      have hfirst := hrt (good.length + 1)
      rw [List.take_length_add_append] at hfirst
      exact (not_roundTrips (fun x hx => ⟨h x (List.mem_append_left _ hx), hgood x hx⟩)
        (h bad (List.mem_append_right _ List.mem_cons_self)) hbad hfirst).elim
  · intro hfits k stream s calls hsend hc hcalls hlen
    have hmsgs : ∀ msg ∈ msgs.take k, msg.Sendable ∧ msg.Fits := fun m hm =>
      ⟨h m (List.mem_of_mem_take hm), hfits m (List.mem_of_mem_take hm)⟩
    refine receive_fits hmsgs ?_ hcalls hlen
    by_cases hne : msgs.take k = []
    · rw [hne] at hsend
      cases hsend
    · rw [send_eq (fun m hm => (hmsgs m hm).1) hne] at hsend
      rw [hc, Option.some_inj.mp hsend]

/-- The byte 1 for port 53 of a name of `n` times the letter `a`. -/
def toLetters (n : Nat) (h : n ≤ 256) : HevSocks5UDPMsg where
  addr := ⟨0x03, UInt8.ofNat n :: List.replicate n 97 ++ [0, 53] ++ List.replicate (256 - n) 0, by
    simp only [List.length_append, List.length_cons, List.length_replicate, List.length_nil]
    omega⟩
  buf := [1]

/-- Messages to names of three, 248 and five bytes. -/
def threeNames : List HevSocks5UDPMsg :=
  [toLetters 3 (by decide), toLetters 248 (by decide), toLetters 5 (by decide)]

theorem udp_stream_roundTrips_three : RoundTrips threeNames := by
  have hall : ∀ k, RoundTrips (threeNames.take k) := by
    refine (udp_stream_roundTrips ?_).mpr ?_
    · intro msg hm
      simp only [threeNames, List.mem_cons, List.not_mem_nil, or_false] at hm
      rcases hm with rfl | rfl | rfl <;> exact ⟨by decide, by decide⟩
    · intro msg hm
      unfold HevSocks5UDPMsg.Fits
      simp only [threeNames, List.mem_cons, List.not_mem_nil, or_false] at hm
      rcases hm with rfl | rfl | rfl <;> decide
  exact hall 3

/-- The header of a message to a name of 249 bytes has the length 0, and the receiver gives up. -/
theorem udp_stream_name_249 :
    (toLetters 249 (by decide)).Sendable ∧ (frame (toLetters 249 (by decide))).take 4 = [0, 1, 0, 3] ∧
    ¬ RoundTrips [toLetters 249 (by decide)] := by
  have hsend : (toLetters 249 (by decide)).Sendable := ⟨by decide, by decide⟩
  have hrt : ¬ RoundTrips ([] ++ [toLetters 249 (by decide)]) :=
    not_roundTrips nofun hsend (by unfold HevSocks5UDPMsg.Fits; decide)
  exact ⟨hsend, by decide, hrt⟩

end XTunnel.Socks5
