import XTunnel.Lwip.Pbuf
import XTunnel.Transition

/-! The upload of a TCP session: `tcp_recv_handler` queues what lwIP receives, `tcp_splice_f` writes it to
the SOCKS5 socket and opens the receive window again. -/
namespace XTunnel.TcpUplink

open Code Net Lwip

abbrev TCP_MSS : Nat := 8191

abbrev TCP_WND : Nat := 8 * TCP_MSS

/-- The receiving part of a connection of lwIP; refused data keeps whether a FIN came behind it. -/
structure TcpPcb where
  rcv_wnd : Nat
  refused_data : Option (Nat × Bool)

/-- Where the task of the session stands. Behind its write `tcp_splice_f` waits for the lock, with the
number of bytes that were written. -/
inductive Pc
  | opening
  | looping
  | locking (s : Nat)
  | left
  | destructed
deriving DecidableEq

/-- `received`, `written`, `shut` and `buffers` are histories: what lwIP received in sequence, what the
socket took, whether its sending side was shut down, and how many buffers lwIP handed over. `freed` tells
that the connection behind `pcb` is freed memory. -/
structure HevSocks5SessionTCP where
  mem : Pbufs
  queue : Option Nat
  pcb : Option TcpPcb
  pcb_eof : Bool
  pc : Pc
  res_f : Int
  received : Text
  written : Text
  shut : Bool
  buffers : Nat
  freed : Bool

abbrev M := Code HevSocks5SessionTCP

def get : M HevSocks5SessionTCP := fun s => some (s, s)

def modify (f : HevSocks5SessionTCP → HevSocks5SessionTCP) : M Unit := fun s => some ((), f s)

def onPbufs {α : Type} (x : Lwip.M α) : M α := x.on HevSocks5SessionTCP.mem fun s mem => { s with mem := mem }

/-- Reading a connection that is `NULL` or freed is a fault. -/
def getPcb : M TcpPcb := fun s => if s.freed then none else s.pcb.map (·, s)

def setPcb (pcb : TcpPcb) : M Unit := modify fun s => { s with pcb := some pcb }

inductive Err
  | ok
  | wouldblock
deriving DecidableEq

def tcp_recv_handler (fuel : Nat) (p : Option Nat) : M Err := do
  match p with
  | some p =>
    let s ← get
    match s.queue with
    | none => modify fun s => { s with queue := some p }
    | some queue =>
      let head ← onPbufs (load queue)
      if TCP_WND < head.tot_len then return .wouldblock
      onPbufs (pbuf_cat fuel queue p)
  | none => modify fun s => { s with pcb_eof := true }
  return .ok

/-- The FIN's sequence number goes back to the window, and the handler learns of it. -/
def tcpEventClosed (fuel : Nat) (pcb : TcpPcb) : M Unit := do
  if pcb.rcv_wnd ≠ TCP_WND then setPcb { pcb with rcv_wnd := u16 (pcb.rcv_wnd + 1) }
  let _ ← tcp_recv_handler fuel none

/-- `tcp_input` behind `tcp_receive`, which took `tcplen` sequence numbers into the window. -/
def tcp_input (fuel : Nat) (recv_data : Option Nat) (got_fin : Bool) (tcplen : Nat) : M Unit := do
  let pcb ← getPcb
  setPcb { pcb with rcv_wnd := u16Sub pcb.rcv_wnd tcplen }
  if recv_data.isSome then
    let err ← tcp_recv_handler fuel recv_data
    if err ≠ .ok then
      let pcb ← getPcb
      setPcb { pcb with refused_data := recv_data.map (·, false) }
  if got_fin then
    let pcb ← getPcb
    match pcb.refused_data with
    | some (p, _) => setPcb { pcb with refused_data := some (p, true) }
    | none => tcpEventClosed fuel pcb

def tcp_process_refused_data (fuel : Nat) : M Unit := do
  let pcb ← getPcb
  match pcb.refused_data with
  | none => return ()
  | some (refused_data, fin) =>
    setPcb { pcb with refused_data := none }
    let err ← tcp_recv_handler fuel (some refused_data)
    let pcb ← getPcb
    if err = .ok then
      if fin then tcpEventClosed fuel pcb
    else setPcb { pcb with refused_data := some (refused_data, fin) }

def tcp_recved (len : Nat) : M Unit := do
  let pcb ← getPcb
  let rcv_wnd := u16 (pcb.rcv_wnd + len)
  if TCP_WND < rcv_wnd ∨ rcv_wnd < pcb.rcv_wnd then setPcb { pcb with rcv_wnd := TCP_WND }
  else setPcb { pcb with rcv_wnd := rcv_wnd }

/-- The part of `tcp_pcb_purge` with the data that was refused. -/
def tcp_pcb_purge (fuel : Nat) : M Unit := do
  let pcb ← getPcb
  match pcb.refused_data with
  | none => return ()
  | some (refused_data, _) =>
    let _ ← onPbufs (pbuf_free fuel refused_data)
    setPcb { pcb with refused_data := none }

/-- The part of `tcp_slowtmr` with a connection that was in `TIME_WAIT` for long enough; `tcp_err_handler`
is not called. `tcp_kill_timewait` frees one in the same way when there is no memory for a new one. -/
def tcp_slowtmr (fuel : Nat) : M Unit := do
  tcp_pcb_purge fuel
  modify fun s => { s with freed := true }

def tcp_err_handler : M Unit := modify fun s => { s with pcb := none }

/-- What `writev` yields: a number of bytes, `EAGAIN`, or zero or another error. -/
inductive Writev
  | accepted (s : Nat)
  | again
  | failed
deriving DecidableEq

/-- `tcp_splice_f` up to its wait for the lock. -/
def tcp_splice_f (w : Writev) : M Unit := do
  let s ← get
  match s.queue with
  | some _ =>
    let iov ← onPbufs (payloads 64 s.queue)
    match w with
    | .accepted n =>
      modify fun s => { s with written := s.written ++ iov.flatten.take n, pc := .locking n }
    | .again => modify fun s => { s with res_f := 0 }
    | .failed => modify fun s => { s with res_f := -1 }
  | none =>
    if s.pcb_eof then modify fun s => { s with res_f := -1, shut := true }
    else modify fun s => { s with res_f := 0 }

/-- `tcp_splice_f` with the lock. -/
def finishWrite (fuel n : Nat) : M Unit := do
  let s ← get
  let queue ← onPbufs (pbuf_free_header fuel s.queue n)
  modify fun s => { s with queue := queue }
  let s ← get
  if s.pcb.isSome then tcp_recved (u16 n)
  modify fun s => { s with res_f := 1, pc := .looping }

/-- The part of `hev_socks5_session_tcp_destruct` with the lock. -/
def hev_socks5_session_tcp_destruct (fuel : Nat) : M Unit := do
  let s ← get
  if s.pcb.isSome then tcp_pcb_purge fuel
  match s.queue with
  | none => modify fun s => { s with pcb := none, pc := .destructed }
  | some queue =>
    let _ ← onPbufs (pbuf_free fuel queue)
    modify fun s => { s with pcb := none, queue := none, pc := .destructed }

/-- What happens to a session: lwIP has a segment with data or a FIN, or tries refused data again, or loses
the connection, or frees it behind its `TIME_WAIT`; the task starts or leaves the splice loop, makes the
two parts of a forward, or ends. -/
inductive Action
  | segment (l : Chain) (fin : Bool)
  | retry
  | err
  | expire
  | start
  | splice (w : Writev)
  | finish
  | leave
  | destruct

/-- A chain in memory that the session does not know yet. -/
def alloc (h : Pbufs) : Chain → Pbufs
  | [] => h
  | (p, xs) :: l => Function.update (alloc h l) p (some ⟨Chain.first l, xs, (Chain.bytes ((p, xs) :: l)).length, 1⟩)

/-- The sequence numbers of a segment. -/
def tcplen (l : Chain) (fin : Bool) : Nat := (Chain.bytes l).length + fin.toNat

/-- An action, with loops of at most `fuel` steps. -/
def exec (fuel : Nat) : Action → M Unit
  | .segment l fin => do
    modify fun s => { s with
      mem := alloc s.mem l
      received := s.received ++ Chain.bytes l
      buffers := s.buffers + l.length }
    tcp_input fuel (Chain.first l) fin (tcplen l fin)
  | .retry => tcp_process_refused_data fuel
  | .err => do
    tcp_pcb_purge fuel
    tcp_err_handler
  | .expire => tcp_slowtmr fuel
  | .start => modify fun s => { s with pc := if s.pcb.isSome then .looping else .left }
  | .splice w => tcp_splice_f w
  | .finish => do
    let s ← get
    match s.pc with
    | .locking n => finishWrite fuel n
    | _ => fault
  | .leave => modify fun s => { s with pc := .left }
  | .destruct => hev_socks5_session_tcp_destruct fuel

/-- When an action can happen. lwIP takes a segment into its window only, in buffers of its own; it drops
those with data while it keeps refused data. A connection in `TIME_WAIT` has had its FIN. The socket takes
some of the bytes that it is offered. -/
def Allowed (s : HevSocks5SessionTCP) : Action → Prop
  | .segment l fin => s.freed = false ∧ ∃ pcb, s.pcb = some pcb ∧ pcb.refused_data = none ∧
      tcplen l fin ≤ pcb.rcv_wnd ∧ (Chain.ptrs l).Nodup ∧ (∀ p ∈ Chain.ptrs l, s.mem p = none) ∧ (l ≠ [] → Chain.bytes l ≠ [])
  | .retry | .err => s.freed = false ∧ s.pcb.isSome
  | .expire => s.freed = false ∧ s.pcb.isSome ∧ s.pcb_eof = true
  | .start => s.pc = .opening
  | .splice (.accepted n) => s.pc = .looping ∧ 0 ≤ s.res_f ∧
      ∀ iov h, payloads 64 s.queue s.mem = some (iov, h) → iov ≠ [] → 0 < n ∧ n ≤ iov.flatten.length
  | .splice _ => s.pc = .looping ∧ 0 ≤ s.res_f
  | .finish => ∃ n, s.pc = .locking n
  | .leave => s.pc = .looping ∨ s.pc = .opening
  | .destruct => s.pc = .left

/-- No loop goes over more buffers than there were. -/
def perform (a : Action) : M Unit := fun s => exec (s.buffers + 2) a s

def Step (s : HevSocks5SessionTCP) (a : Action) (t : HevSocks5SessionTCP) : Prop :=
  Allowed s a ∧ perform a s = some ((), t)

/-- A session before it has received anything. -/
def Initial (s : HevSocks5SessionTCP) : Prop :=
  s = ⟨fun _ => none, none, some ⟨TCP_WND, none⟩, false, .opening, 1, [], [], false, 0, false⟩

/-- The session is not there any more when the `TIME_WAIT` of its connection ends. -/
def InTime (_ : HevSocks5SessionTCP) (a : Action) : Prop := a ≠ .expire

def ReachableInTime : HevSocks5SessionTCP → Prop := Reachable Initial (Guarded Step InTime)

/-- The bytes at the front of the queue that the socket has and that are still in the queue. -/
def Pc.inFlight : Pc → Nat
  | .locking s => s
  | _ => 0

/-- The queue is the chain `l`. The socket has what was received but for the rest of the queue, in order;
the window of the peer is what the queue leaves free. -/
structure Relayed (s : HevSocks5SessionTCP) (l : Chain) : Prop where
  owns : Chain.Owns s.mem l
  queue : s.queue = Chain.first l
  written : s.written <+: s.received
  rest : s.pc ≠ .destructed → s.written ++ (Chain.bytes l).drop s.pc.inFlight = s.received
  flight : s.pc.inFlight ≤ (Chain.bytes l).length
  short : (Chain.bytes l).length ≤ TCP_WND
  counted : l.length ≤ s.buffers
  window : ∀ pcb, s.pcb = some pcb →
    pcb.refused_data = none ∧ pcb.rcv_wnd + (Chain.bytes l).length = TCP_WND
  locked : ∀ n, s.pc = .locking n → s.shut = false
  ended : s.shut = true → s.res_f < 0
  destructed : s.pc = .destructed → l = [] ∧ s.pcb = none
  valid : s.freed = false

variable {s t : HevSocks5SessionTCP} {l k : Chain} {α : Type} {R : α → HevSocks5SessionTCP → Prop}
  {fuel n : Nat} {pcb : TcpPcb} {fin : Bool} {a : Action}

theorem wnd_lt : TCP_WND < 2 ^ 16 := by decide

theorem get_bind {f : HevSocks5SessionTCP → M α} (hf : (f s).Ensures s R) : (get >>= f).Ensures s R :=
  Ensures.bind ⟨s, s, rfl, hf⟩

theorem getPcb_bind {f : TcpPcb → M α} (hv : s.freed = false) (hp : s.pcb = some pcb)
    (hf : (f pcb).Ensures s R) : (getPcb >>= f).Ensures s R := by
  refine Ensures.bind ⟨pcb, s, ?_, hf⟩
  rw [getPcb, hv, hp]
  rfl

theorem modify_bind {g : HevSocks5SessionTCP → HevSocks5SessionTCP} {f : Unit → M α}
    (hf : (f ()).Ensures (g s) R) : (modify g >>= f).Ensures s R :=
  Ensures.bind ⟨(), g s, rfl, hf⟩

theorem ensures_modify {g : HevSocks5SessionTCP → HevSocks5SessionTCP}
    {R : Unit → HevSocks5SessionTCP → Prop} (hR : R () (g s)) : (modify g).Ensures s R :=
  ⟨(), g s, rfl, hR⟩

theorem onPbufs_bind {β : Type} {x : Lwip.M β} {f : β → M α} {P : β → Pbufs → Prop}
    (hx : x.Ensures s.mem P) (hf : ∀ b h, P b h → (f b).Ensures { s with mem := h } R) :
    (onPbufs x >>= f).Ensures s R :=
  Ensures.bind (hx.on fun b h hP => hf b h hP)

/-- With room in the window, the handler takes a chain behind its queue. -/
theorem ensures_tcp_recv_handler {p : Nat} (ha : Apart s.mem l k) (hq : s.queue = Chain.first l)
    (hp : Chain.first k = some p) (hlen : (Chain.bytes l).length ≤ TCP_WND) (hfuel : l.length ≤ fuel) :
    (tcp_recv_handler fuel (some p)).Ensures s fun err t => err = .ok ∧ ∃ h,
      Chain.Owns h (l ++ k) ∧ t = { s with mem := h, queue := Chain.first (l ++ k) } := by
  refine get_bind ?_
  rw [hq]
  cases l with
  | nil =>
    refine modify_bind (ensures_pure ⟨rfl, s.mem, ⟨ha.right, ha.only, ha.nodup, ha.short⟩, ?_⟩)
    rw [List.nil_append, hp]
  | cons c l =>
    obtain ⟨q, xs⟩ := c
    refine onPbufs_bind (P := fun b h => h = s.mem ∧ b.tot_len = (Chain.bytes ((q, xs) :: l)).length)
      (ensures_load ha.left.1 ⟨rfl, rfl⟩) fun b h hb => ?_
    obtain ⟨rfl, hb⟩ := hb
    rw [hb, if_neg (Nat.not_lt.mpr hlen)]
    refine onPbufs_bind (ensures_cat ha rfl hp hfuel) fun _ h hown => ensures_pure ⟨rfl, h, hown, ?_⟩
    have hfirst : Chain.first ((q, xs) :: l ++ k) = s.queue := hq.symm
    rw [hfirst]

/-- The end of the input is remembered, and the FIN leaves the window as it was before it. -/
theorem ensures_tcpEventClosed (hwnd : pcb.rcv_wnd < TCP_WND) :
    (tcpEventClosed fuel pcb).Ensures s fun _ t =>
      t = { s with pcb := some { pcb with rcv_wnd := pcb.rcv_wnd + 1 }, pcb_eof := true } := by
  have hu : u16 (pcb.rcv_wnd + 1) = pcb.rcv_wnd + 1 := by
    rw [u16]
    have := wnd_lt
    omega
  rw [tcpEventClosed, if_pos (Nat.ne_of_lt hwnd), hu]
  exact modify_bind (modify_bind (pure_bind (ensures_pure (by rfl))))

theorem alloc_of_not_mem {h : Pbufs} {p : Nat} (hp : p ∉ Chain.ptrs k) : alloc h k p = h p := by
  induction k with
  | nil => rfl
  | cons c k ih =>
    obtain ⟨q, xs⟩ := c
    rw [ptrs_cons, List.mem_cons, not_or] at hp
    rw [alloc, Function.update_of_ne hp.1, ih hp.2]

theorem in_alloc {h : Pbufs} (hn : (Chain.ptrs k).Nodup) : Chain.In (alloc h k) k := by
  induction k with
  | nil => trivial
  | cons c k ih =>
    obtain ⟨q, xs⟩ := c
    rw [ptrs_cons, List.nodup_cons] at hn
    exact ⟨Function.update_self _ _ _, (ih hn.2).update hn.1⟩

theorem allocated {h : Pbufs} {p : Nat} (hin : Chain.In h l) (hp : p ∈ Chain.ptrs l) : (h p).isSome := by
  induction l with
  | nil => cases hp
  | cons c l ih =>
    obtain ⟨q, xs⟩ := c
    rcases List.mem_cons.mp hp with rfl | hp
    · rw [hin.1]
      rfl
    · exact ih hin.2 hp

/-- A new chain is apart from the queue. -/
theorem apart_alloc {h : Pbufs} (ho : Chain.Owns h l) (hn : (Chain.ptrs k).Nodup)
    (hfresh : ∀ p ∈ Chain.ptrs k, h p = none) (hlen : (Chain.bytes (l ++ k)).length < 2 ^ 16) :
    Apart (alloc h k) l k := by
  have hdisj : ∀ p ∈ Chain.ptrs l, p ∉ Chain.ptrs k := by
    intro p hp hk
    have hsome := allocated ho.inside hp
    rw [hfresh p hk] at hsome
    cases hsome
  refine ⟨ho.inside.congr fun p hp => alloc_of_not_mem (hdisj p hp), in_alloc hn, fun p hp => ?_, ?_, hlen⟩
  · rw [ptrs_append, List.mem_append, not_or] at hp
    rw [alloc_of_not_mem hp.2, ho.only p hp.1]
  · rw [ptrs_append, List.nodup_append]
    exact ⟨ho.nodup, hn, fun p hp q hq he => hdisj p hp (he ▸ hq)⟩

/-- What a segment leaves: its data is behind the queue and out of the window, its FIN is known. -/
theorem ensures_segment (hr : Relayed s l) (hp : s.pcb = some pcb) (hwnd : tcplen k fin ≤ pcb.rcv_wnd)
    (hn : (Chain.ptrs k).Nodup) (hfresh : ∀ p ∈ Chain.ptrs k, s.mem p = none) (hfuel : l.length ≤ fuel) :
    (exec fuel (.segment k fin)).Ensures s fun _ t => ∃ h, Chain.Owns h (l ++ k) ∧
      t = { s with
        mem := h
        queue := Chain.first (l ++ k)
        received := s.received ++ Chain.bytes k
        buffers := s.buffers + k.length
        pcb := some { pcb with rcv_wnd := pcb.rcv_wnd - (Chain.bytes k).length }
        pcb_eof := s.pcb_eof || fin } := by
  obtain ⟨href, hsum⟩ := hr.window pcb hp
  have hlen : (Chain.bytes k).length + fin.toNat ≤ pcb.rcv_wnd := hwnd
  have hwl := wnd_lt
  have hsub : u16Sub pcb.rcv_wnd (tcplen k fin) = pcb.rcv_wnd - (Chain.bytes k).length - fin.toNat := by
    rw [u16Sub, tcplen]
    omega
  have hap := apart_alloc hr.owns hn hfresh (by rw [bytes_append, List.length_append]; omega)
  refine modify_bind (getPcb_bind hr.valid hp (modify_bind ?_))
  rw [hsub]
  have hclosed : ∀ h, Chain.Owns h (l ++ k) →
      ((do
        if fin then
          let pcb ← getPcb
          match pcb.refused_data with
          | some (p, _) => setPcb { pcb with refused_data := some (p, true) }
          | none => tcpEventClosed fuel pcb) : M Unit).Ensures { s with
        mem := h
        queue := Chain.first (l ++ k)
        received := s.received ++ Chain.bytes k
        buffers := s.buffers + k.length
        pcb := some { pcb with rcv_wnd := pcb.rcv_wnd - (Chain.bytes k).length - fin.toNat } } fun _ t =>
        ∃ h, Chain.Owns h (l ++ k) ∧ t = { s with
          mem := h
          queue := Chain.first (l ++ k)
          received := s.received ++ Chain.bytes k
          buffers := s.buffers + k.length
          pcb := some { pcb with rcv_wnd := pcb.rcv_wnd - (Chain.bytes k).length }
          pcb_eof := s.pcb_eof || fin } := by
    intro h ho
    cases fin with
    | false => exact ensures_pure ⟨h, ho, by simp⟩
    | true =>
      refine getPcb_bind hr.valid rfl ?_
      simp only [href]
      refine (ensures_tcpEventClosed ?_).mono fun _ t ht => ⟨h, ho, ?_⟩
      · simp only [Bool.toNat_true] at hlen ⊢
        omega
      · rw [ht]
        simp only [Bool.toNat_true, Bool.or_true] at hlen ⊢
        congr
        omega
  cases k with
  | nil =>
    refine pure_bind ?_
    have hmem := hclosed s.mem (by rw [List.append_nil]; exact hr.owns)
    rw [List.append_nil, ← hr.queue] at hmem
    rw [List.append_nil, ← hr.queue]
    exact hmem
  | cons c k =>
    obtain ⟨p, xs⟩ := c
    refine Ensures.seq (ensures_tcp_recv_handler (p := p) hap hr.queue rfl hr.short hfuel) ?_
    rintro err t ⟨rfl, h, ho, rfl⟩
    exact hclosed h ho

/-- What the first buffers hold begins what the chain holds. -/
theorem flatten_take (l : Chain) (n : Nat) : ((l.take n).map Prod.snd).flatten <+: Chain.bytes l := by
  refine ⟨Chain.bytes (l.drop n), ?_⟩
  rw [← List.flatMap_def, Chain.bytes, Chain.bytes, ← List.flatMap_append, List.take_append_drop]

theorem ensures_perform {R : Unit → HevSocks5SessionTCP → Prop} (h : (exec (s.buffers + 2) a).Ensures s R) :
    (perform a).Ensures s R := by
  unfold Code.Ensures perform
  exact h

/-- No loop over the queue runs out of its steps. -/
theorem Relayed.fuel_lt (hr : Relayed s l) : l.length + 1 < s.buffers + 2 := by
  have := hr.counted
  omega

theorem relayed_segment (hr : Relayed s l) (ha : Allowed s (.segment k fin)) :
    (perform (.segment k fin)).Ensures s fun _ t => Relayed t (l ++ k) := by
  obtain ⟨-, pcb, hp, href, hwnd, hn, hfresh, -⟩ := ha
  have hseg := ensures_segment hr hp hwnd hn hfresh (Nat.le_of_lt (Nat.lt_of_succ_lt hr.fuel_lt))
  refine ensures_perform (hseg.mono ?_)
  rintro - t ⟨h, ho, rfl⟩
  have hsum := (hr.window pcb hp).2
  have hlen : (Chain.bytes k).length + fin.toNat ≤ pcb.rcv_wnd := hwnd
  refine ⟨ho, rfl, hr.written.trans (List.prefix_append _ _), fun hd => ?_, ?_, ?_, ?_, ?_, hr.locked,
    hr.ended, fun hd => ?_, hr.valid⟩
  · rw [← hr.rest hd, bytes_append, List.drop_append_of_le_length hr.flight, List.append_assoc]
  · rw [bytes_append, List.length_append]
    exact Nat.le_add_right_of_le hr.flight
  · rw [bytes_append, List.length_append]
    omega
  · rw [List.length_append]
    exact Nat.add_le_add_right hr.counted _
  · intro pcb' hp'
    cases hp'
    refine ⟨href, ?_⟩
    show pcb.rcv_wnd - (Chain.bytes k).length + (Chain.bytes (l ++ k)).length = TCP_WND
    rw [bytes_append, List.length_append]
    omega
  · rw [(hr.destructed hd).2] at hp
    cases hp

theorem relayed_retry (hr : Relayed s l) (hp : s.pcb = some pcb) :
    (perform .retry).Ensures s fun _ t => t = s := by
  refine ensures_perform (getPcb_bind hr.valid hp ?_)
  rw [(hr.window pcb hp).1]
  exact ensures_pure rfl

/-- Nothing was refused, so nothing is to be freed. -/
theorem purge_bind {f : Unit → M α} (hr : Relayed s l) (hp : s.pcb = some pcb) (hf : (f ()).Ensures s R) :
    (tcp_pcb_purge fuel >>= f).Ensures s R := by
  refine Ensures.bind (getPcb_bind hr.valid hp ?_)
  rw [(hr.window pcb hp).1]
  exact ensures_pure hf

theorem relayed_err (hr : Relayed s l) (hp : s.pcb = some pcb) :
    (perform .err).Ensures s fun _ t => t = { s with pcb := none } :=
  ensures_perform (purge_bind hr hp (ensures_modify rfl))

/-- A session that is there when its connection is freed keeps the pointer, and its end reads it. -/
theorem relayed_expire (hr : Relayed s l) (hp : s.pcb = some pcb) :
    (perform .expire).Ensures s fun _ t =>
      t = { s with freed := true } ∧ perform .destruct t = none := by
  refine ensures_perform (purge_bind hr hp (ensures_modify ⟨rfl, ?_⟩))
  obtain ⟨mem, queue, _, pcb_eof, pc, res_f, received, written, shut, buffers, freed⟩ := s
  cases hp
  rfl

/-- What the write of a call leaves. -/
theorem ensures_splice {w : Writev} (hr : Relayed s l) :
    (perform (.splice w)).Ensures s fun _ t =>
      (l = [] ∧ t = (if s.pcb_eof then { s with res_f := -1, shut := true } else { s with res_f := 0 })) ∨
      (l ≠ [] ∧ match w with
        | .accepted n => t = { s with
            written := s.written ++ (((l.take 64).map Prod.snd).flatten).take n, pc := .locking n }
        | .again => t = { s with res_f := 0 }
        | .failed => t = { s with res_f := -1 }) := by
  obtain ⟨mem, queue, pcb, pcb_eof, pc, res_f, received, written, shut, buffers, freed⟩ := s
  obtain rfl : queue = Chain.first l := hr.queue
  refine ensures_perform (get_bind ?_)
  cases l with
  | nil =>
    cases pcb_eof with
    | true => exact ensures_modify (.inl ⟨rfl, rfl⟩)
    | false => exact ensures_modify (.inl ⟨rfl, rfl⟩)
  | cons c l =>
    obtain ⟨p, xs⟩ := c
    refine onPbufs_bind (ensures_payloads hr.owns.inside 64) fun iov h hiov => ?_
    obtain ⟨rfl, rfl⟩ := hiov
    cases w with
    | accepted n => exact ensures_modify (.inr ⟨List.cons_ne_nil _ _, rfl⟩)
    | again => exact ensures_modify (.inr ⟨List.cons_ne_nil _ _, rfl⟩)
    | failed => exact ensures_modify (.inr ⟨List.cons_ne_nil _ _, rfl⟩)

theorem ensures_tcp_recved (pcb : TcpPcb) (hv : s.freed = false) (hp : s.pcb = some pcb) (hn : pcb.rcv_wnd + n ≤ TCP_WND) :
    (tcp_recved n).Ensures s fun _ t => t = { s with pcb := some { pcb with rcv_wnd := pcb.rcv_wnd + n } } := by
  have hwl := wnd_lt
  have hu : u16 (pcb.rcv_wnd + n) = pcb.rcv_wnd + n := by
    rw [u16]
    omega
  refine getPcb_bind hv hp ?_
  rw [hu, if_neg (by omega)]
  exact ensures_modify rfl

/-- The bytes that the socket has leave the queue, and the window opens by their number. -/
theorem relayed_finish (hr : Relayed s l) (hpc : s.pc = .locking n) :
    (perform .finish).Ensures s fun _ t => Relayed t (Chain.consume l n) ∧ ∃ h pcb, t = { s with
      mem := h
      queue := Chain.first (Chain.consume l n)
      pcb := pcb
      res_f := 1
      pc := .looping } := by
  have hflight : n ≤ (Chain.bytes l).length := by simpa [hpc, Pc.inFlight] using hr.flight
  have hlen : (Chain.bytes (Chain.consume l n)).length = (Chain.bytes l).length - n := by
    rw [consume_bytes, List.length_drop]
  have hshort := hr.short
  have hnd : s.pc ≠ .destructed := by rw [hpc]; simp
  have hu : u16 n = n := by
    have hwl := wnd_lt
    rw [u16]
    omega
  have hcount : (Chain.consume l n).length ≤ s.buffers := by
    have hsuf := (consume_ptrs l n).length_le
    simp only [Chain.ptrs, List.length_map] at hsuf
    exact Nat.le_trans hsuf hr.counted
  -- the queue and the histories are as they are to be whatever is left of the pcb
  have hall : ∀ h pcb', Chain.Owns h (Chain.consume l n) →
      (∀ pcb, pcb' = some pcb → pcb.refused_data = none ∧
        pcb.rcv_wnd + (Chain.bytes (Chain.consume l n)).length = TCP_WND) →
      Relayed { s with
        mem := h
        queue := Chain.first (Chain.consume l n)
        pcb := pcb'
        res_f := 1
        pc := .looping } (Chain.consume l n) := by
    intro h pcb' ho hw
    refine ⟨ho, rfl, hr.written, fun _ => ?_, Nat.zero_le _, by omega, hcount, hw,
      (fun _ h => by cases h), fun hs => ?_, (fun h => by cases h), hr.valid⟩
    · have hrest := hr.rest hnd
      rw [hpc] at hrest
      rw [consume_bytes]
      exact hrest
    · rw [hr.locked n hpc] at hs
      cases hs
  refine ensures_perform (get_bind ?_)
  rw [hpc]
  refine get_bind ?_
  rw [hr.queue]
  refine onPbufs_bind (ensures_free_header hr.owns hflight hr.fuel_lt) fun q h hres => ?_
  obtain ⟨rfl, ho⟩ := hres
  refine modify_bind (get_bind ?_)
  cases hp : s.pcb with
  | none => exact pure_bind (ensures_modify ⟨hall h none ho (fun _ h => by cases h), h, none, rfl⟩)
  | some pcb =>
    obtain ⟨href, hsum⟩ := hr.window pcb hp
    show (tcp_recved (u16 n) >>= fun _ => modify _).Ensures _ _
    rw [hu]
    refine (ensures_tcp_recved pcb (by exact hr.valid) rfl (by omega)).seq fun _ t ht => ?_
    subst ht
    refine ensures_modify ⟨hall h _ ho ?_, h, _, rfl⟩
    intro pcb' hp'
    cases hp'
    exact ⟨href, by simp only; omega⟩

theorem relayed_destruct (hr : Relayed s l) :
    (perform .destruct).Ensures s fun _ t => ∃ h, Chain.Owns h [] ∧
      t = { s with mem := h, pcb := none, queue := none, pc := .destructed } := by
  have htail : ((match s.queue with
      | none => modify fun s => { s with pcb := none, pc := .destructed }
      | some queue => do
        let _ ← onPbufs (pbuf_free (s.buffers + 2) queue)
        modify fun s => { s with pcb := none, queue := none, pc := .destructed }) : M Unit).Ensures s
      fun _ t => ∃ h, Chain.Owns h [] ∧
        t = { s with mem := h, pcb := none, queue := none, pc := .destructed } := by
    rw [hr.queue]
    cases l with
    | nil => exact ensures_modify ⟨s.mem, hr.owns, by rw [hr.queue]; rfl⟩
    | cons c l =>
      obtain ⟨p, xs⟩ := c
      exact onPbufs_bind (ensures_free hr.owns rfl (Nat.lt_of_succ_lt hr.fuel_lt)) fun _ h ho =>
        ensures_modify ⟨h, ho, rfl⟩
  refine ensures_perform (get_bind ?_)
  cases hp : s.pcb with
  | none => exact pure_bind htail
  | some pcb => exact purge_bind hr hp htail

/-- The write of a call moves what the socket took from the rest to the histories. -/
theorem relayed_splice {w : Writev} (hr : Relayed s l) (ha : Allowed s (.splice w)) :
    (perform (.splice w)).Ensures s fun _ t => Relayed t l ∧
      (s.shut = false → t.shut = true → s.pcb_eof = true ∧ s.written = s.received) := by
  have hpc : s.pc = .looping := by cases w <;> exact ha.1
  have hres : 0 ≤ s.res_f := by
    cases w with
    | accepted n => exact ha.2.1
    | again => exact ha.2
    | failed => exact ha.2
  have hshut : s.shut = false := by
    rw [← Bool.not_eq_true]
    intro hs
    have := hr.ended hs
    omega
  have hrest : s.written ++ Chain.bytes l = s.received := by
    have := hr.rest (by simp [hpc])
    rwa [hpc] at this
  have hset : ∀ res : Int, Relayed { s with res_f := res } l := fun res =>
    ⟨hr.owns, hr.queue, hr.written, hr.rest, hr.flight, hr.short, hr.counted, hr.window, hr.locked,
      fun hs => by simp only [hshut, Bool.false_eq_true] at hs, hr.destructed, hr.valid⟩
  refine (ensures_splice hr).mono ?_
  rintro - t (⟨rfl, rfl⟩ | ⟨hne, ht⟩)
  · by_cases heof : s.pcb_eof = true
    · rw [if_pos heof]
      refine ⟨⟨hr.owns, hr.queue, hr.written, hr.rest, hr.flight, hr.short, hr.counted, hr.window, ?_, ?_,
        hr.destructed, hr.valid⟩, fun _ _ => ⟨heof, ?_⟩⟩
      · intro n hn
        have hn : s.pc = .locking n := hn
        rw [hpc] at hn
        cases hn
      · exact fun _ => by simp
      · simpa using hrest
    · rw [if_neg heof]
      refine ⟨hset 0, fun _ hs => ?_⟩
      have hs : s.shut = true := hs
      rw [hshut] at hs
      cases hs
  · cases w with
    | again =>
      subst ht
      exact ⟨hset 0, fun _ hs => by simp only [hshut, Bool.false_eq_true] at hs⟩
    | failed =>
      subst ht
      exact ⟨hset (-1), fun _ hs => by simp only [hshut, Bool.false_eq_true] at hs⟩
    | accepted n =>
      subst ht
      refine ⟨?_, fun _ hs => by simp only [hshut, Bool.false_eq_true] at hs⟩
      -- the socket took some of the bytes of the first buffers
      have hn : n ≤ ((l.take 64).map Prod.snd).flatten.length := by
        obtain ⟨iov, h, hiov, -, rfl⟩ := ensures_payloads hr.owns.inside 64
        refine (ha.2.2 _ h (by rw [hr.queue]; exact hiov) ?_).2
        cases l with
        | nil => exact (hne rfl).elim
        | cons => simp
      obtain ⟨more, hmore⟩ := flatten_take l 64
      have htake : (((l.take 64).map Prod.snd).flatten).take n = (Chain.bytes l).take n := by
        rw [← hmore, List.take_append_of_le_length hn]
      have hle : n ≤ (Chain.bytes l).length := by
        rw [← hmore, List.length_append]
        omega
      rw [htake]
      have hall : s.written ++ (Chain.bytes l).take n ++ (Chain.bytes l).drop n = s.received := by
        rw [List.append_assoc, List.take_append_drop, hrest]
      exact ⟨hr.owns, hr.queue, ⟨_, hall⟩, fun _ => hall, hle, hr.short, hr.counted, hr.window,
        fun _ _ => hshut, fun hs => by simp only [hshut, Bool.false_eq_true] at hs, nofun, hr.valid⟩

/-- What a step does beside the relaying: the sending side of the socket is shut down when the peer has
ended and everything is written, and then nothing is. -/
def Orderly (s t : HevSocks5SessionTCP) : Prop :=
  (s.shut = false → t.shut = true → s.pcb_eof = true ∧ s.written = s.received) ∧
    (s.shut = true → t.shut = true ∧ t.written = s.written)

theorem Orderly.of_eq (hshut : t.shut = s.shut) (hw : t.written = s.written) : Orderly s t :=
  ⟨fun hs ht => absurd (hshut.symm.trans ht) (by simp [hs]), fun hs => ⟨hshut.trans hs, hw⟩⟩

/-- Every action that can happen ends without a fault. -/
theorem relayed_perform (hr : Relayed s l) (ha : Allowed s a) (hin : InTime s a) :
    (perform a).Ensures s fun _ t => (∃ l', Relayed t l') ∧ Orderly s t := by
  cases a with
  | segment k fin =>
    obtain ⟨hv, pcb, hp, href, hwnd, hn, hfresh, hne⟩ := ha
    have hseg := ensures_segment hr hp hwnd hn hfresh (Nat.le_of_lt (Nat.lt_of_succ_lt hr.fuel_lt))
    obtain ⟨_, t, ht, hrel⟩ := relayed_segment hr ⟨hv, pcb, hp, href, hwnd, hn, hfresh, hne⟩
    obtain ⟨h, -, rfl⟩ := (ensures_perform hseg).of_run ht
    exact ⟨_, _, ht, ⟨_, hrel⟩, .of_eq rfl rfl⟩
  | retry =>
    obtain ⟨pcb, hp⟩ := Option.isSome_iff_exists.mp ha.2
    refine (relayed_retry hr hp).mono fun _ t ht => ?_
    subst ht
    exact ⟨⟨l, hr⟩, .of_eq rfl rfl⟩
  | err =>
    obtain ⟨pcb, hp⟩ := Option.isSome_iff_exists.mp ha.2
    refine (relayed_err hr hp).mono fun _ t ht => ?_
    subst ht
    exact ⟨⟨l, hr.owns, hr.queue, hr.written, hr.rest, hr.flight, hr.short, hr.counted, nofun, hr.locked,
      hr.ended, fun hd => ⟨(hr.destructed hd).1, rfl⟩, hr.valid⟩, .of_eq rfl rfl⟩
  | expire => exact (hin rfl).elim
  | start =>
    refine ensures_perform (ensures_modify ⟨⟨l, ?_⟩, .of_eq rfl rfl⟩)
    have hopen : s.pc = .opening := ha
    have hrest := hr.rest (by simp [hopen])
    rw [hopen] at hrest
    cases s.pcb.isSome <;>
      exact ⟨hr.owns, hr.queue, hr.written, fun _ => hrest, Nat.zero_le _, hr.short, hr.counted, hr.window,
        nofun, hr.ended, nofun, hr.valid⟩
  | splice w =>
    refine (relayed_splice hr ha).mono fun _ t ht => ⟨⟨l, ht.1⟩, ht.2, fun hs => ?_⟩
    have hres : 0 ≤ s.res_f := by
      cases w with
      | accepted n => exact ha.2.1
      | again => exact ha.2
      | failed => exact ha.2
    have := hr.ended hs
    omega
  | finish =>
    obtain ⟨n, hn⟩ := ha
    refine (relayed_finish hr hn).mono ?_
    rintro - t ⟨hrel, h, pcb, rfl⟩
    exact ⟨⟨_, hrel⟩, .of_eq rfl rfl⟩
  | leave =>
    refine ensures_perform (ensures_modify ⟨⟨l, ?_⟩, .of_eq rfl rfl⟩)
    have hrest : s.written ++ Chain.bytes l = s.received := by
      rcases ha with hpc | hpc
      · have := hr.rest (by simp [hpc])
        rwa [hpc] at this
      · have := hr.rest (by simp [hpc])
        rwa [hpc] at this
    exact ⟨hr.owns, hr.queue, hr.written, fun _ => hrest, Nat.zero_le _, hr.short, hr.counted, hr.window,
      nofun, hr.ended, nofun, hr.valid⟩
  | destruct =>
    refine (relayed_destruct hr).mono ?_
    rintro - t ⟨h, ho, rfl⟩
    exact ⟨⟨[], ho, rfl, hr.written, fun hd => (hd rfl).elim, Nat.zero_le _, Nat.zero_le _, Nat.zero_le _, nofun,
      nofun, hr.ended, fun _ => ⟨rfl, rfl⟩, hr.valid⟩, .of_eq rfl rfl⟩

theorem relayed_initial (h : Initial s) : Relayed s [] := by
  rw [Initial] at h
  subst h
  refine ⟨⟨trivial, fun _ _ => rfl, List.nodup_nil, by simp⟩, rfl, List.prefix_rfl, fun _ => rfl, Nat.zero_le _,
    Nat.zero_le _, Nat.zero_le _, ?_, nofun, nofun, nofun, rfl⟩
  intro pcb hp
  cases hp
  exact ⟨rfl, rfl⟩

theorem relayed_reachable (h : ReachableInTime s) : ∃ l, Relayed s l := by
  have hinit : ∀ s, Initial s → ∃ l, Relayed s l := fun s hs => ⟨[], relayed_initial hs⟩
  refine @Reachable.invariant _ _ (Guarded Step InTime) s Initial (fun s => ∃ l, Relayed s l)
    (fun s a t hst hs => ?_) hinit h
  obtain ⟨l, hr⟩ := hs
  exact ((relayed_perform hr hst.2.1 hst.1).of_run hst.2.2).1

/-- The steps of a task whose socket takes bytes. -/
def Forward : Action → Prop
  | .splice (.accepted _) | .finish => True
  | _ => False

/-- What is left to do of an upload that has ended. -/
def rank (s : HevSocks5SessionTCP) : Nat :=
  2 * (s.received.length - s.written.length) + (if s.pc = .looping then 0 else 1) + if s.shut then 0 else 1

/-- The peer has ended, the task forwards until the sending side of the socket is shut down, and no buffer
of the queue is empty. -/
structure Draining (s : HevSocks5SessionTCP) (l : Chain) : Prop where
  relayed : Relayed s l
  eof : s.pcb_eof = true
  full : ∀ c ∈ l, c.2 ≠ []
  forwarding : s.pc = .looping ∧ (s.shut = false → 0 ≤ s.res_f) ∨ ∃ n, s.pc = .locking n
  whole : s.shut = true → s.written = s.received

theorem consume_full (h : ∀ c ∈ l, c.2 ≠ []) (n : Nat) : ∀ c ∈ Chain.consume l n, c.2 ≠ [] := by
  fun_induction Chain.consume l n with
  | case1 n => exact h
  | case2 p xs l => exact h
  | case3 p xs l n hn hle ih => exact ih fun c hc => h c (List.mem_cons_of_mem _ hc)
  | case4 p xs l n hn hlt =>
    intro c hc
    rcases List.mem_cons.mp hc with rfl | hc
    · exact fun he => by simp at he; omega
    · exact h c (List.mem_cons_of_mem _ hc)

theorem Draining.splice {n : Nat} (hd : Draining s l) (ha : Allowed s (.splice (.accepted n)))
    (h : perform (.splice (.accepted n)) s = some ((), t)) :
    Draining t l ∧ t.received = s.received ∧ rank t < rank s := by
  obtain ⟨hrel, hord⟩ := (relayed_splice hd.relayed ha).of_run h
  have hcase := (ensures_splice (w := .accepted n) hd.relayed).of_run h
  obtain ⟨hpc, hres, hsome⟩ := ha
  have hshut : s.shut = false := by
    rw [← Bool.not_eq_true]
    intro hs
    have := hd.relayed.ended hs
    omega
  rcases hcase with ⟨rfl, rfl⟩ | ⟨hne, rfl⟩
  · rw [if_pos hd.eof] at hrel hord ⊢
    refine ⟨⟨hrel, hd.eof, hd.full, .inl ⟨hpc, nofun⟩, fun _ => (hord hshut rfl).2⟩, rfl, ?_⟩
    simp [rank, hpc, hshut]
  · refine ⟨⟨hrel, hd.eof, hd.full, .inr ⟨n, rfl⟩, fun hs => ?_⟩, rfl, ?_⟩
    · simp only [hshut, Bool.false_eq_true] at hs
    · -- at least one byte moves
      obtain ⟨iov, h', hiov, -, rfl⟩ := ensures_payloads hd.relayed.owns.inside 64
      have hpos := hsome _ h' (by rw [hd.relayed.queue]; exact hiov) (by
        cases l with
        | nil => exact (hne rfl).elim
        | cons => simp)
      have hle := hrel.written.length_le
      simp only [List.length_append, List.length_take] at hle
      simp only [rank, hpc, hshut, List.length_append, List.length_take, reduceIte, Bool.false_eq_true,
        reduceCtorEq]
      omega

theorem Draining.finish {n : Nat} (hd : Draining s l) (hpc : s.pc = .locking n)
    (h : perform .finish s = some ((), t)) :
    Draining t (Chain.consume l n) ∧ t.received = s.received ∧ rank t < rank s := by
  obtain ⟨hrel, h', pcb, rfl⟩ := (relayed_finish hd.relayed hpc).of_run h
  refine ⟨⟨hrel, hd.eof, consume_full hd.full n, .inl ⟨rfl, fun _ => by simp⟩, hd.whole⟩, rfl, ?_⟩
  simp [rank, hpc]

theorem Draining.step (hd : Draining s l) (ha : Forward a) (hst : Step s a t) :
    (∃ l', Draining t l') ∧ t.received = s.received ∧ rank t < rank s := by
  cases a with
  | splice w =>
    cases w with
    | accepted n => exact ⟨⟨l, (hd.splice hst.1 hst.2).1⟩, (hd.splice hst.1 hst.2).2⟩
    | again => cases ha
    | failed => cases ha
  | finish =>
    obtain ⟨n, hn⟩ := hst.1
    exact ⟨⟨_, (hd.finish hn hst.2).1⟩, (hd.finish hn hst.2).2⟩
  | segment => cases ha
  | retry => cases ha
  | err => cases ha
  | expire => cases ha
  | start => cases ha
  | leave => cases ha
  | destruct => cases ha

/-- Until the shutdown there is a step to take. -/
theorem Draining.shut_of_stuck (hd : Draining s l) (hstuck : ∀ a t, Forward a → ¬ Step s a t) :
    s.shut = true := by
  have hcan : ∀ a, Forward a → ¬ Allowed s a := fun a hf ha => by
    have hin : InTime s a := by
      rintro rfl
      cases hf
    obtain ⟨_, t, ht, -⟩ := relayed_perform hd.relayed ha hin
    exact hstuck a t hf ⟨ha, ht⟩
  by_contra hshut
  have hshut : s.shut = false := by simpa using hshut
  rcases hd.forwarding with ⟨hpc, hres⟩ | ⟨n, hpc⟩
  · refine hcan (.splice (.accepted 1)) trivial ⟨hpc, hres hshut, fun iov h hiov hne => ⟨Nat.one_pos, ?_⟩⟩
    obtain ⟨iov', h', hiov', -, hl⟩ := ensures_payloads hd.relayed.owns.inside 64
    rw [hd.relayed.queue, hiov'] at hiov
    obtain ⟨rfl, -⟩ := Prod.mk.inj (Option.some.inj hiov)
    rw [hl] at hne ⊢
    cases l with
    | nil => exact (hne rfl).elim
    | cons c l =>
      have hpos : c.2.length ≠ 0 := by simpa using hd.full c List.mem_cons_self
      simp only [List.take_succ_cons, List.map_cons, List.flatten_cons, List.length_append]
      omega
  · exact hcan .finish trivial ⟨n, hpc⟩

theorem Draining.run {xs : List Action} (hd : Draining s l)
    (h : Run (Guarded Step fun _ a => Forward a) s xs t) :
    (∃ l', Draining t l') ∧ t.received = s.received ∧ xs.length + rank t ≤ rank s := by
  induction h generalizing l with
  | refl => exact ⟨⟨l, hd⟩, rfl, by simp⟩
  | stepL hst _ ih =>
    obtain ⟨⟨l', hd'⟩, hrec, hlt⟩ := hd.step hst.1 hst.2
    obtain ⟨hend, hrec', hle⟩ := ih hd'
    refine ⟨hend, hrec'.trans hrec, ?_⟩
    rw [List.length_cons]
    omega

theorem payload_of_mem (hin : Chain.In s.mem l) : ∀ c ∈ l, ∃ b, s.mem c.1 = some b ∧ b.payload = c.2 := by
  induction l with
  | nil => nofun
  | cons d l ih =>
    intro c hc
    rcases List.mem_cons.mp hc with rfl | hc
    · exact ⟨_, hin.1, rfl⟩
    · exact ih hin.2 c hc

/-- Whatever the order of the segments, the writes, the errors and the end: the upload is relayed in its
order and without a loss, no step faults, and the shutdown comes behind the last byte. A session that is
still there when the `TIME_WAIT` of its connection ends reads freed memory when it ends itself. -/
theorem upload_relayed (h : ReachableInTime s) : (∃ l, Relayed s l) ∧
    (∀ a, Allowed s a → ∃ t, Step s a t ∧ Orderly s t) ∧
    ∀ t, Step s .expire t → perform .destruct t = none := by
  obtain ⟨l, hr⟩ := relayed_reachable h
  refine ⟨⟨l, hr⟩, fun a ha => ?_, fun t hst => ?_⟩
  · by_cases hexp : a = .expire
    · subst hexp
      obtain ⟨pcb, hp⟩ := Option.isSome_iff_exists.mp ha.2.1
      obtain ⟨_, t, ht, rfl, -⟩ := relayed_expire hr hp
      exact ⟨_, ⟨ha, ht⟩, .of_eq rfl rfl⟩
    · obtain ⟨_, t, ht, -, ho⟩ := relayed_perform hr ha hexp
      exact ⟨t, ⟨ha, ht⟩, ho⟩
  · obtain ⟨pcb, hp⟩ := Option.isSome_iff_exists.mp hst.1.2.1
    exact ((relayed_expire hr hp).of_run hst.2).2

/-- Two bytes are received, the socket takes the first one, and the FIN comes before the lock. -/
theorem ended_while_writing : ∃ s t, ReachableInTime s ∧ s.pc = .locking 1 ∧ s.pcb_eof = true ∧
    s.received = [10, 20] ∧ s.written = [10] ∧ (∀ p b, s.mem p = some b → b.payload ≠ []) ∧
      Run (Guarded Step fun _ a => Forward a) s
        [.finish, .splice (.accepted 1), .finish, .splice (.accepted 1)] t ∧
      ∀ a u, Forward a → ¬ Step t a u := by
  have h0 : ReachableInTime _ := ⟨_, [], rfl, .refl⟩
  have h1 := h0.step (show Guarded Step InTime _ (.segment [(1, [10, 20])] false) _ from
    ⟨nofun, ⟨rfl, _, rfl, rfl, by decide, by decide, fun _ _ => rfl, fun _ => by decide⟩, rfl⟩)
  have h2 := h1.step (show Guarded Step InTime _ .start _ from ⟨nofun, rfl, rfl⟩)
  have h3 := h2.step (show Guarded Step InTime _ (.splice (.accepted 1)) _ from
    ⟨nofun, ⟨rfl, by decide, fun iov h hiov _ => by cases hiov; decide⟩, rfl⟩)
  have h4 := h3.step (show Guarded Step InTime _ (.segment [] true) _ from
    ⟨nofun, ⟨rfl, _, rfl, rfl, by decide, List.nodup_nil, nofun, fun hne => absurd rfl hne⟩, rfl⟩)
  refine ⟨_, _, h4, rfl, rfl, rfl, rfl, fun p b hb => ?_,
    .stepL ⟨trivial, ⟨1, rfl⟩, rfl⟩ (.stepL ⟨trivial, ⟨rfl, by decide, fun iov h hiov _ => ?_⟩, rfl⟩
      (.stepL ⟨trivial, ⟨1, rfl⟩, rfl⟩ (.stepL ⟨trivial, ⟨rfl, by decide, fun iov h hiov hne => ?_⟩, rfl⟩ .refl))),
    fun a u ha hst => ?_⟩
  · by_cases hp : p = 1
    · subst hp
      cases hb
      exact List.cons_ne_nil _ _
    · have hb : Function.update (fun _ => none) 1 (some (⟨none, [10, 20], 2, 1⟩ : Pbuf)) p = some b := hb
      rw [Function.update_of_ne hp] at hb
      cases hb
  · cases hiov
    decide
  · cases hiov
    exact (hne rfl).elim
  · cases a with
    | splice w =>
      cases w with
      | accepted n => exact absurd hst.1.2.1 (by decide)
      | again => cases ha
      | failed => cases ha
    | finish =>
      obtain ⟨n, hn⟩ := hst.1
      cases hn
    | segment => cases ha
    | retry => cases ha
    | err => cases ha
    | expire => cases ha
    | start => cases ha
    | leave => cases ha
    | destruct => cases ha

theorem upload_relayed_ended : ∃ s, s.received = [10, 20] ∧ s.written = [10] ∧ (∃ l, Relayed s l) ∧
    (∀ a, Allowed s a → ∃ t, Step s a t ∧ Orderly s t) ∧
    ∀ t, Step s .expire t → perform .destruct t = none := by
  obtain ⟨s, t, hs, -, -, hrec, hw, -⟩ := ended_while_writing
  exact ⟨s, hrec, hw, upload_relayed hs⟩

/-- An upload whose peer has ended is written and shut down, as long as the socket takes bytes and the task
stays in its loop: after a number of steps that its length bounds, and stopping nowhere before that. -/
theorem upload_drains {xs : List Action} (hs : ReachableInTime s) (heof : s.pcb_eof = true)
    (hfull : ∀ p b, s.mem p = some b → b.payload ≠ [])
    (hpc : s.pc = .looping ∧ 0 ≤ s.res_f ∨ ∃ n, s.pc = .locking n)
    (h : Run (Guarded Step fun _ a => Forward a) s xs t) :
    xs.length ≤ 2 * (s.received.length - s.written.length) + 2 ∧
      ((∀ a u, Forward a → ¬ Step t a u) → t.shut = true ∧ t.written = s.received) := by
  obtain ⟨l, hr⟩ := relayed_reachable hs
  have hshut : s.shut = false := by
    rw [← Bool.not_eq_true]
    intro hs
    rcases hpc with ⟨-, hres⟩ | ⟨n, hn⟩
    · have := hr.ended hs
      omega
    · rw [hr.locked n hn] at hs
      cases hs
  have hd : Draining s l := by
    refine ⟨hr, heof, fun c hc => ?_, hpc.imp (fun h => ⟨h.1, fun _ => h.2⟩) id, fun hs => ?_⟩
    · obtain ⟨b, hb, he⟩ := payload_of_mem hr.owns.inside c hc
      exact he ▸ hfull _ _ hb
    · rw [hshut] at hs
      cases hs
  obtain ⟨⟨l', hd'⟩, hrec, hle⟩ := hd.run h
  refine ⟨?_, fun hstuck => ?_⟩
  · have hrank : rank s ≤ 2 * (s.received.length - s.written.length) + 2 := by
      unfold rank
      split <;> split <;> omega
    omega
  · have hend := hd'.shut_of_stuck hstuck
    exact ⟨hend, (hd'.whole hend).trans hrec⟩

theorem upload_drains_ended :
    ∃ s t : HevSocks5SessionTCP, s.written = [10] ∧ t.shut = true ∧ t.written = [10, 20] := by
  obtain ⟨s, t, hs, hpc, heof, hrec, hw, hfull, hrun, hstuck⟩ := ended_while_writing
  have hend := (upload_drains hs heof hfull (.inr ⟨1, hpc⟩) hrun).2 hstuck
  exact ⟨s, t, hw, hend.1, hrec ▸ hend.2⟩

end XTunnel.TcpUplink
