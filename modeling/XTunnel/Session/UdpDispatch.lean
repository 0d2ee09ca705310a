import XTunnel.MappedDns.Handle
import XTunnel.Session.UdpForward

/-! Which handler a UDP datagram of an application gets: the mapped DNS or a session. -/
namespace XTunnel.UdpDispatch

open MappedDns UdpForward

abbrev Endpoint := IpAddr × BitVec 16

structure Datagram where
  src : Endpoint
  dest : IpAddr
  port : BitVec 16
  data : Pbuf

/-- `hev_config_get_mapdns_address` and `hev_config_get_mapdns_port`. -/
structure Config where
  address : BitVec 32
  port : Int

/-- The datagram is for the mapped DNS. -/
def Datagram.isMapped (cfg : Config) (d : Datagram) : Bool :=
  d.dest = .v4 cfg.address ∧ (d.port.toNat : Int) = cfg.port

inductive Fate
  | handled
  | queued
  | dropped
deriving DecidableEq

/-- lwIP has a control block for every source endpoint with a session; that of a query is gone with
the query. `log` is the history of the datagrams. -/
structure State where
  run : Bool
  dns : HevMappedDNS
  sessions : Endpoint → Option UdpForward.State
  log : List (Datagram × Fate)

def initial (dns : HevMappedDNS) : State := ⟨true, dns, fun _ => none, []⟩

/-- What a datagram meets: whether a session can be made, whether there is memory for a frame, the
buffer for a reply, and memory for the nodes of the store. -/
structure Memory where
  session : Bool
  frame : Bool
  reply : Option Dns.Bytes
  node : Nat → Bool

/-- The handlers that a control block can have. -/
inductive Recv
  | dns
  | session

/-- `udp_recv_handler` of the tunnel, for a new source endpoint. Without a handler the control block
is removed, and lwIP tries again. -/
def accept (cfg : Config) (s : State) (d : Datagram) (mem : Memory) : Option Recv :=
  if s.run = false then none
  else if d.isMapped cfg then some .dns
  else if mem.session then some .session
  else none

/-- The store that `hev_mapped_dns_handle` leaves. -/
def storeAfter : Except HevMappedDNS Response → HevMappedDNS
  | .error dns => dns
  | .ok r => r.dns

/-- The first buffer of the datagram is the query. The control block is removed in any case. -/
def dns_recv_handler (s : State) (d : Datagram) (mem : Memory) : State :=
  match mem.reply with
  | none => { s with log := (d, .dropped) :: s.log }
  | some b =>
    { s with
      dns := storeAfter (handle s.dns mem.node d.data.payload b)
      log := (d, .handled) :: s.log }

/-- `udp_recv_handler` of the session. -/
def session_recv_handler (s : State) (session : UdpForward.State) (d : Datagram) (mem : Memory) :
    State :=
  let addr := addrFromLwip (some s.dns) d.dest d.port
  let sessions := Function.update s.sessions d.src
    (some (UdpForward.udp_recv_handler session ⟨addr.2, d.data⟩ mem.frame))
  if UDP_POOL_SIZE < session.frames ∨ mem.frame = false then
    { s with sessions := sessions, log := (d, .dropped) :: s.log }
  else { s with dns := addr.1.getD s.dns, sessions := sessions, log := (d, .queued) :: s.log }

/-- `udp_input`. -/
def udp_input (cfg : Config) (s : State) (d : Datagram) (mem : Memory) : State :=
  match s.sessions d.src with
  | some session => session_recv_handler s session d mem
  | none =>
    match accept cfg s d mem with
    | none => { s with log := (d, .dropped) :: s.log }
    | some .dns => dns_recv_handler s d mem
    | some .session => session_recv_handler s UdpForward.initial d mem

inductive Action
  | datagram (d : Datagram) (mem : Memory)
  | forward (src : Endpoint) (a : UdpForward.Action)
  | remove (src : Endpoint)
  | stop

/-- Datagrams arrive, sessions forward and end, in any order. -/
inductive Step (cfg : Config) : State → Action → State → Prop
  | datagram {s : State} {d : Datagram} {mem : Memory} :
      Step cfg s (.datagram d mem) (udp_input cfg s d mem)
  | forward {s : State} {src : Endpoint} {a : UdpForward.Action} {u v : UdpForward.State} :
      s.sessions src = some u → (∀ f alloc, a ≠ .recv f alloc) → UdpForward.Step u a v →
      Step cfg s (.forward src a) { s with sessions := Function.update s.sessions src (some v) }
  | remove {s : State} {src : Endpoint} :
      Step cfg s (.remove src) { s with sessions := Function.update s.sessions src none }
  | stop {s : State} : Step cfg s .stop { s with run := false }

/-- Every query so far was handed to the mapped DNS. -/
def Answered (cfg : Config) (s : State) : Prop :=
  ∀ e ∈ s.log, e.1.isMapped cfg = true → e.2 = .handled

/-- A query comes from an endpoint without a session, while the tunnel runs and has memory. -/
def Fresh (cfg : Config) (s : State) : Action → Prop
  | .datagram d mem => d.isMapped cfg = true →
      s.sessions d.src = none ∧ s.run = true ∧ mem.reply.isSome = true
  | _ => True

variable {cfg : Config} {s t : State} {a : Action} {xs : List Action} {d : Datagram}
  {mem : Memory} {session : UdpForward.State} {dns : HevMappedDNS}

/-- A session queues the datagram or drops it, whatever its destination is. -/
theorem session_log : ∃ fate, (session_recv_handler s session d mem).log = (d, fate) :: s.log ∧
    fate ≠ .handled := by
  rw [session_recv_handler]
  split
  · exact ⟨.dropped, rfl, nofun⟩
  · exact ⟨.queued, rfl, nofun⟩

theorem dns_log : ∃ fate, (dns_recv_handler s d mem).log = (d, fate) :: s.log ∧
    (fate = .handled ↔ mem.reply.isSome = true) := by
  rw [dns_recv_handler]
  cases mem.reply with
  | none => exact ⟨.dropped, rfl, by simp⟩
  | some b => exact ⟨.handled, rfl, by simp⟩

/-- Every datagram gets its entry, and a query is handled exactly when its endpoint is fresh. -/
theorem input_log : ∃ fate, (udp_input cfg s d mem).log = (d, fate) :: s.log ∧
    (d.isMapped cfg = true → (fate = .handled ↔ Fresh cfg s (.datagram d mem))) := by
  rw [udp_input]
  cases hs : s.sessions d.src with
  | some session =>
    obtain ⟨fate, hlog, hfate⟩ := @session_log s d mem session
    refine ⟨fate, hlog, fun hd => iff_of_false hfate ?_⟩
    intro hf
    rw [(hf hd).1] at hs
    cases hs
  | none =>
    dsimp only
    rw [accept]
    cases hrun : s.run with
    | false =>
      refine ⟨.dropped, rfl, fun hd => iff_of_false nofun ?_⟩
      intro hf
      rw [(hf hd).2.1] at hrun
      cases hrun
    | true =>
      by_cases hd : d.isMapped cfg = true
      · obtain ⟨fate, hlog, hfate⟩ := @dns_log s d mem
        rw [if_neg nofun, if_pos hd]
        refine ⟨fate, hlog, fun _ => hfate.trans ?_⟩
        exact ⟨fun h _ => ⟨hs, hrun, h⟩, fun hf => (hf hd).2.2⟩
      · rw [if_neg nofun, if_neg hd]
        cases mem.session with
        | false => exact ⟨.dropped, rfl, fun h => (hd h).elim⟩
        | true =>
          obtain ⟨fate, hlog, -⟩ := @session_log s d mem UdpForward.initial
          exact ⟨fate, hlog, fun h => (hd h).elim⟩

/-- Only a query from an endpoint with a session, or without memory, goes astray. -/
theorem answered_step (h : Step cfg s a t) (hs : Answered cfg s) :
    Answered cfg t ↔ Fresh cfg s a := by
  cases h with
  | @datagram d mem =>
    obtain ⟨fate, hlog, hfate⟩ := @input_log cfg s d mem
    rw [Answered, hlog, List.forall_mem_cons]
    constructor
    · intro ht hd
      exact (hfate hd).mp (ht.1 hd) hd
    · intro hf
      exact ⟨fun hd => (hfate hd).mpr hf, hs⟩
  | forward | remove | stop => exact iff_of_true hs trivial

/-- Every query is answered locally in exactly the runs in which none comes from an endpoint with a
session. -/
theorem answered_iff : Run (Into (Step cfg) (Answered cfg)) (initial dns) xs s ↔
    Run (Guarded (Step cfg) (Fresh cfg)) (initial dns) xs s :=
  Run.into_iff_guarded (fun _ _ _ => answered_step) (List.forall_mem_nil _)

/-- The queries have source endpoints of their own. -/
def Apart (cfg : Config) (resolver : Endpoint → Prop) : Action → Prop
  | .datagram d mem => (d.isMapped cfg = true ↔ resolver d.src) ∧ mem.reply.isSome = true
  | .forward _ _ | .remove _ => True
  | .stop => False

/-- No resolver has a session. -/
structure Resolves (cfg : Config) (resolver : Endpoint → Prop) (s : State) : Prop where
  run : s.run = true
  sessions : ∀ src, resolver src → s.sessions src = none
  answered : Answered cfg s

theorem session_run : (session_recv_handler s session d mem).run = s.run := by
  rw [session_recv_handler]
  split
  · rfl
  · rfl

theorem session_other {src : Endpoint} (hne : src ≠ d.src) :
    (session_recv_handler s session d mem).sessions src = s.sessions src := by
  rw [session_recv_handler]
  split
  · exact Function.update_of_ne hne _ _
  · exact Function.update_of_ne hne _ _

theorem dns_frame : (dns_recv_handler s d mem).run = s.run ∧
    (dns_recv_handler s d mem).sessions = s.sessions := by
  rw [dns_recv_handler]
  cases mem.reply with
  | none => exact ⟨rfl, rfl⟩
  | some b => exact ⟨rfl, rfl⟩

theorem input_run : (udp_input cfg s d mem).run = s.run := by
  rw [udp_input]
  cases s.sessions d.src with
  | some session => exact session_run
  | none =>
    cases accept cfg s d mem with
    | none => rfl
    | some recv =>
      cases recv with
      | dns => exact dns_frame.1
      | session => exact session_run

/-- A datagram leaves the sessions of other endpoints as they are, and a query that of its own. -/
theorem input_sessions {src : Endpoint}
    (h : src ≠ d.src ∨ d.isMapped cfg = true ∧ s.sessions d.src = none) :
    (udp_input cfg s d mem).sessions src = s.sessions src := by
  rw [udp_input]
  cases hs : s.sessions d.src with
  | some session =>
    rcases h with hne | ⟨-, hnone⟩
    · exact session_other hne
    · rw [hnone] at hs
      cases hs
  | none =>
    cases ha : accept cfg s d mem with
    | none => rfl
    | some recv =>
      cases recv with
      | dns => exact congrFun dns_frame.2 src
      | session =>
        rcases h with hne | ⟨hd, -⟩
        · exact session_other hne
        · rw [accept, if_pos hd] at ha
          split at ha
          · cases ha
          · cases ha

theorem resolves_initial {resolver : Endpoint → Prop} : Resolves cfg resolver (initial dns) :=
  ⟨rfl, fun _ _ => rfl, List.forall_mem_nil _⟩

theorem resolves_step {resolver : Endpoint → Prop}
    (h : Guarded (Step cfg) (fun _ => Apart cfg resolver) s a t) (hs : Resolves cfg resolver s) :
    Resolves cfg resolver t := by
  obtain ⟨ha, hst⟩ := h
  cases hst with
  | @datagram d mem =>
    have hfresh : Fresh cfg s (.datagram d mem) :=
      fun hd => ⟨hs.sessions _ (ha.1.mp hd), hs.run, ha.2⟩
    have hframe : ∀ src, resolver src →
        src ≠ d.src ∨ d.isMapped cfg = true ∧ s.sessions d.src = none := by
      intro src hr
      by_cases he : src = d.src
      · subst he
        exact Or.inr ⟨ha.1.mpr hr, hs.sessions _ hr⟩
      · exact Or.inl he
    refine ⟨input_run.trans hs.run, ?_, (answered_step .datagram hs.answered).mpr hfresh⟩
    intro src hr
    rw [input_sessions (hframe src hr)]
    exact hs.sessions src hr
  | @forward src a u v hu hne hstep =>
    refine ⟨hs.run, ?_, hs.answered⟩
    intro src' hr
    by_cases he : src' = src
    · subst he
      rw [hs.sessions src' hr] at hu
      cases hu
    · exact (Function.update_of_ne he _ _).trans (hs.sessions src' hr)
  | @remove src =>
    refine ⟨hs.run, ?_, hs.answered⟩
    intro src' hr
    by_cases he : src' = src
    · subst he
      exact Function.update_self _ _ _
    · exact (Function.update_of_ne he _ _).trans (hs.sessions src' hr)
  | stop => cases ha

/-- An application that asks from endpoints of their own gets every answer. -/
theorem answered_apart {resolver : Endpoint → Prop}
    (h : Run (Guarded (Step cfg) (fun _ => Apart cfg resolver)) (initial dns) xs s) :
    Answered cfg s := by
  have hr : Resolves cfg resolver s :=
    h.invariant (fun _ _ _ => resolves_step) resolves_initial
  exact hr.answered

/-- A datagram to 8.8.8.8 and port 443, and one to the mapped DNS, from one endpoint. -/
def other : Datagram := ⟨(.v4 0x0A000002#32, 5000), .v4 0x08080808#32, 443, ⟨[1], []⟩⟩

def query : Datagram := { other with dest := .v4 0xC6120002#32, port := 53 }

/-- There is memory for everything. -/
def plenty : Memory := ⟨true, true, some [], fun _ => true⟩

/-- An empty store for 100 names at 240.0.0.0. -/
def emptyStore : HevMappedDNS :=
  ⟨0, 100, 0xF0000000#32, 0xFFFFFF00#32, [], [], fun _ => none, fun _ => none, 0⟩

/-- The session of the first datagram gets the query. -/
theorem query_forwarded : ¬ ∀ xs s, Run (Step ⟨0xC6120002#32, 53⟩) (initial emptyStore) xs s →
    Answered ⟨0xC6120002#32, 53⟩ s := by
  intro h
  have hs := h [.datagram other plenty, .datagram query plenty] _
    (.stepL .datagram (.single .datagram))
  obtain ⟨fate, hlog, hfate⟩ := @input_log ⟨0xC6120002#32, 53⟩
    (udp_input ⟨0xC6120002#32, 53⟩ (initial emptyStore) other plenty) query plenty
  have hmapped : query.isMapped ⟨0xC6120002#32, 53⟩ = true := by decide
  rw [Answered, hlog, List.forall_mem_cons] at hs
  obtain ⟨hnone, -⟩ := (hfate hmapped).mp (hs.1 hmapped) hmapped
  exact absurd hnone (by decide)

end XTunnel.UdpDispatch
