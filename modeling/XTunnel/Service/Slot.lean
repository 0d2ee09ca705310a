import XTunnel.Transition

/-! One slot of `ECHPool`: its `dialAndServe` loop, the probe goroutines of its sessions, `Close` and
the death of a websocket. -/
namespace XTunnel.Service.Slot

/-- Where `probeChannelRTT` stands for a session. -/
inductive ProbePc
  | notStarted
  | probing
  | checking
  | ticking
  | exiting
  | sent
  | ended
deriving DecidableEq

/-- The goroutine has sent on `done`; it can only close that channel. -/
def ProbePc.reported : ProbePc → Bool
  | .sent | .ended => true
  | _ => false

/-- A session: `Close` has closed it, its `Dead` channel is closed, its probe goroutine. -/
structure Session where
  closed : Bool
  dead : Bool
  probe : ProbePc

def newSession : Session := ⟨false, false, .notStarted⟩

/-- Where `dialAndServe` stands, with the session that it has in hand. -/
inductive LoopPc
  | top
  | dialing
  | smuxClient
  | locking (sess : Nat)
  | putting (sess : Nat)
  | zeroing (sess : Nat)
  | unlocking (sess : Nat)
  | firstProbe (sess : Nat)
  | starting (sess : Nat)
  | serving (sess : Nat)
  | cancelled (sess : Nat)
  | cancelWait (sess : Nat)
  | dead (sess : Nat)
  | deadWait (sess : Nat)
  | closing (sess : Nat)
  | lockingClear
  | clearing
  | clearingRTT
  | unlockingClear
  | waiting
  | returned

def LoopPc.session : LoopPc → Option Nat
  | .locking i | .putting i | .zeroing i | .unlocking i | .firstProbe i | .starting i | .serving i
  | .cancelled i | .cancelWait i | .dead i | .deadWait i | .closing i => some i
  | _ => none

/-- Where `Close` stands, as far as this slot is concerned. -/
inductive ClosePc
  | idle
  | locking
  | locked
  | clearing
  | zeroing
  | unlocking
  | returned
deriving DecidableEq

inductive Holder
  | loop | close
deriving DecidableEq

/-- The RTT of the slot, with the session whose probe has stored it. -/
structure ChannelRTT where
  value : Int
  storedBy : Option Nat
deriving DecidableEq

def ChannelRTT.zero : ChannelRTT := ⟨0, none⟩

/-- `cfg.RTTProbeTimeout.Nanoseconds()` -/
def rttProbeTimeout : Int := 2000000000

/-- The sessions stand in the order in which the slot has created them. -/
structure State where
  loop : LoopPc
  close : ClosePc
  ctxDone : Bool
  wsConnsMu : Option Holder
  smuxConn : Option Nat
  channelRTT : ChannelRTT
  sessions : List Session

def initial : State := ⟨.top, .idle, false, none, none, .zero, []⟩

namespace State

def setSession (s : State) (i : Nat) (v : Session) : State :=
  { s with sessions := s.sessions.set i v }

/-- `sess.Close()`, up to the death of its websocket. -/
def closeSession (s : State) (i : Nat) (v : Session) : State :=
  s.setSession i { v with closed := true }

def setProbe (s : State) (i : Nat) (v : Session) (pc : ProbePc) : State :=
  s.setSession i { v with probe := pc }

end State

/-- `dialAndServe` -/
inductive LoopStep (s : State) : State → Prop
  | topDone : s.loop = .top → s.ctxDone = true → LoopStep s { s with loop := .returned }
  | topDefault : s.loop = .top → s.ctxDone = false → LoopStep s { s with loop := .dialing }
  | dialFailed : s.loop = .dialing → LoopStep s { s with loop := .waiting }
  | dialed : s.loop = .dialing → LoopStep s { s with loop := .smuxClient }
  | smuxFailed : s.loop = .smuxClient → LoopStep s { s with loop := .waiting }
  | smuxClient : s.loop = .smuxClient →
      LoopStep s { s with
        loop := .locking s.sessions.length, sessions := s.sessions ++ [newSession] }
  | lock {i : Nat} : s.loop = .locking i → s.wsConnsMu = none →
      LoopStep s { s with loop := .putting i, wsConnsMu := some .loop }
  | put {i : Nat} : s.loop = .putting i →
      LoopStep s { s with loop := .zeroing i, smuxConn := some i }
  | zero {i : Nat} : s.loop = .zeroing i →
      LoopStep s { s with loop := .unlocking i, channelRTT := .zero }
  | unlock {i : Nat} : s.loop = .unlocking i →
      LoopStep s { s with loop := .firstProbe i, wsConnsMu := none }
  | firstProbe {i : Nat} (rtt : Int) : s.loop = .firstProbe i →
      LoopStep s { s with loop := .starting i, channelRTT := ⟨rtt, some i⟩ }
  | firstProbeFailed {i : Nat} : s.loop = .firstProbe i → LoopStep s { s with loop := .starting i }
  | start {i : Nat} {v : Session} : s.loop = .starting i → s.sessions[i]? = some v →
      LoopStep s { s.setProbe i v .probing with loop := .serving i }
  | selectDone {i : Nat} : s.loop = .serving i → s.ctxDone = true →
      LoopStep s { s with loop := .cancelled i }
  | selectProbe {i : Nat} {v : Session} : s.loop = .serving i → s.sessions[i]? = some v →
      v.probe.reported = true → LoopStep s { s with loop := .closing i }
  | selectDead {i : Nat} {v : Session} : s.loop = .serving i → s.sessions[i]? = some v →
      v.dead = true → LoopStep s { s with loop := .dead i }
  | cancelClose {i : Nat} {v : Session} : s.loop = .cancelled i → s.sessions[i]? = some v →
      LoopStep s { s.closeSession i v with loop := .cancelWait i }
  | cancelReturn {i : Nat} {v : Session} : s.loop = .cancelWait i → s.sessions[i]? = some v →
      v.probe.reported = true → LoopStep s { s with loop := .returned }
  | deadClose {i : Nat} {v : Session} : s.loop = .dead i → s.sessions[i]? = some v →
      LoopStep s { s.closeSession i v with loop := .deadWait i }
  | deadDone {i : Nat} {v : Session} : s.loop = .deadWait i → s.sessions[i]? = some v →
      v.probe.reported = true → LoopStep s { s with loop := .closing i }
  | close {i : Nat} {v : Session} : s.loop = .closing i → s.sessions[i]? = some v →
      LoopStep s { s.closeSession i v with loop := .lockingClear }
  | lockClear : s.loop = .lockingClear → s.wsConnsMu = none →
      LoopStep s { s with loop := .clearing, wsConnsMu := some .loop }
  | clear : s.loop = .clearing → LoopStep s { s with loop := .clearingRTT, smuxConn := none }
  | clearRTT : s.loop = .clearingRTT →
      LoopStep s { s with loop := .unlockingClear, channelRTT := .zero }
  | unlockClear : s.loop = .unlockingClear →
      LoopStep s { s with loop := .waiting, wsConnsMu := none }
  | waitDone : s.loop = .waiting → s.ctxDone = true → LoopStep s { s with loop := .returned }
  | waitAfter : s.loop = .waiting → LoopStep s { s with loop := .top }

/-- `probeChannelRTT` for session `i` -/
inductive ProbeStep (s : State) (i : Nat) (v : Session) : State → Prop
  | probeFailed : v.probe = .probing →
      ProbeStep s i v { s.setProbe i v .checking with channelRTT := ⟨rttProbeTimeout, some i⟩ }
  | isClosed : v.probe = .checking → v.closed = true → ProbeStep s i v (s.setProbe i v .exiting)
  | retry : v.probe = .checking → v.closed = false → ProbeStep s i v (s.setProbe i v .ticking)
  | probed (rtt : Int) : v.probe = .probing →
      ProbeStep s i v { s.setProbe i v .ticking with channelRTT := ⟨rtt, some i⟩ }
  | tick : v.probe = .ticking → ProbeStep s i v (s.setProbe i v .probing)
  -- the deferred function
  | send : v.probe = .exiting → ProbeStep s i v (s.setProbe i v .sent)
  | closeDone : v.probe = .sent → ProbeStep s i v (s.setProbe i v .ended)

/-- `ECHPool.Close` -/
inductive CloseStep (s : State) : State → Prop
  | cancel : s.close = .idle → CloseStep s { s with close := .locking, ctxDone := true }
  | lock : s.close = .locking → s.wsConnsMu = none →
      CloseStep s { s with close := .locked, wsConnsMu := some .close }
  | close {i : Nat} {v : Session} : s.close = .locked → s.smuxConn = some i →
      s.sessions[i]? = some v → CloseStep s { s.closeSession i v with close := .clearing }
  | empty : s.close = .locked → s.smuxConn = none → CloseStep s { s with close := .zeroing }
  | clear : s.close = .clearing → CloseStep s { s with close := .zeroing, smuxConn := none }
  | zero : s.close = .zeroing → CloseStep s { s with close := .unlocking, channelRTT := .zero }
  | unlock : s.close = .unlocking → CloseStep s { s with close := .returned, wsConnsMu := none }

/-- Who takes a step. -/
inductive Agent
  | loop
  | close
  | probe (sess : Nat)
  | websocket (sess : Nat)
  | smux (sess : Nat)

inductive Step : State → Agent → State → Prop
  | loop {s t : State} : LoopStep s t → Step s .loop t
  | close {s t : State} : CloseStep s t → Step s .close t
  | probe {s t : State} {i : Nat} {v : Session} :
      s.sessions[i]? = some v → ProbeStep s i v t → Step s (.probe i) t
  | signalDead {s : State} {i : Nat} {v : Session} : s.sessions[i]? = some v →
      Step s (.websocket i) (s.setSession i { v with dead := true })
  -- a session closes itself when its keepalive times out
  | keepalive {s : State} {i : Nat} {v : Session} : s.sessions[i]? = some v →
      Step s (.smux i) (s.closeSession i v)

/-- The session is closed, and its probe goroutine has reported. -/
def Over (v : Session) : Prop := v.closed = true ∧ v.probe.reported = true

/-- The life cycle of the slot's sessions, at a state and its next step. -/
structure LifeCycle (s : State) : Prop where
  put : ∀ (a : Agent) (t : State) (i j : Nat) (v : Session), Step s a t → t.smuxConn = some i →
    s.smuxConn ≠ some i → s.sessions[j]? = some v → j ≠ i → Over v
  rtt : ∀ (i : Nat), s.smuxConn = some i →
    s.channelRTT.value = 0 ∨ s.channelRTT.storedBy = some i
  closed : s.close = .returned → s.loop = .returned → ∀ v ∈ s.sessions, v.closed = true

variable {s t : State} {i j : Nat} {v w : Session} {a : Agent} {xs : List Agent}

theorem setSession_cases (hv : (s.setSession i w).sessions[j]? = some v) :
    j = i ∧ v = w ∨ j ≠ i ∧ s.sessions[j]? = some v :=
  set_thread_cases hv

/-- The slot is empty, and its RTT is not that of a session. -/
def Blank (s : State) : Prop := s.smuxConn = none ∧ s.channelRTT.value = 0

/-- What holds of the session in hand. -/
def OfSession (s : State) (i : Nat) (P : Session → Prop) : Prop :=
  ∀ v, s.sessions[i]? = some v → P v

/-- What the loop relies on where it stands. -/
def Here (s : State) : Prop :=
  match s.loop with
  | .top | .dialing | .smuxClient | .waiting | .unlockingClear => Blank s
  | .locking i | .putting i => Blank s ∧ OfSession s i (·.probe = .notStarted)
  | .zeroing i | .unlocking i | .firstProbe i | .starting i =>
    OfSession s i (·.probe = .notStarted)
  | .cancelWait i | .deadWait i => OfSession s i (·.closed = true)
  | .closing i => OfSession s i (·.probe.reported = true)
  | .clearingRTT => s.smuxConn = none
  | _ => True

/-- Only the session in hand is alive, and slot and RTT are of the newest session. -/
structure Inv (s : State) : Prop where
  others : ∀ (j : Nat) (v : Session), s.sessions[j]? = some v → s.loop.session ≠ some j → Over v
  inHand : ∀ (i : Nat), s.loop.session = some i → i + 1 = s.sessions.length
  slot : ∀ (i : Nat), s.smuxConn = some i → i + 1 = s.sessions.length
  rtt : s.channelRTT.value = 0 ∨
    ∃ i : Nat, s.channelRTT.storedBy = some i ∧ i + 1 = s.sessions.length
  here : Here s

theorem inv_initial : Inv initial where
  others _ _ h := by simp [initial] at h
  inHand _ h := by cases h
  slot _ h := by cases h
  rtt := .inl rfl
  here := ⟨rfl, rfl⟩

/-- No session comes back to life. -/
def Aged (s t : State) : Prop :=
  t.sessions.length = s.sessions.length ∧
    ∀ (j : Nat) (w : Session), t.sessions[j]? = some w → ∃ v, s.sessions[j]? = some v ∧
      (v.closed = true → w.closed = true) ∧ (v.probe.reported = true → w.probe.reported = true)

theorem aged_refl (h : t.sessions = s.sessions) : Aged s t := by
  refine ⟨congrArg List.length h, ?_⟩
  intro j w hw
  exact ⟨w, h ▸ hw, id, id⟩

theorem aged_setSession (hv : s.sessions[i]? = some v)
    (ht : t.sessions = (s.setSession i w).sessions) (hc : v.closed = true → w.closed = true)
    (hp : v.probe.reported = true → w.probe.reported = true) : Aged s t := by
  refine ⟨by simp [ht, State.setSession], ?_⟩
  intro j u hu
  rw [ht] at hu
  obtain ⟨rfl, rfl⟩ | ⟨-, hu⟩ := setSession_cases hu
  · exact ⟨v, hv, hc, hp⟩
  · exact ⟨u, hu, id, id⟩

theorem aged_closeSession (hv : s.sessions[i]? = some v)
    (ht : t.sessions = (s.closeSession i v).sessions) : Aged s t :=
  aged_setSession hv ht (fun _ => rfl) id

theorem aged_setProbe {pc : ProbePc} (hv : s.sessions[i]? = some v)
    (ht : t.sessions = (s.setProbe i v pc).sessions)
    (hp : v.probe.reported = true → pc.reported = true) : Aged s t :=
  aged_setSession hv ht id hp

theorem ofSession_closeSession {P : Session → Prop}
    (ht : t.sessions = (s.closeSession i v).sessions) (hP : P { v with closed := true }) :
    OfSession t i P := by
  intro u hu
  rw [ht] at hu
  obtain ⟨-, rfl⟩ | ⟨hne, -⟩ := setSession_cases hu
  · exact hP
  · exact absurd rfl hne

theorem Over.aged (hv : Over v) (hc : v.closed = true → w.closed = true)
    (hp : v.probe.reported = true → w.probe.reported = true) : Over w :=
  ⟨hc hv.1, hp hv.2⟩

/-- A step that keeps the session in hand, and stores nothing of another one. -/
theorem Inv.keep (hs : Inv s) (ha : Aged s t) (hl : t.loop.session = s.loop.session)
    (hslot : ∀ (i : Nat), t.smuxConn = some i → s.smuxConn = some i ∨ s.loop.session = some i)
    (hrtt : t.channelRTT.value = 0 ∨ t.channelRTT = s.channelRTT ∨
      ∃ i : Nat, t.channelRTT.storedBy = some i ∧ s.loop.session = some i)
    (hh : Here t) : Inv t where
  others j w hw hne := by
    obtain ⟨v, hv, hc, hp⟩ := ha.2 j w hw
    rw [hl] at hne
    exact (hs.others j v hv hne).aged hc hp
  inHand i hi := by
    rw [ha.1]
    exact hs.inHand i (hl ▸ hi)
  slot i hi := by
    rw [ha.1]
    rcases hslot i hi with h | h
    · exact hs.slot i h
    · exact hs.inHand i h
  rtt := by
    rw [ha.1]
    rcases hrtt with h | h | ⟨i, hst, hi⟩
    · exact .inl h
    · rw [h]
      exact hs.rtt
    · exact .inr ⟨i, hst, hs.inHand i hi⟩
  here := hh

/-- The loop lets go of a session that is over. -/
theorem Inv.release (hs : Inv s) (ha : Aged s t) (hl : t.loop.session = none)
    (hover : ∀ i, s.loop.session = some i → OfSession t i Over)
    (hslot : t.smuxConn = s.smuxConn) (hrtt : t.channelRTT = s.channelRTT) (hh : Here t) :
    Inv t where
  others j w hw _ := by
    by_cases hj : s.loop.session = some j
    · exact hover j hj w hw
    · obtain ⟨v, hv, hc, hp⟩ := ha.2 j w hw
      exact (hs.others j v hv hj).aged hc hp
  inHand i hi := by
    rw [hl] at hi
    cases hi
  slot i hi := by
    rw [ha.1]
    exact hs.slot i (hslot ▸ hi)
  rtt := by
    rw [ha.1, hrtt]
    exact hs.rtt
  here := hh

/-- A new session, while the slot is empty. -/
theorem Inv.create (hs : Inv s) (hpc : s.loop = .smuxClient) :
    Inv { s with loop := .locking s.sessions.length, sessions := s.sessions ++ [newSession] } := by
  have hblank : Blank s := by
    have := hs.here
    rw [Here, hpc] at this
    exact this
  constructor
  case others =>
    intro j w hw hne
    obtain ⟨rfl, -⟩ | ⟨-, hw⟩ := snoc_thread_cases hw
    · exact absurd rfl hne
    · exact hs.others j w hw (by simp [hpc, LoopPc.session])
  case inHand =>
    intro i hi
    cases hi
    simp
  case slot =>
    intro i hi
    rw [show _ = s.smuxConn from rfl, hblank.1] at hi
    cases hi
  case rtt => exact .inl hblank.2
  case here =>
    refine ⟨hblank, ?_⟩
    intro v hv
    simp at hv
    subst hv
    rfl

theorem Inv.move {pc : LoopPc} {mu : Option Holder} (hs : Inv s)
    (hl : pc.session = s.loop.session) (hh : Here { s with loop := pc, wsConnsMu := mu }) :
    Inv { s with loop := pc, wsConnsMu := mu } :=
  hs.keep (aged_refl rfl) hl (fun _ h => .inl h) (.inr (.inl rfl)) hh

theorem inv_loop (hst : LoopStep s t) (hs : Inv s) : Inv t := by
  have hh := hs.here
  unfold Here at hh
  cases hst with
  | topDone hpc _ | selectDone hpc _ | selectDead hpc hv _ | lockClear hpc _ | waitDone hpc _ =>
    exact hs.move (by rw [hpc]; rfl) trivial
  | topDefault hpc _ | dialFailed hpc | dialed hpc | smuxFailed hpc | lock hpc _ | unlock hpc
  | firstProbeFailed hpc | unlockClear hpc | waitAfter hpc =>
    rw [hpc] at hh
    exact hs.move (by rw [hpc]; rfl) hh
  | smuxClient hpc => exact hs.create hpc
  | @put i hpc =>
    rw [hpc] at hh
    refine hs.keep (aged_refl rfl) (by rw [hpc]; rfl) ?_ (.inr (.inl rfl)) hh.2
    intro j hj
    cases hj
    exact .inr (by rw [hpc]; rfl)
  | zero hpc =>
    rw [hpc] at hh
    exact hs.keep (aged_refl rfl) (by rw [hpc]; rfl) (fun _ h => .inl h) (.inl rfl) hh
  | @firstProbe i rtt hpc =>
    rw [hpc] at hh
    exact hs.keep (aged_refl rfl) (by rw [hpc]; rfl) (fun _ h => .inl h)
      (.inr (.inr ⟨i, rfl, by rw [hpc]; rfl⟩)) hh
  | start hpc hv =>
    rw [hpc] at hh
    -- a goroutine that has not been started has not reported
    have hnew := hh _ hv
    exact hs.keep (aged_setProbe hv rfl (by simp [hnew, ProbePc.reported]))
      (by rw [hpc]; rfl) (fun _ h => .inl h) (.inr (.inl rfl)) trivial
  | selectProbe hpc hv hrep | deadDone hpc hv hrep =>
    refine hs.move (by rw [hpc]; rfl) ?_
    intro u hu
    cases hv.symm.trans hu
    exact hrep
  | cancelClose hpc hv | deadClose hpc hv =>
    exact hs.keep (aged_closeSession hv rfl) (by rw [hpc]; rfl) (fun _ h => .inl h)
      (.inr (.inl rfl)) (ofSession_closeSession rfl rfl)
  | cancelReturn hpc hv hrep =>
    rw [hpc] at hh
    refine hs.release (aged_refl rfl) rfl ?_ rfl rfl trivial
    intro j hj u hu
    rw [hpc] at hj
    cases hj
    cases hv.symm.trans hu
    -- the session was closed before the loop waited for its goroutine
    exact ⟨hh _ hv, hrep⟩
  | @close i v hpc hv =>
    rw [hpc] at hh
    refine hs.release (aged_closeSession hv rfl) rfl ?_ rfl rfl trivial
    intro j hj
    rw [hpc] at hj
    cases hj
    exact ofSession_closeSession rfl ⟨rfl, hh v hv⟩
  | clear hpc =>
    exact hs.keep (aged_refl rfl) (by rw [hpc]; rfl) (fun _ h => nomatch h) (.inr (.inl rfl)) rfl
  | clearRTT hpc =>
    rw [hpc] at hh
    exact hs.keep (aged_refl rfl) (by rw [hpc]; rfl) (fun _ h => .inl h) (.inl rfl) ⟨hh, rfl⟩

/-- A step that the loop does not take. The RTT is zeroed, or stored by a goroutine that the loop
has started. -/
structure Aside (s t : State) : Prop where
  loop : t.loop = s.loop
  aged : Aged s t
  unprobed : ∀ (i : Nat), OfSession s i (·.probe = .notStarted) →
    OfSession t i (·.probe = .notStarted)
  slot : t.smuxConn = s.smuxConn ∨ t.smuxConn = none
  rtt : t.channelRTT.value = 0 ∨ t.channelRTT = s.channelRTT ∨
    ∃ (i : Nat) (v : Session), t.channelRTT.storedBy = some i ∧ s.sessions[i]? = some v ∧
      v.probe ≠ .notStarted ∧ v.probe.reported = false

/-- The goroutine that stores an RTT is that of the session in hand. -/
theorem Inv.owner (hs : Inv s) (hv : s.sessions[i]? = some v) (hrep : v.probe.reported = false) :
    s.loop.session = some i := by
  by_cases hi : s.loop.session = some i
  · exact hi
  · rw [(hs.others i v hv hi).2] at hrep
    cases hrep

theorem here_aside (hs : Inv s) (ha : Aside s t) : Here t := by
  have hh := hs.here
  have hblank (hb : Blank s) (hz : s.loop.session = none ∨ ∃ i, s.loop.session = some i ∧
      OfSession s i (·.probe = .notStarted)) : Blank t := by
    refine ⟨?_, ?_⟩
    · rcases ha.slot with h | h
      · exact h.trans hb.1
      · exact h
    · rcases ha.rtt with h | h | ⟨i, v, -, hv, hne, hrep⟩
      · exact h
      · rw [h]
        exact hb.2
      · have hi := hs.owner hv hrep
        rcases hz with hz | ⟨j, hj, hnew⟩
        · rw [hz] at hi
          cases hi
        · rw [hi] at hj
          cases hj
          exact absurd (hnew v hv) hne
  have hage {P : Session → Prop} {i : Nat}
      (hP : ∀ v w : Session, (v.closed = true → w.closed = true) →
        (v.probe.reported = true → w.probe.reported = true) → P v → P w)
      (h : OfSession s i P) : OfSession t i P := by
    intro w hw
    obtain ⟨v, hv, hc, hp⟩ := ha.aged.2 i w hw
    exact hP v w hc hp (h v hv)
  unfold Here at hh ⊢
  rw [ha.loop]
  cases hpc : s.loop with
  | top | dialing | smuxClient | waiting | unlockingClear =>
    rw [hpc] at hh
    exact hblank hh (.inl (by rw [hpc]; rfl))
  | locking i | putting i =>
    rw [hpc] at hh
    exact ⟨hblank hh.1 (.inr ⟨i, by rw [hpc]; rfl, hh.2⟩), ha.unprobed i hh.2⟩
  | zeroing i | unlocking i | firstProbe i | starting i =>
    rw [hpc] at hh
    exact ha.unprobed i hh
  | cancelWait i | deadWait i =>
    rw [hpc] at hh
    exact hage (fun _ _ hc _ hv => hc hv) hh
  | closing i =>
    rw [hpc] at hh
    exact hage (fun _ _ _ hp hv => hp hv) hh
  | clearingRTT =>
    rw [hpc] at hh
    rcases ha.slot with h | h
    · exact h.trans hh
    · exact h
  | serving _ | cancelled _ | dead _ | lockingClear | clearing | returned => trivial

theorem inv_aside (hs : Inv s) (ha : Aside s t) : Inv t := by
  refine hs.keep ha.aged (by rw [ha.loop]) ?_ ?_ (here_aside hs ha)
  · intro i hi
    rcases ha.slot with h | h
    · exact .inl (h ▸ hi)
    · rw [h] at hi
      cases hi
  · rcases ha.rtt with h | h | ⟨i, v, hst, hv, -, hrep⟩
    · exact .inl h
    · exact .inr (.inl h)
    · exact .inr (.inr ⟨i, hst, hs.owner hv hrep⟩)

theorem unprobed_setSession (hv : s.sessions[i]? = some v)
    (ht : t.sessions = (s.setSession i w).sessions)
    (hp : v.probe = .notStarted → w.probe = .notStarted) (h : OfSession s j (·.probe = .notStarted)) :
    OfSession t j (·.probe = .notStarted) := by
  intro u hu
  rw [ht] at hu
  obtain ⟨rfl, rfl⟩ | ⟨-, hu⟩ := setSession_cases hu
  · exact hp (h v hv)
  · exact h u hu

theorem aside_close (hst : CloseStep s t) : Aside s t := by
  cases hst with
  | cancel _ | lock _ _ | empty _ _ | unlock _ =>
    exact ⟨rfl, aged_refl rfl, fun _ h => h, .inl rfl, .inr (.inl rfl)⟩
  | close _ _ hv =>
    exact ⟨rfl, aged_closeSession hv rfl, fun _ => unprobed_setSession hv rfl id, .inl rfl,
      .inr (.inl rfl)⟩
  | clear _ => exact ⟨rfl, aged_refl rfl, fun _ h => h, .inr rfl, .inr (.inl rfl)⟩
  | zero _ => exact ⟨rfl, aged_refl rfl, fun _ h => h, .inl rfl, .inl rfl⟩

theorem aside_probe (hv : s.sessions[i]? = some v) (hst : ProbeStep s i v t) : Aside s t := by
  cases hst with
  | probeFailed hp | probed _ hp =>
    exact ⟨rfl, aged_setProbe hv rfl (by simp [hp, ProbePc.reported]),
      fun _ => unprobed_setSession hv rfl (by simp [hp]), .inl rfl,
      .inr (.inr ⟨i, v, rfl, hv, by simp [hp], by simp [hp, ProbePc.reported]⟩)⟩
  | isClosed hp _ | retry hp _ | tick hp | send hp | closeDone hp =>
    exact ⟨rfl, aged_setProbe hv rfl (by simp [hp, ProbePc.reported]),
      fun _ => unprobed_setSession hv rfl (by simp [hp]), .inl rfl, .inr (.inl rfl)⟩

theorem Step.cases_aside (hst : Step s a t) : LoopStep s t ∨ Aside s t := by
  cases hst with
  | loop h => exact .inl h
  | close h => exact .inr (aside_close h)
  | probe hv h => exact .inr (aside_probe hv h)
  | signalDead hv =>
    exact .inr ⟨rfl, aged_setSession hv rfl id id, fun _ => unprobed_setSession hv rfl id, .inl rfl,
      .inr (.inl rfl)⟩
  | keepalive hv =>
    exact .inr ⟨rfl, aged_closeSession hv rfl, fun _ => unprobed_setSession hv rfl id, .inl rfl,
      .inr (.inl rfl)⟩

theorem inv_step : Preserves Step Inv := by
  intro s a t hst hs
  rcases hst.cases_aside with h | h
  · exact inv_loop h hs
  · exact inv_aside hs h

/-- Only the loop puts a session into the slot, the one in its hand. -/
theorem putting_of_put (hst : Step s a t) (hi : t.smuxConn = some i) (hne : s.smuxConn ≠ some i) :
    s.loop = .putting i := by
  rcases hst.cases_aside with h | h
  · cases h with
    | put hpc =>
      cases hi
      exact hpc
    | clear _ => cases hi
    | _ => exact absurd hi hne
  · rcases h.slot with hslot | hslot
    · exact absurd (hslot.symm.trans hi) hne
    · rw [hslot] at hi
      cases hi

theorem Inv.lifeCycle (hs : Inv s) : LifeCycle s where
  put a t i j v hst hi hne hv hj := by
    refine hs.others j v hv ?_
    rw [putting_of_put hst hi hne]
    exact fun h => hj (Option.some.inj h).symm
  rtt i hi := by
    rcases hs.rtt with h | ⟨j, hst, hj⟩
    · exact .inl h
    · have hij := hs.slot i hi
      have heq : j = i := by omega
      exact .inr (heq ▸ hst)
  closed _ hl v hv := by
    obtain ⟨j, hj⟩ := List.getElem?_of_mem hv
    exact (hs.others j v hj (by simp [hl, LoopPc.session])).1

/-- The loop dials a session and takes the lock to put it. -/
theorem dialed (hpc : s.loop = .top) (hd : s.ctxDone = false) (hmu : s.wsConnsMu = none) :
    Run Step s [.loop, .loop, .loop, .loop] { s with
      loop := .putting s.sessions.length, wsConnsMu := some .loop
      sessions := s.sessions ++ [newSession] } :=
  .stepL (.loop (.topDefault hpc hd)) <| .stepL (.loop (.dialed rfl)) <|
    .stepL (.loop (.smuxClient rfl)) <| .single (.loop (.lock rfl hmu))

/-- The session that is put is measured and served. -/
theorem served (hpc : s.loop = .putting i) (hv : s.sessions[i]? = some v) (rtt : Int) :
    Run Step s [.loop, .loop, .loop, .loop, .loop] { s.setProbe i v .probing with
      loop := .serving i, wsConnsMu := none, smuxConn := some i, channelRTT := ⟨rtt, some i⟩ } :=
  .stepL (.loop (.put hpc)) <| .stepL (.loop (.zero rfl)) <| .stepL (.loop (.unlock rfl)) <|
    .stepL (.loop (.firstProbe rtt rfl)) <| .single (.loop (.start (i := i) (v := v) rfl hv))

/-- The first session's websocket dies, its goroutine reports, and the loop clears the slot. -/
theorem reconnected : ∃ xs, Run Step
    ⟨.serving 0, .idle, false, none, some 0, ⟨7, some 0⟩, [⟨false, false, .probing⟩]⟩ xs
    ⟨.top, .idle, false, none, none, .zero, [⟨true, true, .sent⟩]⟩ :=
  ⟨_, .stepL (.signalDead (i := 0) (v := ⟨false, false, .probing⟩) rfl) <|
    .stepL (.loop (.selectDead (i := 0) (v := ⟨false, true, .probing⟩) rfl rfl rfl)) <|
    .stepL (.loop (.deadClose (i := 0) (v := ⟨false, true, .probing⟩) rfl rfl)) <|
    .stepL (.probe (i := 0) (v := ⟨true, true, .probing⟩) rfl (.probeFailed rfl)) <|
    .stepL (.probe (i := 0) (v := ⟨true, true, .checking⟩) rfl (.isClosed rfl rfl)) <|
    .stepL (.probe (i := 0) (v := ⟨true, true, .exiting⟩) rfl (.send rfl)) <|
    .stepL (.loop (.deadDone (i := 0) (v := ⟨true, true, .sent⟩) rfl rfl rfl)) <|
    .stepL (.loop (.close (i := 0) (v := ⟨true, true, .sent⟩) rfl rfl)) <|
    .stepL (.loop (.lockClear rfl rfl)) <| .stepL (.loop (.clear rfl)) <|
    .stepL (.loop (.clearRTT rfl)) <| .stepL (.loop (.unlockClear rfl)) <|
    .single (.loop (.waitAfter rfl))⟩

/-- A run to the second put, with the first goroutine about to close its channel. -/
theorem second_put : ∃ xs, Run Step initial xs
    ⟨.putting 1, .idle, false, some .loop, none, .zero, [⟨true, true, .sent⟩, newSession]⟩ := by
  have hdial := dialed (s := initial) rfl rfl rfl
  have hserve := served (s := { initial with
    loop := .putting 0, wsConnsMu := some .loop, sessions := [newSession] }) rfl rfl 7
  obtain ⟨xs, hclear⟩ := reconnected
  have hagain := dialed
    (s := ⟨.top, .idle, false, none, none, .zero, [⟨true, true, .sent⟩]⟩) rfl rfl rfl
  exact ⟨_, hdial.append (hserve.append (hclear.append hagain))⟩

/-- Every run keeps to the life cycle. -/
theorem life_cycle (h : Run Step initial xs s) : LifeCycle s :=
  (h.invariant inv_step inv_initial).lifeCycle

theorem life_cycle_second_put : ∃ xs s, Run Step initial xs s ∧ s.loop = .putting 1 ∧
    s.sessions.length = 2 ∧ LifeCycle s := by
  obtain ⟨xs, h⟩ := second_put
  exact ⟨xs, _, h, rfl, rfl, life_cycle h⟩

/-- A goroutine that has sent may still have to close its channel when the next session is put. -/
theorem put_before_ended : ¬ ∀ (xs : List Agent) (s t : State) (a : Agent) (i j : Nat)
    (v : Session), Run Step initial xs s → Step s a t → t.smuxConn = some i →
    s.smuxConn ≠ some i → s.sessions[j]? = some v → j ≠ i →
    v.closed = true ∧ v.probe = .ended := by
  intro hall
  obtain ⟨xs, h⟩ := second_put
  have hend := hall xs _ _ .loop 1 0 ⟨true, true, .sent⟩ h (.loop (.put rfl)) rfl (by decide) rfl
    (by decide)
  cases hend.2

end XTunnel.Service.Slot
