import XTunnel.Service.Launch

/-! When the clients of a service open their streams on the pool of that service. -/
namespace XTunnel.Service

open Net Socks5

variable {parse : Text → Option Url} {s t : State} {a : Action} {xs : List Action} {k : Nat}
  {h : Handler} {pc pc' : HandlerPc} {gen : GenId} {g : Globals} {cfgp : ProxyConfig}

namespace HandlerPc

/-- The handler has still to read the global `echPool`. -/
def pending : HandlerPc → Bool
  | .handshake | .connect _ | .replied _ | .udpAssociate => true
  | _ => false

/-- An association holds the pool of its generation. -/
def Bound (gen : GenId) : HandlerPc → Prop
  | .associated pool _ => pool = some gen
  | _ => True

end HandlerPc

/-- Every stream was asked of the pool of the generation that accepted the client. -/
def Separate (s : State) : Prop := ∀ c ∈ s.calls, c.pool = some c.gen

/-- A stop takes the pool away, and a client is accepted, only while no client is left to read
another pool than its own. -/
def Drained (s : State) : Action → Prop
  | .stopClear => ∀ h ∈ s.handlers, h.pc.pending = false
  | .accept gen => s.globals.echPool = some gen
  | _ => True

/-- The call has made its pool and has not returned. -/
def State.starting (s : State) : Bool :=
  match s.serviceMu with
  | some (.startPool _) | some (.listen _) | some (.closePool _) | some (.abandon _)
  | some (.publish _) | some (.serve _) => true
  | _ => false

structure Routed (s : State) : Prop where
  pending : ∀ h ∈ s.handlers, h.pc.pending = true → s.globals.echPool = some h.gen
  quiet : s.starting = true → ∀ h ∈ s.handlers, h.pc.pending = false
  bound : ∀ h ∈ s.handlers, h.pc.Bound h.gen
  calls : Separate s

theorem handlerStep_pending (hs : HandlerStep g cfgp pc pc') (hp : pc'.pending = true) :
    pc.pending = true := by
  cases hs with
  | handshake | reply | replyFail | noRelay | associate => rfl
  | _ => cases hp

theorem handlerStep_bound (hs : HandlerStep g cfgp pc pc') (hb : pc.Bound gen)
    (hp : pc.pending = true → g.echPool = some gen) : pc'.Bound gen := by
  cases hs with
  | handshake input =>
    generalize (handleSOCKS5 g.ipStrategy cfgp input).2 = outcome
    cases outcome <;> trivial
  | associate => exact hp rfl
  | assoc _ _ => exact hb
  | _ => trivial

/-- While a pool is being started, its listener takes no client. -/
theorem not_accepting_of_starting {gen : Nat} {g : Generation} (hs : s.Stage)
    (hst : s.starting = true) (hp : s.globals.echPool = some gen)
    (hg : s.generations[gen]? = some g) : g.listener ≠ .accepting := by
  have hl : ∃ l, s.ListenerIs gen l ∧ l ≠ .accepting := by
    unfold State.starting at hst
    unfold State.Stage at hs
    split at hst
    case h_7 => cases hst
    all_goals
      rename_i hm
      simp only [hm] at hs
      obtain rfl := Option.some_inj.mp (hp.symm.trans hs.2.1)
      exact ⟨_, hs.2.2, by decide⟩
  obtain ⟨l, ⟨g', hg', rfl⟩, hne⟩ := hl
  obtain rfl := Option.some_inj.mp (hg'.symm.trans hg)
  exact hne

/-- A stopped service has no client left to read the pool. -/
theorem Routed.quiet_of_stopped (hs : Routed s) (hst : s.Stopped) (hm : h ∈ s.handlers) :
    h.pc.pending = false := by
  by_contra hp
  have he := hs.pending h hm (by simpa using hp)
  rw [hst.2] at he
  cases he

theorem routed_callStep (hc : CallStep parse s a t) (hd : Drained s a) (hi : ServiceInv s)
    (hs : Routed s) : Routed t := by
  obtain ⟨hh, hca, -, -⟩ := callStep_sameClients hc
  have hst := hi.stage
  refine ⟨?_, ?_, hh ▸ hs.bound, fun c hm => hs.calls c (hca ▸ hm)⟩
  · rw [hh]
    intro h hm hp
    have he := hs.pending h hm hp
    cases hc with
    | @configure args scheme setting hmu => cases setting <;> exact he
    | newPool uuid hmu =>
      simp only [State.Stage, hmu] at hst
      exact absurd (hs.quiet_of_stopped hst hm) (by simp [hp])
    | abandon hmu =>
      exact absurd (hs.quiet (by simp only [State.starting, hmu]) h hm) (by simp [hp])
    | stopClear hmu => exact absurd (hd h hm) (by simp [hp])
    | @stopListener l p hmu => cases l <;> exact he
    | @stopPool p hmu => cases p <;> exact he
    | _ => exact he
  · rw [hh]
    intro hq
    cases hc with
    | newPool uuid hmu =>
      simp only [State.Stage, hmu] at hst
      exact fun h hm => hs.quiet_of_stopped hst hm
    | startPool hmu _ | listen hmu | listenFail hmu | closePool hmu | publish hmu =>
      exact hs.quiet (by simp only [State.starting, hmu])
    | @configure args scheme setting hmu => cases setting <;> cases hq
    | @stopPool p hmu => cases p <;> cases hq
    | _ => cases hq

theorem routed_goStep (hg : GoStep parse s a t) (hd : Drained s a) (hi : ServiceInv s)
    (hs : Routed s) : Routed t := by
  obtain ⟨hp, hq, hb, hc⟩ := hs
  cases hg with
  | @accept gen g hgen hl =>
    refine ⟨?_, ?_, ?_, hc⟩
    · intro h hm hpe
      rcases List.mem_append.mp hm with hm | hm
      · exact hp h hm hpe
      · obtain rfl := List.mem_singleton.mp hm
        exact hd
    · intro hst
      exact absurd hl (not_accepting_of_starting hi.stage hst hd hgen)
    · intro h hm
      rcases List.mem_append.mp hm with hm | hm
      · exact hb h hm
      · obtain rfl := List.mem_singleton.mp hm
        trivial
  | @handler k h g pc hk hgen hst =>
    have hm := List.mem_of_getElem? hk
    refine ⟨forall_mem_set hp fun hpe => hp h hm (handlerStep_pending hst hpe), ?_,
      forall_mem_set hb (handlerStep_bound hst (hb h hm) (hp h hm)), hc⟩
    intro hq'
    refine forall_mem_set (hq hq') (Bool.eq_false_iff.mpr fun hpe => ?_)
    exact Bool.false_ne_true ((hq hq' h hm).symm.trans (handlerStep_pending hst hpe))
  | @openTCP k h target hk hpc =>
    have hm := List.mem_of_getElem? hk
    have he := hp h hm (by rw [hpc]; rfl)
    refine ⟨forall_mem_set hp ?_, fun hq' => forall_mem_set (hq hq') ?_, forall_mem_set hb ?_, ?_⟩
    · rw [he]
      intro hpe
      cases hpe
    · rw [he]
      rfl
    · rw [he]
      trivial
    · rintro c (_ | ⟨_, hc'⟩)
      · exact he
      · exact hc c hc'
  | @openUDP k h pool a a' act b target data hk hpc hapc hst ho =>
    have hm := List.mem_of_getElem? hk
    have he : pool = some h.gen := by
      have := hb h hm
      rwa [hpc] at this
    refine ⟨forall_mem_set hp ?_, fun hq' => forall_mem_set (hq hq') rfl, forall_mem_set hb he, ?_⟩
    · intro hpe
      cases hpe
    · rintro c (_ | ⟨_, hc'⟩)
      · exact he
      · exact hc c hc'
  | _ => exact ⟨hp, hq, hb, hc⟩

theorem routed_step (hst : Step parse s a t) (hd : Drained s a) (hi : ServiceInv s)
    (hs : Routed s) : Routed t := by
  cases hst with
  | call _ hc => exact routed_callStep hc hd hi hs
  | go _ hg => exact routed_goStep hg hd hi hs

theorem routed_initial : Routed initial := by
  constructor
  · intro h hm
    cases hm
  · intro hs
    cases hs
  · intro h hm
    cases hm
  · intro c hm
    cases hm

theorem routed_run (hr : Run (Guarded (Step parse) Drained) initial xs s) :
    ServiceInv s ∧ Routed s := by
  have hp : Preserves (Guarded (Step parse) Drained) fun s => ServiceInv s ∧ Routed s := by
    rintro s a t ⟨hd, hst⟩ ⟨hi, hs⟩
    exact ⟨serviceInv_step hst hi, routed_step hst hd hi hs⟩
  have h := hr.invariant hp ⟨serviceInv_initial, routed_initial⟩
  exact h

/-- Every client was accepted by a service. -/
def HandlersKnown (s : State) : Prop := ∀ h ∈ s.handlers, ∃ g, s.generations[h.gen]? = some g

theorem handlersKnown_step (hst : Step parse s a t) (hs : HandlersKnown s) : HandlersKnown t := by
  intro h hm
  have hold : (∃ h' ∈ s.handlers, h'.gen = h.gen) ∨ ∃ g, s.generations[h.gen]? = some g := by
    cases hst with
    | call _ hc =>
      rw [(callStep_sameClients hc).handlers] at hm
      exact Or.inl ⟨h, hm, rfl⟩
    | go _ hg =>
      cases hg with
      | @accept gen g hgen hl =>
        rcases List.mem_append.mp hm with hm | hm
        · exact Or.inl ⟨h, hm, rfl⟩
        · obtain rfl := List.mem_singleton.mp hm
          exact Or.inr ⟨g, hgen⟩
      | handler hk _ _ | openTCP hk _ | openUDP hk _ _ _ _ =>
        rcases List.mem_or_eq_of_mem_set hm with hm | rfl
        · exact Or.inl ⟨h, hm, rfl⟩
        · exact Or.inl ⟨_, List.mem_of_getElem? hk, rfl⟩
      | _ => exact Or.inl ⟨h, hm, rfl⟩
  have hgen : ∃ g, s.generations[h.gen]? = some g := by
    rcases hold with ⟨h', hm', he⟩ | hg
    · exact he ▸ hs h' hm'
    · exact hg
  obtain ⟨g, hg⟩ := hgen
  obtain ⟨g', hg', -⟩ := generation_step hst hg
  exact ⟨g', hg'⟩

theorem handlersKnown_reachable (hr : ReachableState parse s) : HandlersKnown s := by
  refine Reachable.invariant (fun _ _ _ => handlersKnown_step) ?_ hr
  rintro _ rfl h hm
  cases hm

theorem setHandler_get (hk : s.handlers[k]? = some h) :
    (s.setHandler k h pc).handlers[k]? = some { h with pc := pc } := by
  obtain ⟨hlt, -⟩ := List.getElem?_eq_some_iff.mp hk
  exact List.getElem?_set_self hlt

/-- A datagram to port 0 of the domain `abc`, which every filter lets through. -/
def toPortZero : Text := [0, 0, 0, 3, 3, 97, 98, 99, 0, 0]

theorem toPortZero_sent (cfg : Config) :
    loopVerdict cfg toPortZero = .send [97, 98, 99, 58, 48] [] := by
  have hp : parseSOCKS5UDPPacket toPortZero = .ok ([97, 98, 99, 58, 48], []) := rfl
  have hs : splitHostPort [97, 98, 99, 58, 48] = some ([97, 98, 99], [48]) := rfl
  rw [loopVerdict_split hp hs, if_neg, if_neg]
  · intro hm
    have hr := cfg.udpBlockPorts.range _ hm
    exact absurd hr.1 (by decide)
  · have hn : parseIP [97, 98, 99] = none := rfl
    rw [hn]
    exact Bool.false_ne_true

/-- An association that has read the datagram. -/
def readPortZero : Udp.State :=
  { Udp.initial with pc := .locking [] toPortZero, received := [([], toPortZero)] }

/-- A CONNECT request for the domain `a`, port 80, after an empty offer of methods. -/
def connectA : Text := [5, 0, 5, 1, 0, 3, 1, 97, 0, 80]

theorem connectA_outcome (st : IPStrategy) (host : Text) :
    (handleSOCKS5 st ⟨[], [], host⟩ connectA).2 = .connect [97, 58, 56, 48] [] := by
  cases st <;> rfl

/-- A client whose service is no longer the published one can open a stream elsewhere. -/
def Strays (parse : Text → Option Url) (s : State) : Prop :=
  ∃ xs t, Run (Step parse) s xs t ∧ ¬ Separate t

theorem Strays.of_step (hst : Step parse s a t) (hs : Strays parse t) : Strays parse s := by
  obtain ⟨xs, u, hr, hn⟩ := hs
  exact ⟨a :: xs, u, .stepL hst hr, hn⟩

theorem strays_replied {target : Text} (hc : s.crashed = false) (hk : s.handlers[k]? = some h)
    (hpc : h.pc = .replied target) (he : s.globals.echPool ≠ some h.gen) : Strays parse s :=
  ⟨_, _, .single (.go hc (.openTCP hk hpc)), fun hsep => he (hsep _ List.mem_cons_self)⟩

theorem strays_connect {target : Text} {g : Generation} (hc : s.crashed = false)
    (hk : s.handlers[k]? = some h) (hg : s.generations[h.gen]? = some g)
    (hpc : h.pc = .connect target) (he : s.globals.echPool ≠ some h.gen) : Strays parse s := by
  have hst : HandlerStep s.globals ⟨[], [], g.args.host⟩ h.pc (.replied target) := hpc ▸ .reply
  exact .of_step (.go hc (.handler hk hg hst)) (strays_replied hc (setHandler_get hk) rfl he)

theorem strays_handshake {g : Generation} (hc : s.crashed = false)
    (hk : s.handlers[k]? = some h) (hg : s.generations[h.gen]? = some g)
    (hpc : h.pc = .handshake) (he : s.globals.echPool ≠ some h.gen) : Strays parse s := by
  have hst : HandlerStep s.globals ⟨[], [], g.args.host⟩ h.pc (.connect [97, 58, 56, 48]) := by
    have hin : HandlerStep s.globals ⟨[], [], g.args.host⟩ .handshake _ := .handshake connectA
    rwa [connectA_outcome, ← hpc] at hin
  exact .of_step (.go hc (.handler hk hg hst)) (strays_connect hc (setHandler_get hk) hg rfl he)

/-- An association sends its first datagram on the pool that it was given. -/
theorem strays_associated {pool : Option GenId} {g : Generation} (hc : s.crashed = false)
    (hk : s.handlers[k]? = some h) (hg : s.generations[h.gen]? = some g)
    (hpc : h.pc = .associated pool Udp.initial) (he : pool ≠ some h.gen) : Strays parse s := by
  have hgo : ∀ {u : State} {h' : Handler} {a a' : Udp.State} {act : Udp.Action},
      u.crashed = false → u.handlers[k]? = some h' → u.generations[h'.gen]? = some g →
      h'.pc = .associated pool a → Udp.Step u.globals.config a act a' → opensStream act = false →
      Strays parse (u.setHandler k h' (.associated pool a')) → Strays parse u :=
    fun hc hk hg hpc hst ho => .of_step (.go hc (.handler hk hg (hpc ▸ .assoc hst ho)))
  have hlock : (readPortZero.afterLock s.globals.config [] toPortZero).pc =
      .sending toPortZero [97, 98, 99, 58, 48] [] := by
    simp [readPortZero, Udp.State.afterLock, Udp.initial, toPortZero_sent]
  refine hgo hc hk hg hpc (.receive [] toPortZero rfl rfl) rfl ?_
  refine hgo hc (setHandler_get hk) hg rfl (@Udp.Step.lock _ readPortZero _ _ rfl) rfl ?_
  refine hgo hc (setHandler_get (setHandler_get hk)) hg rfl (.send hlock rfl) rfl ?_
  exact ⟨_, _, .single (.go hc (.openUDP (setHandler_get (setHandler_get (setHandler_get hk))) rfl
    rfl (.openFail rfl) rfl)), fun hsep => he (hsep _ List.mem_cons_self)⟩

/-- A client that has still to read the pool strays once the pool is not that of its service. -/
theorem strays_of_pending {g : Generation} (hc : s.crashed = false)
    (hk : s.handlers[k]? = some h) (hg : s.generations[h.gen]? = some g)
    (hp : h.pc.pending = true) (he : s.globals.echPool ≠ some h.gen) : Strays parse s := by
  cases hpc : h.pc with
  | handshake => exact strays_handshake hc hk hg hpc he
  | connect target => exact strays_connect hc hk hg hpc he
  | replied target => exact strays_replied hc hk hpc he
  | udpAssociate =>
    have hst : HandlerStep s.globals ⟨[], [], g.args.host⟩ h.pc
        (.associated s.globals.echPool Udp.initial) := hpc ▸ .associate
    exact .of_step (.go hc (.handler hk hg hst))
      (strays_associated hc (setHandler_get hk) hg rfl he)
  | _ =>
    rw [hpc] at hp
    cases hp

/-- The condition on stops is needed: after a step that breaks it, some client can stray. -/
theorem strays_of_undrained (hr : ReachableState parse s) (hst : Step parse s a t)
    (hd : ¬ Drained s a) : Strays parse t := by
  have hkn := handlersKnown_reachable (hr.step hst)
  cases hst with
  | call hc hcall =>
    cases hcall with
    | stopClear hmu =>
      simp only [Drained, not_forall, Bool.not_eq_false] at hd
      obtain ⟨h, hm, hp⟩ := hd
      obtain ⟨k, hk⟩ := List.getElem?_of_mem hm
      obtain ⟨g, hg⟩ := hkn h hm
      exact strays_of_pending hc hk hg hp fun he => by cases he
    | _ => exact (hd trivial).elim
  | go hc hgo =>
    cases hgo with
    | @accept gen g hgen hl =>
      exact strays_of_pending (h := ⟨gen, .handshake⟩) hc List.getElem?_concat_length hgen rfl hd
    | _ => exact (hd trivial).elim

/-- A client of `gen` that has its reply, and whose handler goes on to the pool. -/
def State.requested (s : State) (gen : GenId) : State :=
  { s with handlers := s.handlers ++ [⟨gen, .replied [97, 58, 56, 48]⟩] }

theorem run_request {G : State → Action → Prop} {g : Generation} (hc : s.crashed = false)
    (hg : s.generations[gen]? = some g) (hl : g.listener = .accepting) (hG : G s (.accept gen))
    (hG' : ∀ u k, G u (.handler k)) : ∃ xs, Run (Guarded (Step parse) G) s xs (s.requested gen) := by
  have hlast : (((s.addHandler gen).setHandler s.handlers.length ⟨gen, .handshake⟩
      (.connect [97, 58, 56, 48])).setHandler s.handlers.length ⟨gen, .connect [97, 58, 56, 48]⟩
      (.replied [97, 58, 56, 48])) = s.requested gen := by
    simp [State.setHandler, State.addHandler, State.requested]
  have hin : HandlerStep s.globals ⟨[], [], g.args.host⟩ .handshake _ := .handshake connectA
  rw [connectA_outcome] at hin
  have hk := List.getElem?_concat_length (l := s.handlers) (a := (⟨gen, .handshake⟩ : Handler))
  rw [← hlast]
  exact ⟨_, .stepL ⟨hG, .go hc (.accept hg hl)⟩ <|
    .stepL ⟨hG' _ s.handlers.length, .go hc (.handler hk hg hin)⟩ <|
    .single ⟨hG' _ s.handlers.length, .go hc (.handler (setHandler_get hk) hg .reply)⟩⟩

/-- A client of node A has its stream. -/
def openedA (fetchers : List FetchPc) : State :=
  (((servingA fetchers).requested 0).addCall ⟨0, some 0, .tcp, [97, 58, 56, 48]⟩).setHandler 0
    ⟨0, .replied [97, 58, 56, 48]⟩ (.opening 0)

/-- In a run that drains the clients before each stop, the generations do not mix. -/
theorem generations_separate (hr : Run (Guarded (Step parse) Drained) initial xs s) :
    Separate s :=
  (routed_run hr).2.calls

/-- A client of node A is served, and then the service stops. -/
theorem generations_separate_orderly : ∃ xs s, Run (Guarded (Step parsePlain) Drained) initial xs s ∧
    s.Stopped ∧ s.calls = [⟨0, some 0, .tcp, [97, 58, 56, 48]⟩] ∧ Separate s := by
  have hlaunch : ∀ (u : State) (a : Action), a.launches = true → Drained u a := by
    intro u a ha
    cases a <;> trivial
  obtain ⟨xs, fetchers, hstart⟩ := run_servingA (fun _ _ _ => trivial) hlaunch
  obtain ⟨ys, hreq⟩ : ∃ ys, Run (Guarded (Step parsePlain) Drained) (servingA fetchers) ys
      ((servingA fetchers).requested 0) := run_request rfl rfl rfl rfl fun _ _ => trivial
  have hstop : Run (Guarded (Step parsePlain) Drained) (openedA fetchers)
      [.stop, .stopClear, .stopListener, .stopPool] (openedA fetchers).halted := by
    refine run_stop rfl rfl ?_ fun u => ⟨trivial, trivial, trivial⟩
    intro u hu h hm
    rw [hu] at hm
    obtain rfl := List.mem_singleton.mp hm
    rfl
  have hopen : Guarded (Step parsePlain) Drained ((servingA fetchers).requested 0) (.openTCP 0)
      (openedA fetchers) := ⟨trivial, .go rfl (.openTCP rfl rfl)⟩
  have hrun := hstart.append (hreq.append (.stepL hopen hstop))
  exact ⟨_, _, hrun, ⟨rfl, rfl⟩, rfl, generations_separate hrun⟩

/-- Node A is stopped while its client waits for a stream. -/
def strandedA (fetchers : List FetchPc) : State := ((servingA fetchers).requested 0).halted

/-- A stop comes between the reply to a client of node A and its stream: the pool is nil, or, with
node B started, that of node B. -/
theorem generations_mix :
    (∃ xs s, Run (Step parsePlain) initial xs s ∧ s.crashed = true ∧
      ⟨0, none, .tcp, [97, 58, 56, 48]⟩ ∈ s.calls ∧ ¬ Separate s) ∧
    ∃ xs s, Run (Step parsePlain) initial xs s ∧
      ⟨0, some 1, .tcp, [97, 58, 56, 48]⟩ ∈ s.calls ∧ ¬ Separate s := by
  obtain ⟨xs, fetchers, hstart⟩ := run_servingA (G := Unguarded) (fun _ _ _ => trivial)
    fun _ _ _ => trivial
  obtain ⟨ys, hreq⟩ : ∃ ys, Run (Guarded (Step parsePlain) Unguarded) (servingA fetchers) ys
      ((servingA fetchers).requested 0) := run_request rfl rfl rfl trivial fun _ _ => trivial
  have hstop : Run (Guarded (Step parsePlain) Unguarded) _ _ (strandedA fetchers) :=
    run_stop rfl rfl (fun _ _ => trivial) fun _ => ⟨trivial, trivial, trivial⟩
  have hstopped := hstart.append (hreq.append hstop)
  constructor
  · have hrun := hstopped.of_guarded.stepR
      (.go rfl (@GoStep.openTCP _ (strandedA fetchers) 0 _ _ rfl rfl))
    exact ⟨_, _, hrun, rfl, List.mem_cons_self, fun hsep => by cases hsep _ List.mem_cons_self⟩
  · obtain ⟨zs, fetchers', hnext⟩ : ∃ zs fetchers', Run (Guarded (Step parsePlain) Unguarded)
        (strandedA fetchers) zs ((strandedA fetchers).launched nodeB [2] fetchers') :=
      run_start rfl rfl ⟨rfl, rfl⟩ rfl [2] (fun _ _ _ => trivial)
        fun _ _ _ _ => trivial
    have hrun := (hstopped.append hnext).of_guarded.stepR (.go rfl (@GoStep.openTCP _
      ((strandedA fetchers).launched nodeB [2] fetchers') 0 _ _ rfl rfl))
    exact ⟨_, _, hrun, List.mem_cons_self, fun hsep => by cases hsep _ List.mem_cons_self⟩

end XTunnel.Service
