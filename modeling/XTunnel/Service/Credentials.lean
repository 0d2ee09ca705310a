import XTunnel.Service.Launch

/-! When every websocket dial of a pool carries the token and the TLS mode of its own start. -/
namespace XTunnel.Service

open Net Socks5

variable {parse : Text → Option Url} {s t : State} {a : Action} {xs : List Action} {k : Nat}
  {args : StartArgs} {g g' : Globals} {p : ECHPool} {pc pc' : DialPc} {d : Dialer} {x : Dial}
  {gen gen' : Generation}

/-- The globals hold the settings of a start. -/
structure Agrees (g : Globals) (args : StartArgs) : Prop where
  token : g.token = args.tkn
  fallback : g.fallback = args.fallback
  insecure : g.insecure = args.insecureFlag

structure SameCredentials (g g' : Globals) : Prop where
  token : g'.token = g.token
  fallback : g'.fallback = g.fallback
  insecure : g'.insecure = g.insecure

theorem SameCredentials.refl (g : Globals) : SameCredentials g g := ⟨rfl, rfl, rfl⟩

theorem Agrees.congr (h : Agrees g args) (hs : SameCredentials g g') : Agrees g' args :=
  ⟨hs.token.trans h.token, hs.fallback.trans h.fallback, hs.insecure.trans h.insecure⟩

structure TLSConfig.Follows (c : TLSConfig) (args : StartArgs) : Prop where
  insecure : c.insecureSkipVerify = args.insecureFlag
  verify : c.rejectionVerify = !args.fallback
  echList : c.echConfigList = [] ↔ args.fallback = true

def FollowsTLS (args : StartArgs) : Scheme → Option TLSConfig → Prop
  | .ws, tls => tls = none
  | .wss, tls => ∃ c, tls = some c ∧ c.Follows args

def StartArgs.subprotocols (args : StartArgs) : List Text :=
  if args.tkn = [] then [] else [args.tkn]

/-- The dial carries the address and the settings of the start that made its pool. -/
structure Dial.OwnSettings (x : Dial) (gen : Generation) : Prop where
  addr : x.addr = gen.args.wsServer
  clientID : x.clientID = gen.pool.clientID
  ip : x.ip = gen.pool.channelIP (x.channelID - 1)
  subprotocols : x.subprotocols = gen.args.subprotocols
  tls : FollowsTLS gen.args x.scheme x.tlsClientConfig

def OwnDials (s : State) : Prop :=
  ∀ x ∈ s.dials, ∃ gen, s.generations[x.gen]? = some gen ∧ x.OwnSettings gen

/-- No dial goroutine is inside `dialWebSocketWithECH` when a start changes token, fallback or
insecure. -/
def Quiet (s : State) : Action → Prop
  | .configure args setting =>
    (∀ d ∈ s.dialers, d.pc.inDial = false) ∨
      SameCredentials s.globals (setting.write args s.globals)
  | _ => True

/-- What a dial goroutine of a start has read so far. -/
def DialPc.Own (args : StartArgs) (scheme : Scheme) : DialPc → Prop
  | .top | .waiting | .serving | .returned => True
  | .buildTLS _ | .noTLS _ | .refreshECH _ | .refreshLock _ | .refreshing .. => scheme = .wss
  | .standardTLS _ => scheme = .wss ∧ args.fallback = true
  | .getECHList _ | .lockedList _ => scheme = .wss ∧ args.fallback = false
  | .withECH _ echList => scheme = .wss ∧ args.fallback = false ∧ echList ≠ []
  | .newDialer _ tls => FollowsTLS args scheme tls
  | .subprotocol _ tls => args.tkn ≠ [] ∧ FollowsTLS args scheme tls
  | .dialing _ tls subprotocols => subprotocols = args.subprotocols ∧ FollowsTLS args scheme tls
  | .dialed _ scheme' => scheme' = scheme

/-- Inside `dialWebSocketWithECH`, the globals and all that was read of them are the start's. -/
def DialPc.Follows (parse : Text → Option Url) (g : Globals) (args : StartArgs) (p : ECHPool)
    (pc : DialPc) : Prop :=
  pc.inDial = true → Agrees g args ∧
    ∃ scheme name, endpoint parse p.wsServerAddr = some (scheme, name) ∧ pc.Own args scheme

theorem own_dialStep (h : DialStep parse g p pc pc') (hin : pc'.inDial = true)
    (hf : pc.Follows parse g args p) :
    ∃ scheme name, endpoint parse p.wsServerAddr = some (scheme, name) ∧ pc'.Own args scheme := by
  cases h with
  | plain hc he => exact ⟨_, _, he, rfl⟩
  | secure hc he => exact ⟨_, _, he, rfl⟩
  | done | badAddress | giveUpTLS | connected | failed | wait | waitDone | broken | served =>
    cases hin
  | fallback hfb =>
    obtain ⟨ha, scheme, name, he, ho⟩ := hf rfl
    exact ⟨scheme, name, he, ho, ha.fallback.symm.trans hfb⟩
  | noFallback hfb =>
    obtain ⟨ha, scheme, name, he, ho⟩ := hf rfl
    exact ⟨scheme, name, he, ho, ha.fallback.symm.trans hfb⟩
  | noRoots =>
    obtain ⟨-, scheme, name, he, ho⟩ := hf rfl
    exact ⟨scheme, name, he, ho.1⟩
  | standard he' =>
    obtain ⟨ha, scheme, name, he, rfl, hfb⟩ := hf rfl
    exact ⟨_, name, he, _, rfl, ha.insecure, by simp [buildStandardTLSConfig, hfb],
      by simp [buildStandardTLSConfig, hfb]⟩
  | listFallback hfb =>
    obtain ⟨ha, scheme, name, he, -, hno⟩ := hf rfl
    rw [ha.fallback, hno] at hfb
    cases hfb
  | listLock hfb =>
    obtain ⟨-, scheme, name, he, ho⟩ := hf rfl
    exact ⟨scheme, name, he, ho⟩
  | listEmpty hl =>
    obtain ⟨-, scheme, name, he, ho⟩ := hf rfl
    exact ⟨scheme, name, he, ho.1⟩
  | listRead hl =>
    obtain ⟨-, scheme, name, he, ho⟩ := hf rfl
    exact ⟨scheme, name, he, ho.1, ho.2, hl⟩
  | noRootsECH =>
    obtain ⟨-, scheme, name, he, ho⟩ := hf rfl
    exact ⟨scheme, name, he, ho.1⟩
  | unified he' =>
    obtain ⟨ha, scheme, name, he, rfl, hfb, hl⟩ := hf rfl
    exact ⟨_, name, he, _, rfl, ha.insecure, by simp [buildTLSConfigWithECH, hfb],
      by simp [buildTLSConfigWithECH, hfb, hl]⟩
  | noToken ht =>
    obtain ⟨ha, scheme, name, he, ho⟩ := hf rfl
    exact ⟨scheme, name, he, by rw [StartArgs.subprotocols, ← ha.token, if_pos ht], ho⟩
  | token ht =>
    obtain ⟨ha, scheme, name, he, ho⟩ := hf rfl
    exact ⟨scheme, name, he, by rwa [← ha.token], ho⟩
  | subprotocol =>
    obtain ⟨ha, scheme, name, he, ht, ho⟩ := hf rfl
    exact ⟨scheme, name, he, by rw [StartArgs.subprotocols, if_neg ht, ha.token], ho⟩
  | rejected hfb hi =>
    obtain ⟨-, scheme, name, he, ho⟩ := hf rfl
    exact ⟨scheme, name, he, ho.symm⟩
  | retryTLS | refreshSkipped | refresh | fetch =>
    obtain ⟨-, scheme, name, he, ho⟩ := hf rfl
    exact ⟨scheme, name, he, ho⟩

/-- A goroutine starts to dial only for a pool that is not closed. -/
theorem dialStep_enters (h : DialStep parse g p pc pc') (hin : pc'.inDial = true) :
    pc.inDial = true ∨ p.cancelled = false := by
  cases h with
  | plain hc _ | secure hc _ => exact Or.inr hc
  | _ => first | exact Or.inl rfl | cases hin

/-- What the assignments before this one have left in the globals. -/
def Setting.Done (args : StartArgs) (g : Globals) : Setting → Prop
  | .fallback => g.token = args.tkn
  | .insecure => g.token = args.tkn ∧ g.fallback = args.fb
  | .forceFallback =>
    g.token = args.tkn ∧ g.fallback = args.fb ∧ g.insecure = args.insecureFlag
  | .ipStrategy | .udpBlockPorts => Agrees g args
  | _ => True

/-- A start that is about to make its pool has made its assignments. -/
def State.Configured (s : State) : Prop :=
  match s.serviceMu with
  | some (.configure args _ setting) => setting.Done args s.globals
  | some (.prepareECH args _) | some (.awaitECH args) | some (.newPool args) =>
    Agrees s.globals args
  | _ => True

/-- The goroutine belongs to a pool and follows its start. -/
def Dialer.Follows (parse : Text → Option Url) (s : State) (d : Dialer) : Prop :=
  ∃ gen, s.generations[d.gen]? = some gen ∧ d.ip = gen.pool.channelIP d.idx ∧
    d.pc.Follows parse s.globals gen.args gen.pool

structure Credentialed (parse : Text → Option Url) (s : State) : Prop where
  configured : s.Configured
  live : ∀ (k : Nat) (gen : Generation), s.generations[k]? = some gen →
    gen.pool.cancelled = false → Agrees s.globals gen.args
  addr : ∀ (k : Nat) (gen : Generation), s.generations[k]? = some gen →
    gen.pool.wsServerAddr = gen.args.wsServer
  dialers : ∀ d ∈ s.dialers, d.Follows parse s
  dials : OwnDials s

theorem configured_callStep (h : CallStep parse s a t) (hs : s.Configured) : t.Configured := by
  cases h with
  | @configure args scheme setting hm =>
    simp only [State.Configured, hm] at hs
    cases setting with
    | token => exact rfl
    | fallback => exact ⟨hs, rfl⟩
    | insecure => exact ⟨hs.1, hs.2, rfl⟩
    | forceFallback =>
      obtain ⟨ht, hf, hi⟩ := hs
      refine ⟨ht, ?_, hi⟩
      simp only [Setting.write, hf, hi, StartArgs.fallback]
      cases args.fb <;> cases args.insecureFlag <;> rfl
    | ipStrategy | udpBlockPorts => exact ⟨hs.token, hs.fallback, hs.insecure⟩
    | _ => trivial
  | skipECH hm _ | prepareECH hm _ | awaitECH hm =>
    simp only [State.Configured, hm] at hs
    exact hs
  | @stopPool p hm => cases p <;> trivial
  | _ => trivial

/-- Only the assignments of a start touch the three settings. -/
theorem callStep_credentials (h : CallStep parse s a t) :
    (∃ args scheme setting, a = .configure args setting ∧
      s.serviceMu = some (.configure args scheme setting) ∧
      t.globals = setting.write args s.globals) ∨ SameCredentials s.globals t.globals := by
  cases h with
  | @configure args scheme setting hm => exact Or.inl ⟨args, scheme, setting, rfl, hm, rfl⟩
  | @stopListener l p hm => cases l <;> exact Or.inr ⟨rfl, rfl, rfl⟩
  | @stopPool p hm => cases p <;> exact Or.inr ⟨rfl, rfl, rfl⟩
  | _ => exact Or.inr ⟨rfl, rfl, rfl⟩

theorem goStep_credentials (h : GoStep parse s a t) : SameCredentials s.globals t.globals := by
  obtain ⟨-, -, raw, domain, hg⟩ := goStep_sameService h
  rw [hg]
  exact ⟨rfl, rfl, rfl⟩

/-- A goroutine that did not move still follows its start. -/
theorem Dialer.Follows.frame (h : d.Follows parse s) (hst : Step parse s a t)
    (hc : d.pc.inDial = true → SameCredentials s.globals t.globals) : d.Follows parse t := by
  obtain ⟨gen, hgen, hip, hf⟩ := h
  obtain ⟨gen', hgen', hargs, cancelled, hp⟩ := generation_step hst hgen
  refine ⟨gen', hgen', ?_, fun hin => ?_⟩
  · rw [hip, hp]
    rfl
  · obtain ⟨ha, hown⟩ := hf hin
    rw [hargs, hp]
    exact ⟨ha.congr (hc hin), hown⟩

theorem OwnDials.frame (h : OwnDials s) (hst : Step parse s a t) (hx : x ∈ s.dials) :
    ∃ gen, t.generations[x.gen]? = some gen ∧ x.OwnSettings gen := by
  obtain ⟨gen, hgen, ho⟩ := h x hx
  obtain ⟨gen', hgen', hargs, cancelled, hp⟩ := generation_step hst hgen
  refine ⟨gen', hgen', ?_⟩
  constructor
  · rw [hargs]
    exact ho.addr
  · rw [hp]
    exact ho.clientID
  · rw [hp]
    exact ho.ip
  · rw [hargs]
    exact ho.subprotocols
  · rw [hargs]
    exact ho.tls

theorem Setting.Done.congr {setting : Setting} (h : setting.Done args g)
    (hs : SameCredentials g g') : setting.Done args g' := by
  obtain ⟨ht, hf, hi⟩ := hs
  cases setting with
  | fallback => exact ht.trans h
  | insecure => exact ⟨ht.trans h.1, hf.trans h.2⟩
  | forceFallback => exact ⟨ht.trans h.1, hf.trans h.2.1, hi.trans h.2.2⟩
  | ipStrategy | udpBlockPorts => exact Agrees.congr h ⟨ht, hf, hi⟩
  | _ => trivial

theorem State.Configured.congr (h : s.Configured) (hmu : t.serviceMu = s.serviceMu)
    (hc : SameCredentials s.globals t.globals) : t.Configured := by
  unfold State.Configured at *
  rw [hmu]
  split at h
  · exact h.congr hc
  · exact h.congr hc
  · exact h.congr hc
  · exact h.congr hc
  · trivial

/-- The goroutines of a pool start at the top of their loop. -/
theorem callStep_dialers (h : CallStep parse s a t) (hd : d ∈ t.dialers) :
    d ∈ s.dialers ∨ ∃ (k : Nat) (gen : Generation) (i : Nat), t.generations[k]? = some gen ∧
      d = ⟨k, i, gen.pool.channelIP i, .top⟩ := by
  cases h with
  | @startPool k gen hm hgen =>
    rcases List.mem_append.mp hd with hd | hd
    · exact Or.inl hd
    · obtain ⟨i, -, rfl⟩ := List.mem_map.mp hd
      exact Or.inr ⟨k, gen, i, hgen, rfl⟩
  | @stopListener l p hm => cases l <;> exact Or.inl hd
  | @stopPool p hm => cases p <;> exact Or.inl hd
  | _ => exact Or.inl hd

theorem credentialed_callStep (h : CallStep parse s a t) (hst : Step parse s a t) (hq : Quiet s a)
    (hi : ServiceInv s) (hs : Credentialed parse s) : Credentialed parse t := by
  have hcr := callStep_credentials h
  refine ⟨configured_callStep h hs.configured, ?_, ?_, ?_, ?_⟩
  · intro k gen hk hc
    rcases generation_back h hk with ⟨gen', hk', hsame, hc'⟩ | ⟨args, uuid, hm, rfl, rfl⟩
    · rcases hcr with ⟨args, scheme, setting, -, hm, -⟩ | hcr
      · -- while a start makes its assignments, every earlier pool is closed
        have hcl := (hi.closed k gen' hk' (by simp [State.owner, hm])).1
        rw [hc' hc] at hcl
        cases hcl
      · rw [hsame.args]
        exact (hs.live k gen' hk' (hc' hc)).congr hcr
    · have hconf := hs.configured
      simp only [State.Configured, hm] at hconf
      rcases hcr with ⟨_, _, _, ha, -⟩ | hcr
      · cases ha
      · exact hconf.congr hcr
  · intro k gen hk
    rcases generation_back h hk with ⟨gen', hk', ⟨hargs, cancelled, hp⟩, -⟩ | ⟨_, _, -, -, rfl⟩
    · rw [hargs, hp]
      exact hs.addr k gen' hk'
    · rfl
  · intro d hd
    rcases callStep_dialers h hd with hd | ⟨k, gen, i, hk, rfl⟩
    · refine (hs.dialers d hd).frame hst fun hin => ?_
      rcases hcr with ⟨args, scheme, setting, rfl, -, hw⟩ | hcr
      · rcases hq with hq | hq
        · rw [hq d hd] at hin
          cases hin
        · rwa [hw]
      · exact hcr
    · exact ⟨gen, hk, rfl, fun hin => by cases hin⟩
  · intro x hx
    rw [(callStep_sameClients h).dials] at hx
    exact hs.dials.frame hst hx

theorem credentialed_goStep (h : GoStep parse s a t) (hst : Step parse s a t)
    (hs : Credentialed parse s) : Credentialed parse t := by
  have hcr := goStep_credentials h
  obtain ⟨hmu, hgen, -⟩ := goStep_sameService h
  have hold : ∀ d ∈ s.dialers, d.Follows parse t :=
    fun d hd => (hs.dialers d hd).frame hst fun _ => hcr
  have hmoved : ∀ {k : Nat} {d : Dialer} {pc : DialPc}, s.dialers[k]? = some d →
      (∀ gen, s.generations[d.gen]? = some gen → d.pc.Follows parse s.globals gen.args gen.pool →
        pc.Follows parse s.globals gen.args gen.pool) →
      ∀ d' ∈ s.dialers.set k { d with pc := pc }, d'.Follows parse t := by
    intro k d pc hk hpc
    obtain ⟨gen, hg, hip, hf⟩ := hs.dialers d (List.mem_of_getElem? hk)
    have hnew : Dialer.Follows parse s { d with pc := pc } := ⟨gen, hg, hip, hpc gen hg hf⟩
    exact forall_mem_set hold (hnew.frame hst fun _ => hcr)
  refine ⟨hs.configured.congr hmu hcr, ?_, ?_, ?_, ?_⟩
  · intro k gen hk hc
    rw [hgen] at hk
    exact (hs.live k gen hk hc).congr hcr
  · intro k gen hk
    rw [hgen] at hk
    exact hs.addr k gen hk
  · cases h with
    | @dialer k d gen pc hk hg hd =>
      refine hmoved hk fun gen' hg' hf hin => ?_
      obtain rfl := Option.some_inj.mp (hg.symm.trans hg')
      have ha : Agrees s.globals gen.args := by
        rcases dialStep_enters hd hin with hin' | hc
        · exact (hf hin').1
        · exact hs.live _ gen hg hc
      exact ⟨ha, own_dialStep hd hin hf⟩
    | @dial k d gen i tls subprotocols scheme serverName hk hg hpc he =>
      refine hmoved hk fun gen' hg' hf hin => ?_
      obtain rfl := Option.some_inj.mp (hg.symm.trans hg')
      obtain ⟨ha, -⟩ := hf (by rw [hpc]; rfl)
      exact ⟨ha, scheme, serverName, he, rfl⟩
    | lockRefresh hk hpc _ | storeRefresh hk hpc | unlockRefresh hk hpc =>
      refine hmoved hk fun gen' hg' hf hin => ?_
      rw [hpc] at hf
      exact hf rfl
    | _ => exact hold
  · have hdials : ∀ x ∈ s.dials, ∃ gen, t.generations[x.gen]? = some gen ∧ x.OwnSettings gen :=
      fun x hx => hs.dials.frame hst hx
    cases h with
    | @dial k d gen i tls subprotocols scheme serverName hk hg hpc he =>
      rintro x (_ | ⟨_, hx⟩)
      · obtain ⟨gen', hg', hip, hf⟩ := hs.dialers d (List.mem_of_getElem? hk)
        obtain rfl := Option.some_inj.mp (hg.symm.trans hg')
        rw [hpc] at hf
        obtain ⟨-, scheme', name, he', hsub, htls⟩ := hf rfl
        obtain ⟨rfl, rfl⟩ := Prod.mk.inj (Option.some_inj.mp (he.symm.trans he'))
        exact ⟨gen, hg, hs.addr _ gen hg, rfl, hip, hsub, htls⟩
      · exact hdials x hx
    | _ => exact hdials

theorem credentialed_step (h : Step parse s a t) (hq : Quiet s a) (hi : ServiceInv s)
    (hs : Credentialed parse s) : Credentialed parse t := by
  cases h with
  | call hc hcall => exact credentialed_callStep hcall (.call hc hcall) hq hi hs
  | go hc hgo => exact credentialed_goStep hgo (.go hc hgo) hs

theorem credentialed_initial : Credentialed parse initial := by
  constructor
  · trivial
  · intro k gen hk
    cases hk
  · intro k gen hk
    cases hk
  · intro d hd
    cases hd
  · intro x hx
    cases hx

theorem credentialed_run (hr : Run (Guarded (Step parse) Quiet) initial xs s) :
    ServiceInv s ∧ Credentialed parse s := by
  have hp : Preserves (Guarded (Step parse) Quiet)
      fun s => ServiceInv s ∧ Credentialed parse s := by
    rintro s a t ⟨hq, hst⟩ ⟨hi, hs⟩
    exact ⟨serviceInv_step hst hi, credentialed_step hst hq hi hs⟩
  have h := hr.invariant hp ⟨serviceInv_initial, credentialed_initial⟩
  exact h

theorem subprotocols_inj (h : g.subprotocols = args.subprotocols) : g.token = args.tkn := by
  unfold Globals.subprotocols StartArgs.subprotocols at h
  split at h <;> split at h
  · simp_all
  · cases h
  · cases h
  · exact List.singleton_inj.mp h

/-- A goroutine that begins an attempt while the globals are not those of its start can go on to
dial with the wrong settings. -/
theorem misdials_of_attempt {i : Nat} {serverName : Text} (hc : s.crashed = false)
    (hk : s.dialers[k]? = some d) (hg : s.generations[d.gen]? = some gen)
    (hpc : d.pc = .buildTLS i) (he : endpoint parse gen.pool.wsServerAddr = some (.wss, serverName))
    (hl : s.globals.fallback = true ∨ s.globals.echList ≠ [])
    (hne : ¬ Agrees s.globals gen.args) : ∃ xs t, Run (Step parse) s xs t ∧ ¬ OwnDials t := by
  obtain ⟨xs, c, hr, hins, hver⟩ :=
    run_attempt (G := Unguarded) hc hk hg hpc he hl fun _ => ⟨trivial, trivial⟩
  refine ⟨xs, _, hr.of_guarded, fun ho => hne ?_⟩
  obtain ⟨gen', hg', hown⟩ := ho _ List.mem_cons_self
  obtain rfl := Option.some_inj.mp (hg.symm.trans hg')
  obtain ⟨c', hc', hf⟩ := hown.tls
  obtain rfl := Option.some_inj.mp hc'
  refine ⟨subprotocols_inj hown.subprotocols, ?_, hins.symm.trans hf.insecure⟩
  have hnot := hver.symm.trans hf.verify
  simpa using hnot

/-- While no start changes the settings under a dial, every dial carries those of its own start. -/
theorem credentials_stay (hr : Run (Guarded (Step parse) Quiet) initial xs s) : OwnDials s :=
  (credentialed_run hr).2.dials

/-- Node A is connected. -/
def connectedA (fetchers : List FetchPc) (x : Dial) : State :=
  { (servingA fetchers).addDial x with dialers := [⟨0, 0, [], .serving⟩] }

theorem run_connectedA {G : State → Action → Prop} (hG : ∀ u, G u (.dialer 0) ∧ G u (.dial 0))
    (fetchers : List FetchPc) : ∃ xs x, Run (Guarded (Step parsePlain) G) (servingA fetchers) xs
      (connectedA fetchers x) ∧ x.subprotocols = [nodeA.tkn] :=
  run_connect (s := servingA fetchers) (k := 0) (d := ⟨0, 0, [], .top⟩) rfl rfl rfl rfl rfl rfl
    (Or.inl rfl) hG

/-- Node A is connected, is stopped, and node B dials. -/
theorem credentials_stay_switch : ∃ xs s x y, Run (Guarded (Step parsePlain) Quiet) initial xs s ∧
    s.dials = [y, x] ∧ x.subprotocols = [nodeA.tkn] ∧ y.subprotocols = [nodeB.tkn] ∧
    OwnDials s := by
  have hlaunch : ∀ (u : State) (a : Action), a.launches = true → Quiet u a := by
    intro u a ha
    cases a <;> trivial
  have hfirst : ∀ (u : State) setting, u.dialers = [] → Quiet u (.configure nodeA setting) := by
    intro u setting hu
    refine Or.inl fun d hd => ?_
    rw [hu] at hd
    cases hd
  have hnext : ∀ (u : State) setting, u.dialers = [⟨0, 0, [], .serving⟩] →
      Quiet u (.configure nodeB setting) := by
    intro u setting hu
    refine Or.inl fun d hd => ?_
    rw [hu] at hd
    obtain rfl := List.mem_singleton.mp hd
    rfl
  obtain ⟨xs, fetchers, hA⟩ := run_servingA hfirst hlaunch
  obtain ⟨ys, x, hx, hsubA⟩ := run_connectedA (G := Quiet) (fun _ => ⟨trivial, trivial⟩) fetchers
  have hstop : Run (Guarded (Step parsePlain) Quiet) (connectedA fetchers x) _ _ :=
    run_stop rfl rfl (fun _ _ => trivial) fun _ => ⟨trivial, trivial, trivial⟩
  obtain ⟨zs, fetchers', hB⟩ : ∃ zs fetchers', Run (Guarded (Step parsePlain) Quiet)
      (connectedA fetchers x).halted zs ((connectedA fetchers x).halted.launched nodeB [2] fetchers') :=
    run_start rfl rfl ⟨rfl, rfl⟩ rfl [2] hnext fun u a _ => hlaunch u a
  have he : endpoint parsePlain nodeB.wsServer =
      some (.wss, [98, 46, 101, 120, 97, 109, 112, 108, 101]) := rfl
  obtain ⟨ws, y, hy, hsubB⟩ := run_connect (G := Quiet)
    (s := (connectedA fetchers x).halted.launched nodeB [2] fetchers') (k := 1)
    (d := ⟨1, 0, [], .top⟩) rfl rfl rfl rfl rfl he
    (Or.inl rfl) fun _ => ⟨trivial, trivial⟩
  have hrun := hA.append (hx.append (hstop.append (hB.append hy)))
  exact ⟨_, _, x, y, hrun, rfl, hsubA, hsubB, credentials_stay hrun⟩

/-- Node A with ECH. -/
def nodeECH : StartArgs := { nodeA with fb := false }

/-- Node B, which accepts any certificate. -/
def nodeLax : StartArgs := { nodeB with fb := false, insecureFlag := true }

/-- The channel of node A has found no ECH list, and asks for one. -/
def stuckA (fetchers : List FetchPc) : State :=
  { initial.launched nodeECH [1] fetchers with
    refreshMu := true
    dialers := [⟨0, 0, [], .refreshing 1 (.querying Setting.dohPub Setting.cloudflareEch)⟩] }

theorem run_stuckA {G : State → Action → Prop}
    (hset : ∀ u setting, u.dialers = [] → G u (.configure nodeECH setting))
    (hG : ∀ u a, u.globals.echList = [] → a.launches = true → G u a)
    (hd : ∀ u, G u (.dialer 0) ∧ G u (.lockRefresh 0)) :
    ∃ xs fetchers, Run (Guarded (Step parsePlain) G) initial xs (stuckA fetchers) := by
  obtain ⟨xs, fetchers, hA⟩ : ∃ xs fetchers, Run (Guarded (Step parsePlain) G) initial xs
      (initial.launched nodeECH [1] fetchers) :=
    run_start rfl rfl ⟨rfl, rfl⟩ rfl [1] hset hG
  have hsteps : Relation.TransGen
      (DialStep parsePlain (initial.launched nodeECH [1] fetchers).globals (nodeECH.pool [1])) .top
      (.refreshLock 1) :=
    .tail (.tail (.tail (.tail (.tail (.single (.secure rfl rfl)) (.noFallback rfl)) (.listLock rfl))
      (.listEmpty rfl)) (.retryTLS (by decide))) (.refresh rfl)
  obtain ⟨ys, hdial⟩ := run_dialer (G := G) (s := initial.launched nodeECH [1] fetchers)
    (k := 0) (d := ⟨0, 0, [], .top⟩) rfl rfl rfl (fun u => (hd u).1) hsteps
  have hlock : Run (Guarded (Step parsePlain) G) ((initial.launched nodeECH [1]
      fetchers).setDialer 0 ⟨0, 0, [], .top⟩ (.refreshLock 1)) [.lockRefresh 0, .dialer 0]
      (stuckA fetchers) :=
    .stepL ⟨(hd _).2, .go rfl (@GoStep.lockRefresh _ _ 0 ⟨0, 0, [], .refreshLock 1⟩ 1 rfl rfl rfl)⟩
      (.single ⟨(hd _).1, .go rfl (@GoStep.dialer _ _ 0 ⟨0, 0, [], .refreshing 1 .asking⟩
        ⟨nodeECH, nodeECH.pool [1], .accepting⟩ _ rfl rfl (.fetch .ask))⟩)
  exact ⟨_, fetchers, hA.append (hdial.append hlock)⟩

/-- Node A is stopped and node B started while the channel of node A waits for its list. -/
def lateA (fetchers fetchers' : List FetchPc) : State :=
  (stuckA fetchers).halted.launched nodeLax [2] fetchers'

theorem run_lateA : ∃ xs fetchers fetchers', Run (Guarded (Step parsePlain) Unguarded) initial xs
    (lateA fetchers fetchers') := by
  obtain ⟨xs, fetchers, hA⟩ := run_stuckA (G := Unguarded) (fun _ _ _ => trivial)
    (fun _ _ _ _ => trivial) fun _ => ⟨trivial, trivial⟩
  have hstop : Run (Guarded (Step parsePlain) Unguarded) (stuckA fetchers) _ _ :=
    run_stop rfl rfl (fun _ _ => trivial) fun _ => ⟨trivial, trivial, trivial⟩
  obtain ⟨ys, fetchers', hB⟩ : ∃ ys fetchers', Run (Guarded (Step parsePlain) Unguarded)
      (stuckA fetchers).halted ys (lateA fetchers fetchers') :=
    run_start rfl rfl ⟨rfl, rfl⟩ rfl [2] (fun _ _ _ => trivial) fun _ _ _ _ => trivial
  exact ⟨_, fetchers, fetchers', hA.append (hstop.append hB)⟩

/-- The channel of node A has its list, and begins its second attempt. -/
def retryA (fetchers fetchers' : List FetchPc) : State :=
  { (lateA fetchers fetchers').storeECH Setting.cloudflareEch [1] with
    refreshMu := false
    dialers := [⟨0, 0, [], .buildTLS 2⟩, ⟨1, 0, [], .top⟩] }

theorem run_retryA (fetchers fetchers' : List FetchPc) :
    Run (Guarded (Step parsePlain) Unguarded) (lateA fetchers fetchers')
      [.dialer 0, .storeRefresh 0, .unlockRefresh 0] (retryA fetchers fetchers') :=
  .stepL ⟨trivial, .go rfl (@GoStep.dialer _ _ 0
      ⟨0, 0, [], .refreshing 1 (.querying Setting.dohPub Setting.cloudflareEch)⟩ _ _ rfl rfl
      (.fetch (.found (List.cons_ne_nil 1 []))))⟩ <|
    .stepL ⟨trivial, .go rfl (@GoStep.storeRefresh _ _ 0
      ⟨0, 0, [], .refreshing 1 (.storing Setting.cloudflareEch [1])⟩ 1 _ _ rfl rfl)⟩ <|
    .single ⟨trivial, .go rfl (@GoStep.unlockRefresh _ _ 0
      ⟨0, 0, [], .refreshing 1 .returned⟩ 1 rfl rfl)⟩

/-- Node A's server gets node B's token, on a connection that checks no certificate. -/
theorem credentials_leak : ∃ xs s c, Run (Step parsePlain) initial xs s ∧
    ⟨0, nodeECH.wsServer, [], [1], 1, .wss, [nodeLax.tkn], some c⟩ ∈ s.dials ∧
    c.insecureSkipVerify = true ∧ c.rejectionVerify = false ∧ ¬ OwnDials s := by
  obtain ⟨xs, fetchers, fetchers', hlate⟩ := run_lateA
  have he : endpoint parsePlain nodeECH.wsServer =
      some (.wss, [97, 46, 101, 120, 97, 109, 112, 108, 101]) := rfl
  obtain ⟨ys, c, hdial, hins, hver⟩ := run_attempt (G := Unguarded) (s := retryA fetchers fetchers')
    (k := 0) (d := ⟨0, 0, [], .buildTLS 2⟩) rfl rfl rfl rfl he
    (Or.inl rfl) fun _ => ⟨trivial, trivial⟩
  have hrun := hlate.append ((run_retryA fetchers fetchers').append hdial)
  refine ⟨_, _, c, hrun.of_guarded, List.mem_cons_self, hins, hver, fun ho => ?_⟩
  obtain ⟨gen, hg, hown⟩ := ho _ List.mem_cons_self
  cases hg
  have hsub : [nodeLax.tkn] = nodeECH.subprotocols := hown.subprotocols
  exact absurd hsub (by decide)

end XTunnel.Service
