import XTunnel.Service.Credentials

/-! When every ECH list that a dial obtains was fetched for the domain of its own start. -/
namespace XTunnel.Service

open Net Socks5

variable {parse : Text → Option Url} {s t : State} {a : Action} {xs : List Action} {k : Nat}
  {g : Globals} {p : ECHPool} {pc pc' : DialPc} {d : Dialer} {gen gen' : Generation}
  {fallback : Bool} {P Q : StartArgs → Prop}

/-- The ECH domain that a start configures. -/
def StartArgs.echDomain (args : StartArgs) : Text :=
  if args.ech = [] then Setting.cloudflareEch else args.ech

/-- The list that is loaded, if any, was fetched for the domain of the start. -/
def Globals.ListOf (g : Globals) (args : StartArgs) : Prop :=
  g.echList = [] ∨ g.echDomainOf = some args.echDomain

/-- What `getECHList` gives to a goroutine that has the lock of the list. -/
def OwnLists (s : State) : Prop :=
  ∀ d ∈ s.dialers, ∀ gen i, s.generations[d.gen]? = some gen → d.pc = .lockedList i →
    s.globals.echList ≠ [] → s.globals.echDomainOf = some gen.args.echDomain

def Generation.Secure (parse : Text → Option Url) (gen : Generation) : Prop :=
  ∃ serverName, endpoint parse gen.pool.wsServerAddr = some (.wss, serverName)

/-- The dial comes to `getECHList` again if `fallback` stays false and its attempt fails. -/
def DialPc.rereads : DialPc → Bool
  | .buildTLS _ | .getECHList _ | .lockedList _ | .refreshECH _ | .refreshLock _
  | .refreshing _ _ => true
  | .standardTLS i | .withECH i _ | .noTLS i | .newDialer i _ | .subprotocol i _ | .dialing i _ _
  | .dialed i _ => i < retries
  | .top | .waiting | .serving | .returned => false

/-- Places that only a dial to `wss` comes to. -/
def DialPc.secured : DialPc → Bool
  | .buildTLS _ | .standardTLS _ | .getECHList _ | .lockedList _ | .withECH _ _ | .noTLS _
  | .refreshECH _ | .refreshLock _ | .refreshing _ _ | .dialed _ .wss => true
  | _ => false

/-- A goroutine of the generation may still obtain the list that is loaded. -/
def MayRead (parse : Text → Option Url) (fallback : Bool) (pc : DialPc) (gen : Generation) : Prop :=
  gen.Secure parse ∧ ((∃ i, pc = .lockedList i) ∨
    fallback = false ∧ (pc.rereads = true ∨ gen.pool.cancelled = false ∧ pc ≠ .returned))

/-- The starts of all goroutines that may still obtain the list satisfy `P`. -/
def Readers (parse : Text → Option Url) (s : State) (fallback : Bool) (P : StartArgs → Prop) : Prop :=
  ∀ d ∈ s.dialers, ∀ gen, s.generations[d.gen]? = some gen → MayRead parse fallback d.pc gen →
    P gen.args

/-- No list meets a dial of another domain: a pool that dials with ECH is started, `fallback` is
switched off and a fetched list is stored only where the list is that of all who may obtain it. -/
def Fresh (parse : Text → Option Url) (s : State) : Action → Prop
  | .startPool => ∀ id gen, s.serviceMu = some (.startPool id) → s.generations[id]? = some gen →
      s.globals.fallback = false → gen.Secure parse → s.globals.ListOf gen.args
  | .configure args .fallback => args.fb = false → Readers parse s false s.globals.ListOf
  | .storeRefresh k => ∀ d i domain raw, s.dialers[k]? = some d →
      d.pc = .refreshing i (.storing domain raw) →
      Readers parse s s.globals.fallback fun args => args.echDomain = domain
  | .storeFetched k => ∀ domain raw, s.fetchers[k]? = some (.storing domain raw) →
      Readers parse s s.globals.fallback fun args => args.echDomain = domain
  | _ => True

structure ECHInv (parse : Text → Option Url) (s : State) : Prop where
  known : ∀ d ∈ s.dialers, d.gen < s.generations.length
  secured : ∀ d ∈ s.dialers, ∀ gen, s.generations[d.gen]? = some gen → d.pc.secured = true →
    gen.Secure parse
  lists : Readers parse s s.globals.fallback s.globals.ListOf

theorem Readers.mono (h : Readers parse s fallback P) (hpq : ∀ args, P args → Q args) :
    Readers parse s fallback Q := fun d hd gen hg hr => hpq _ (h d hd gen hg hr)

/-- A generation that a call leaves behind could be read for by the same goroutines before. -/
theorem MayRead.back (hsame : gen'.Same gen)
    (hc : gen.pool.cancelled = false → gen'.pool.cancelled = false)
    (h : MayRead parse fallback pc gen) : MayRead parse fallback pc gen' := by
  obtain ⟨cancelled, hpool⟩ := hsame.pool
  obtain ⟨hsec, hr⟩ := h
  refine ⟨?_, ?_⟩
  · obtain ⟨serverName, he⟩ := hsec
    rw [hpool] at he
    exact ⟨serverName, he⟩
  · rcases hr with hr | ⟨hf, hr | ⟨hcan, hne⟩⟩
    · exact .inl hr
    · exact .inr ⟨hf, .inl hr⟩
    · exact .inr ⟨hf, .inr ⟨hc hcan, hne⟩⟩

/-- With `fallback` on, only a goroutine that already has the lock reads. -/
theorem MayRead.mono {fallback' : Bool} (hf : fallback = false → fallback' = false)
    (h : MayRead parse fallback pc gen) : MayRead parse fallback' pc gen := by
  obtain ⟨hsec, hr⟩ := h
  rcases hr with hr | ⟨hfb, hr⟩
  · exact ⟨hsec, .inl hr⟩
  · exact ⟨hsec, .inr ⟨hf hfb, hr⟩⟩

theorem MayRead.move (h : MayRead parse fallback pc' gen) (hl : ∀ i, pc' ≠ .lockedList i)
    (hr : pc'.rereads = true → pc.rereads = true) (hne : pc ≠ .returned) :
    MayRead parse fallback pc gen := by
  obtain ⟨hsec, ⟨i, hi⟩ | ⟨hf, hread | ⟨hcan, -⟩⟩⟩ := h
  · exact (hl i hi).elim
  · exact ⟨hsec, .inr ⟨hf, .inl (hr hread)⟩⟩
  · exact ⟨hsec, .inr ⟨hf, .inr ⟨hcan, hne⟩⟩⟩

/-- A step of a dial goroutine does not make it a reader. -/
theorem mayRead_dialStep (h : DialStep parse g gen.pool pc pc')
    (hr : MayRead parse g.fallback pc' gen) : MayRead parse g.fallback pc gen := by
  obtain ⟨hsec, hr⟩ := hr
  refine ⟨hsec, ?_⟩
  cases h with
  | done => simp [DialPc.rereads] at hr
  | badAddress hl he =>
    obtain ⟨serverName, hs⟩ := hsec
    rw [he] at hs
    cases hs
  | plain hl he =>
    obtain ⟨serverName, hs⟩ := hsec
    rw [he] at hs
    cases hs
  | fallback hf | listFallback hf | refreshSkipped hf => simp [hf] at hr
  | secure hl =>
    obtain ⟨i, hi⟩ | ⟨hf, -⟩ := hr
    · cases hi
    · exact .inr ⟨hf, .inr ⟨hl, nofun⟩⟩
  | _ => simp_all [DialPc.rereads]

/-- A dial goroutine comes to such a place from the address of its pool, or from another one. -/
theorem secured_dialStep (h : DialStep parse g gen.pool pc pc')
    (hs : pc.secured = true → gen.Secure parse) (hp : pc'.secured = true) : gen.Secure parse := by
  cases h with
  | secure _ he => exact ⟨_, he⟩
  | connected | failed | broken | served | wait | waitDone => cases hp
  | _ => first | exact hs rfl | cases hp

theorem setDialer_mem {d' : Dialer} (hd : d' ∈ (s.setDialer k d pc).dialers) :
    d' = { d with pc := pc } ∨ d' ∈ s.dialers := by
  rcases List.mem_or_eq_of_mem_set hd with hd | rfl
  · exact .inr hd
  · exact .inl rfl

/-- The goroutine moves to a place where it reads only if it did before. -/
theorem echInv_setDialer (hs : ECHInv parse s) (hk : s.dialers[k]? = some d)
    (hsec : ∀ gen, s.generations[d.gen]? = some gen → (d.pc.secured = true → gen.Secure parse) →
      pc.secured = true → gen.Secure parse)
    (hread : ∀ gen, s.generations[d.gen]? = some gen → gen.Secure parse →
      MayRead parse s.globals.fallback pc gen → MayRead parse s.globals.fallback d.pc gen) :
    ECHInv parse (s.setDialer k d pc) := by
  have hmem := List.mem_of_getElem? hk
  refine ⟨fun d' hd => ?_, fun d' hd gen hg hp => ?_, fun d' hd gen hg hr => ?_⟩
  · rcases setDialer_mem hd with rfl | hd
    · exact hs.known d hmem
    · exact hs.known d' hd
  · rcases setDialer_mem hd with rfl | hd
    · exact hsec gen hg (hs.secured d hmem gen hg) hp
    · exact hs.secured d' hd gen hg hp
  · rcases setDialer_mem hd with rfl | hd
    · exact hs.lists d hmem gen hg (hread gen hg hr.1 hr)
    · exact hs.lists d' hd gen hg hr

/-- A list is stored for the domain of all who may obtain it. -/
theorem echInv_storeECH {domain raw : Text} (hs : ECHInv parse s)
    (h : Readers parse s s.globals.fallback fun args => args.echDomain = domain) :
    ECHInv parse (s.storeECH domain raw) :=
  ⟨hs.known, hs.secured, h.mono fun _ he => .inr (congrArg some he.symm)⟩

theorem echInv_goStep (h : GoStep parse s a t) (hf : Fresh parse s a) (hs : ECHInv parse s) :
    ECHInv parse t := by
  cases h with
  | accept | handler | openTCP | openUDP | fetcher => exact ⟨hs.known, hs.secured, hs.lists⟩
  | @dialer k d gen pc hk hg hstep =>
    refine echInv_setDialer hs hk (fun gen' hg' hsec hp => ?_) fun gen' hg' _ hr => ?_
    · obtain rfl := Option.some_inj.mp (hg.symm.trans hg')
      exact secured_dialStep hstep hsec hp
    · obtain rfl := Option.some_inj.mp (hg.symm.trans hg')
      exact mayRead_dialStep hstep hr
  | @dial k d gen i tls subprotocols scheme serverName hk hg hpc he =>
    have hs' : ECHInv parse (s.addDial ⟨d.gen, gen.pool.wsServerAddr, d.ip, gen.pool.clientID,
        d.idx + 1, scheme, subprotocols, tls⟩) := ⟨hs.known, hs.secured, hs.lists⟩
    refine echInv_setDialer hs' hk (fun gen' hg' _ hp => ?_) fun gen' hg' _ hr => ?_
    · obtain rfl := Option.some_inj.mp (hg.symm.trans hg')
      cases scheme with
      | ws => cases hp
      | wss => exact ⟨_, he⟩
    · exact hr.move nofun (by rw [hpc]; exact id) (by rw [hpc]; exact nofun)
  | @lockRefresh k d i hk hpc hfree =>
    have hs' : ECHInv parse { s with refreshMu := true } := ⟨hs.known, hs.secured, hs.lists⟩
    exact echInv_setDialer hs' hk (fun _ _ hsec _ => hsec (by rw [hpc]; rfl)) fun _ _ _ hr =>
      hr.move nofun (by rw [hpc]; exact id) (by rw [hpc]; exact nofun)
  | @storeRefresh k d i domain raw hk hpc =>
    have hs' : ECHInv parse (s.storeECH domain raw) := echInv_storeECH hs (hf d i domain raw hk hpc)
    exact echInv_setDialer hs' hk (fun _ _ hsec _ => hsec (by rw [hpc]; rfl)) fun _ _ _ hr =>
      hr.move nofun (by rw [hpc]; exact id) (by rw [hpc]; exact nofun)
  | @unlockRefresh k d i hk hpc =>
    have hs' : ECHInv parse { s with refreshMu := false } := ⟨hs.known, hs.secured, hs.lists⟩
    exact echInv_setDialer hs' hk (fun _ _ hsec _ => hsec (by rw [hpc]; rfl)) fun _ _ _ hr =>
      hr.move nofun (by rw [hpc]; exact id) (by rw [hpc]; exact nofun)
  | @storeFetched k domain raw hk =>
    have hs' : ECHInv parse (s.storeECH domain raw) := echInv_storeECH hs (hf domain raw hk)
    exact ⟨hs'.known, hs'.secured, hs'.lists⟩

theorem callStep_list (h : CallStep parse s a t) :
    t.globals.echList = s.globals.echList ∧ t.globals.echDomainOf = s.globals.echDomainOf := by
  cases h with
  | @configure args scheme setting hm => cases setting <;> exact ⟨rfl, rfl⟩
  | @stopListener l p => cases l <;> exact ⟨rfl, rfl⟩
  | @stopPool p => cases p <;> exact ⟨rfl, rfl⟩
  | _ => exact ⟨rfl, rfl⟩

/-- A step of a call other than the start of a pool leaves the dial goroutines alone. -/
theorem sameDialers_callStep (h : CallStep parse s a t) (ha : a ≠ .startPool) :
    t.dialers = s.dialers := by
  cases h with
  | startPool => exact (ha rfl).elim
  | @stopListener l p => cases l <;> rfl
  | @stopPool p => cases p <;> rfl
  | _ => rfl

/-- A step of a call other than an assignment leaves `fallback` alone. -/
theorem callStep_fallback (h : CallStep parse s a t)
    (ha : ∀ args, a ≠ .configure args .fallback) (hf : t.globals.fallback = false) :
    s.globals.fallback = false := by
  cases h with
  | @configure args scheme setting hm =>
    cases setting with
    | fallback => exact (ha args rfl).elim
    | forceFallback =>
      simp only [Setting.write] at hf
      split at hf
      · cases hf
      · exact hf
    | _ => exact hf
  | @stopListener l p => cases l <;> exact hf
  | @stopPool p => cases p <;> exact hf
  | _ => exact hf

/-- A generation that was there before the call's step. -/
theorem generation_old (h : CallStep parse s a t) (hg : t.generations[k]? = some gen)
    (hk : k < s.generations.length) : ∃ gen', s.generations[k]? = some gen' ∧ gen'.Same gen ∧
      (gen.pool.cancelled = false → gen'.pool.cancelled = false) := by
  rcases generation_back h hg with hold | ⟨args, uuid, hm, rfl, -⟩
  · exact hold
  · cases h with
    | newPool =>
      rw [State.setCall, State.addGeneration, List.getElem?_append_left hk] at hg
      exact ⟨gen, hg, .refl gen, id⟩

theorem length_generations (h : Step parse s a t) : s.generations.length ≤ t.generations.length := by
  by_cases hlt : s.generations.length = 0
  · omega
  · obtain ⟨gen, hg⟩ : ∃ gen, s.generations[s.generations.length - 1]? = some gen :=
      ⟨_, List.getElem?_eq_getElem (by omega)⟩
    obtain ⟨gen', hg', -⟩ := generation_step h hg
    obtain ⟨hlt', -⟩ := List.getElem?_eq_some_iff.mp hg'
    omega

theorem echInv_callStep (hst : Step parse s a t) (h : CallStep parse s a t) (hf : Fresh parse s a)
    (hs : ECHInv parse s) : ECHInv parse t := by
  have hlen := length_generations hst
  obtain ⟨hlist, hdom⟩ := callStep_list h
  have hof : ∀ {args}, s.globals.ListOf args → t.globals.ListOf args := by
    intro args hargs
    unfold Globals.ListOf at *
    rwa [hlist, hdom]
  by_cases ha : a = .startPool
  · subst ha
    cases h with
    | @startPool id gen hm hg =>
      have hnew : ∀ d ∈ ((s.startPool id gen.pool).setCall (.listen id)).dialers,
          d ∈ s.dialers ∨ d.gen = id ∧ d.pc = .top := by
        intro d hd
        rcases List.mem_append.mp hd with hd | hd
        · exact .inl hd
        · obtain ⟨i, -, rfl⟩ := List.mem_map.mp hd
          exact .inr ⟨rfl, rfl⟩
      refine ⟨fun d hd => ?_, fun d hd gen' hg' hp => ?_, fun d hd gen' hg' hr => ?_⟩
      · rcases hnew d hd with hd | ⟨hid, -⟩
        · exact hs.known d hd
        · rw [hid]
          exact (List.getElem?_eq_some_iff.mp hg).1
      · rcases hnew d hd with hd | ⟨-, hpc⟩
        · exact hs.secured d hd gen' hg' hp
        · rw [hpc] at hp
          cases hp
      · rcases hnew d hd with hd | ⟨hid, hpc⟩
        · exact hs.lists d hd gen' hg' hr
        · obtain ⟨hsec, ⟨i, hi⟩ | ⟨hfb, -⟩⟩ := hr
          · rw [hpc] at hi
            cases hi
          · exact hf id gen' hm (hid ▸ hg') hfb hsec
  · have hdial := sameDialers_callStep h ha
    refine ⟨fun d hd => ?_, fun d hd gen hg hp => ?_, fun d hd gen hg hr => ?_⟩
    · rw [hdial] at hd
      exact Nat.lt_of_lt_of_le (hs.known d hd) hlen
    · rw [hdial] at hd
      obtain ⟨gen', hg', hsame, hcan⟩ := generation_old h hg (hs.known d hd)
      obtain ⟨cancelled, hpool⟩ := hsame.pool
      obtain ⟨serverName, he⟩ := hs.secured d hd gen' hg' hp
      exact ⟨serverName, by rw [hpool]; exact he⟩
    · rw [hdial] at hd
      obtain ⟨gen', hg', hsame, hcan⟩ := generation_old h hg (hs.known d hd)
      rw [hsame.args]
      refine hof ?_
      by_cases hset : ∃ args, a = .configure args .fallback
      · obtain ⟨args, rfl⟩ := hset
        cases h with
        | configure hm =>
          have hr' : MayRead parse args.fb d.pc gen' := hr.back hsame hcan
          cases hfb : args.fb with
          | false =>
            rw [hfb] at hr'
            exact hf hfb d hd gen' hg' hr'
          | true => exact hs.lists d hd gen' hg' (hr'.mono fun h => by cases hfb.symm.trans h)
      · have hset : ∀ args, a ≠ .configure args .fallback := fun args he => hset ⟨args, he⟩
        exact hs.lists d hd gen' hg' ((hr.back hsame hcan).mono (callStep_fallback h hset))

theorem echInv_step (h : Step parse s a t) (hf : Fresh parse s a) (hs : ECHInv parse s) :
    ECHInv parse t := by
  cases h with
  | call hc hcall => exact echInv_callStep (.call hc hcall) hcall hf hs
  | go _ hgo => exact echInv_goStep hgo hf hs

theorem echInv_run (hr : Run (Guarded (Step parse) (Fresh parse)) initial xs s) :
    ECHInv parse s := by
  have hp : Preserves (Guarded (Step parse) (Fresh parse)) (ECHInv parse) :=
    fun s a t hg hs => echInv_step hg.2 hg.1 hs
  have hinit : ECHInv parse initial := ⟨nofun, nofun, nofun⟩
  exact hr.invariant hp hinit

/-- While lists are stored and left behind only for the starts that may still obtain them, every
list that a dial obtains is of its own start's domain. -/
theorem ech_lists_fresh (hr : Run (Guarded (Step parse) (Fresh parse)) initial xs s) :
    OwnLists s := by
  have hs := echInv_run hr
  intro d hd gen i hg hpc hne
  have hsec := hs.secured d hd gen hg (by rw [hpc]; rfl)
  exact (hs.lists d hd gen hg ⟨hsec, .inl ⟨i, hpc⟩⟩).resolve_left hne

/-- Node A has fetched its list, and a dial of it has the lock to read it. -/
def readingA (fetchers : List FetchPc) : State :=
  { (initial.launched nodeECH [1] fetchers).storeECH Setting.cloudflareEch [1] with
    dialers := [⟨0, 0, [], .lockedList 2⟩] }

theorem run_readingA {G : State → Action → Prop}
    (hset : ∀ u setting, u.dialers = [] → G u (.configure nodeECH setting))
    (hG : ∀ u a, u.globals.echList = [] → a.launches = true → G u a)
    (hd : ∀ u, G u (.dialer 0) ∧ G u (.lockRefresh 0) ∧ G u (.unlockRefresh 0))
    (hstore : ∀ u,
      u.dialers = [⟨0, 0, [], .refreshing 1 (.storing Setting.cloudflareEch [1])⟩] →
      u.generations = [⟨nodeECH, nodeECH.pool [1], .accepting⟩] → G u (.storeRefresh 0)) :
    ∃ xs fetchers, Run (Guarded (Step parsePlain) G) initial xs (readingA fetchers) := by
  obtain ⟨xs, fetchers, hA⟩ := run_stuckA hset hG fun u => ⟨(hd u).1, (hd u).2.1⟩
  have hread : Run (Guarded (Step parsePlain) G) (stuckA fetchers)
      [.dialer 0, .storeRefresh 0, .unlockRefresh 0, .dialer 0, .dialer 0] (readingA fetchers) :=
    .stepL ⟨(hd _).1, .go rfl (@GoStep.dialer _ _ 0
        ⟨0, 0, [], .refreshing 1 (.querying Setting.dohPub Setting.cloudflareEch)⟩
        ⟨nodeECH, nodeECH.pool [1], .accepting⟩ _ rfl rfl
        (.fetch (.found (List.cons_ne_nil 1 []))))⟩ <|
      .stepL ⟨hstore _ rfl rfl, .go rfl (@GoStep.storeRefresh _ _ 0
        ⟨0, 0, [], .refreshing 1 (.storing Setting.cloudflareEch [1])⟩ 1 _ _ rfl rfl)⟩ <|
      .stepL ⟨(hd _).2.2, .go rfl (@GoStep.unlockRefresh _ _ 0
        ⟨0, 0, [], .refreshing 1 .returned⟩ 1 rfl rfl)⟩ <|
      .stepL ⟨(hd _).1, .go rfl (@GoStep.dialer _ _ 0 ⟨0, 0, [], .buildTLS 2⟩
        ⟨nodeECH, nodeECH.pool [1], .accepting⟩ _ rfl rfl (.noFallback rfl))⟩ <|
      .single ⟨(hd _).1, .go rfl (@GoStep.dialer _ _ 0 ⟨0, 0, [], .getECHList 2⟩
        ⟨nodeECH, nodeECH.pool [1], .accepting⟩ _ rfl rfl (.listLock rfl))⟩
  exact ⟨_, fetchers, hA.append hread⟩

/-- A service that fetches its own list reads it. -/
theorem ech_lists_fresh_own : ∃ xs fetchers,
    Run (Guarded (Step parsePlain) (Fresh parsePlain)) initial xs (readingA fetchers) ∧
    OwnLists (readingA fetchers) := by
  have hset : ∀ (u : State) setting, u.dialers = [] → Fresh parsePlain u (.configure nodeECH setting) := by
    intro u setting hu
    cases setting <;> try trivial
    intro _ d hd
    rw [hu] at hd
    cases hd
  have hG : ∀ (u : State) (a : Action), u.globals.echList = [] → a.launches = true →
      Fresh parsePlain u a := by
    intro u a hu ha
    cases a with
    | startPool => exact fun _ _ _ _ _ _ => .inl hu
    | configure | storeRefresh | storeFetched => cases ha
    | _ => trivial
  have hstore : ∀ u : State,
      u.dialers = [⟨0, 0, [], .refreshing 1 (.storing Setting.cloudflareEch [1])⟩] →
      u.generations = [⟨nodeECH, nodeECH.pool [1], .accepting⟩] →
      Fresh parsePlain u (.storeRefresh 0) := by
    intro u hu hg d i domain raw hk hpc d' hd' gen hgen _
    rw [hu] at hk hd'
    cases hk
    cases hpc
    obtain rfl := List.mem_singleton.mp hd'
    rw [hg] at hgen
    cases hgen
    rfl
  obtain ⟨xs, fetchers, hr⟩ := run_readingA hset hG (fun _ => ⟨trivial, trivial, trivial⟩) hstore
  exact ⟨xs, fetchers, hr, ech_lists_fresh hr⟩

/-- Node B, with an ECH domain of its own. -/
def nodeEchB : StartArgs := { nodeB with fb := false, ech := [98] }

/-- Node A is stopped and node B started, which waits for its list in vain and then dials. -/
theorem ech_list_stale : ∃ xs s, Run (Step parsePlain) initial xs s ∧
    (∃ d ∈ s.dialers, d.gen = 1 ∧ d.pc = .lockedList 1) ∧
    s.globals.echDomainOf = some nodeECH.echDomain ∧ nodeECH.echDomain ≠ nodeEchB.echDomain ∧
    ¬ OwnLists s := by
  obtain ⟨xs, fetchers, hA⟩ := run_readingA (G := Unguarded) (fun _ _ _ => trivial)
    (fun _ _ _ _ => trivial) (fun _ => ⟨trivial, trivial, trivial⟩) fun _ _ _ => trivial
  have hstop : Run (Guarded (Step parsePlain) Unguarded) (readingA fetchers) _ _ :=
    run_stop rfl rfl (fun _ _ => trivial) fun _ => ⟨trivial, trivial, trivial⟩
  obtain ⟨ys, fetchers', hB⟩ : ∃ ys fetchers', Run (Guarded (Step parsePlain) Unguarded)
      (readingA fetchers).halted ys ((readingA fetchers).halted.launched nodeEchB [2] fetchers') :=
    run_start rfl rfl ⟨rfl, rfl⟩ rfl [2] (fun _ _ _ => trivial) fun _ _ _ _ => trivial
  have he : endpoint parsePlain nodeEchB.wsServer =
      some (.wss, [98, 46, 101, 120, 97, 109, 112, 108, 101]) := rfl
  obtain ⟨zs, hd⟩ := run_dialer (G := Unguarded)
    (s := (readingA fetchers).halted.launched nodeEchB [2] fetchers') (k := 1)
    (d := ⟨1, 0, [], .top⟩) rfl rfl rfl (fun _ => trivial)
    (.tail (.tail (.single (.secure rfl he)) (.noFallback rfl)) (.listLock rfl))
  have hrun := hA.append (hstop.append (hB.append hd))
  have hne : nodeECH.echDomain ≠ nodeEchB.echDomain := by decide
  refine ⟨_, _, hrun.of_guarded, ⟨⟨1, 0, [], .lockedList 1⟩, ?_, rfl, rfl⟩, rfl, hne, fun ho => hne ?_⟩
  · exact List.mem_cons_of_mem _ List.mem_cons_self
  · exact Option.some_inj.mp (ho ⟨1, 0, [], .lockedList 1⟩
      (List.mem_cons_of_mem _ List.mem_cons_self) _ 1 rfl rfl (List.cons_ne_nil 1 []))

end XTunnel.Service
